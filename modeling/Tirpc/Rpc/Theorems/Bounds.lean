import Tirpc.Rpc.Lemmas.Fields

/-!
# Which buffers `Decode` reads within bounds

For every buffer in order, the exact condition on its bytes under which `Decode` keeps to the
readable bytes, to its local arrays and to lengths that are not negative.
-/

namespace Tirpc

open Lib

variable {b : TcpBuffer} {data : TinyPbStruct}

/-- `Decode` reads readable bytes only, copies a field only when it fits its array, builds no string
of negative length, and returns; what it accepts has fields that fit. -/
def DecodesInBounds (b : TcpBuffer) : Prop :=
  (decode b {}).Safe (Access.Allowed b) ∧
    ∃ r, (decode b {}).res = some r ∧ (r.2.decodeSucc → FieldsFit r.2)

/-- No start byte in front of the first frame leads out of the readable bytes, and the fields of that
frame fit, or the code drops the package before it uses one that does not. -/
structure FramesFit (b : TcpBuffer) : Prop where
  scan : ∀ k, b.readIndex ≤ k → k < b.writeIndex →
    (∀ l, b.readIndex ≤ l → l < k → frameAt b.buffer b.writeIndex l = none) → ScanOk b k
  fields : ∀ f, frameAt b.buffer b.writeIndex f.start = some f → b.readIndex ≤ f.start →
    (∀ l, b.readIndex ≤ l → l < f.start → frameAt b.buffer b.writeIndex l = none) → MsgReqOk b f

theorem frameAt_within {f : Frame} (hv : b.Valid) (hf : frameAt b.buffer b.writeIndex f.start = some f)
    (h0 : b.readIndex ≤ f.start) (hok : ScanOk b f.start) : f.Within b := by
  have hr := hv.read_nonneg
  have hsz := hv.size_lt
  have hws := hv.write_le_size
  obtain ⟨-, h1, h2, h3, h4, h5, -⟩ := frameAt_eq_some hf
  obtain ⟨-, h6⟩ := hok h1 h2
  have hpk := wordAt_isInt32 h3
  have hstop : b.readIndex ≤ f.stop := by
    rcases h6 _ h3 with h7 | h7 <;> omega
  refine ⟨h0, by omega, hstop, h5, ?_⟩
  simp only [IsInt32] at hpk
  simp only [wrap32] at h4
  omega

theorem recycleRead_frame {f : Frame} (hv : b.Valid) (hf : f.Within b) :
    ∃ b', b.recycleRead (wrap32 (f.stop + 1 - f.start)) = some b' := by
  have hr := hv.read_nonneg
  have hsz := hv.size_lt
  have hws := hv.write_le_size
  obtain ⟨h1, h2, h3, h4, -⟩ := hf
  rw [wrap32_eq (x := f.stop + 1 - f.start) ⟨by omega, by omega⟩]
  unfold TcpBuffer.recycleRead
  rw [wrap32_eq (x := b.readIndex + (f.stop + 1 - f.start)) ⟨by omega, by omega⟩]
  dsimp only
  rw [if_neg (by simp only [TcpBuffer.getSize]; omega)]
  unfold TcpBuffer.adjustBuffer
  dsimp only
  split
  · rw [readRange_some (by omega) (by simp only [TcpBuffer.readable]; omega)
      (by simp only [TcpBuffer.readable]; omega)]
    exact ⟨_, rfl⟩
  · exact ⟨_, rfl⟩

theorem findFrame_all (hv : b.Valid) :
    b.readIndex + ((b.writeIndex - b.readIndex).toNat : Int) = b.writeIndex := by
  have := hv.read_le_write
  omega

theorem decode_safe (hv : b.Valid) : (decode b data).Safe (Access.Allowed b) ↔ FramesFit b := by
  have hall := findFrame_all hv
  unfold decode
  rw [Traced.safe_bind, findFrame_safe hv (Int.le_refl _) hall]
  constructor
  · rintro ⟨hscan, hrest⟩
    refine ⟨hscan, ?_⟩
    intro f hf h0 hbefore
    obtain ⟨r, hr⟩ := findFrame_safe_res hv (Int.le_refl _) hall
      ((findFrame_safe hv (Int.le_refl _) hall).mpr hscan)
    have hlt := (frameAt_eq_some hf).2.2.1
    have hfirst : FirstFrame b.buffer b.writeIndex b.readIndex
        (b.writeIndex - b.readIndex).toNat (some f) := ⟨h0, by omega, hf, hbefore⟩
    have hrf := (findFrame_first hr).unique hfirst
    subst hrf
    have hw := frameAt_within hv hf h0 (hscan f.start h0 (by omega) hbefore)
    obtain ⟨b', hb'⟩ := recycleRead_frame hv hw
    have hparse := hrest _ hr
    dsimp only at hparse
    rw [Traced.safe_bind] at hparse
    have hp := hparse.2 b' (by rw [Traced.res_lift]; exact hb')
    exact (parseFrame_safe hv hw).mp ((Traced.safe_bind _ _).mp hp).1
  · rintro ⟨hscan, hfields⟩
    refine ⟨hscan, ?_⟩
    intro r hr
    have hfirst := findFrame_first hr
    cases r with
    | none => exact Traced.safe_pure _
    | some f =>
        obtain ⟨h0, h1, hf, hbefore⟩ := hfirst
        have hw := frameAt_within hv hf h0 (hscan f.start h0 (by omega) hbefore)
        dsimp only
        rw [Traced.safe_bind]
        refine ⟨Traced.safe_lift _, fun b' _ => ?_⟩
        rw [Traced.safe_bind]
        exact ⟨(parseFrame_safe hv hw).mpr (hfields f hf h0 hbefore), fun _ _ => Traced.safe_pure _⟩

theorem decode_ensures (hv : b.Valid) (hs : data.decodeSucc = false) :
    (decode b data).Ensures (Access.Allowed b) fun r => r.2.decodeSucc → FieldsFit r.2 := by
  intro hsafe
  have hall := findFrame_all hv
  have hfit := (decode_safe hv).mp hsafe
  obtain ⟨r, hr⟩ := findFrame_safe_res hv (Int.le_refl _) hall
    ((findFrame_safe hv (Int.le_refl _) hall).mpr hfit.scan)
  have hfirst := findFrame_first hr
  simp only [decode, Traced.res_bind, hr, Option.bind_some]
  cases r with
  | none => exact ⟨_, rfl, by intro h; rw [hs] at h; cases h⟩
  | some f =>
      obtain ⟨h0, h1, hf, hbefore⟩ := hfirst
      have hw := frameAt_within hv hf h0 (hfit.scan f.start h0 (by omega) hbefore)
      obtain ⟨b', hb'⟩ := recycleRead_frame hv hw
      obtain ⟨d, hd, hq⟩ : ∃ d, (parseFrame b.buffer f data).res = some d ∧ (d.decodeSucc → FieldsFit d) :=
        parseFrame_ensures hv hw
        ((parseFrame_safe hv hw).mpr (hfit.fields f hf h0 hbefore))
      simp only [Traced.res_bind, Traced.res_lift, hb', hd, Option.bind_some]
      exact ⟨_, rfl, hq⟩

/-- `Decode` stays within bounds on exactly the buffers whose frames fit. -/
theorem decode_in_bounds_iff (b : TcpBuffer) (hv : b.Valid) : DecodesInBounds b ↔ FramesFit b := by
  refine ⟨fun h => (decode_safe hv).mp h.1, fun h => ?_⟩
  have hsafe : (decode b {}).Safe (Access.Allowed b) := (decode_safe hv).mpr h
  exact ⟨hsafe, decode_ensures hv rfl hsafe⟩

/-- Twelve bytes that look like a package, with a message number of 255 bytes. -/
def longMsgReq : TcpBuffer :=
  { buffer := [2, 0, 0, 0, 12, 0, 0, 0, 255, 65, 66, 3], readIndex := 0, writeIndex := 12 }

theorem decode_copies_past_msg_req : ¬∀ b : TcpBuffer, b.Valid → DecodesInBounds b := by
  intro h
  obtain ⟨hsafe, -⟩ := h longMsgReq (by decide)
  have hmem : Access.copyField 50 9 255 ∈ (decode longMsgReq {}).log := by decide
  have hfits := (hsafe _ hmem).1
  simp only [Access.Fits] at hfits
  omega

/-- A byte that belongs to no package, and behind it a package with the number `1` and the service name `S`. -/
def onePackage : TcpBuffer :=
  { buffer := [7, 2, 0, 0, 0, 29, 0, 0, 0, 1, 49, 0, 0, 0, 1, 83, 0, 0, 0, 0, 0, 0, 0, 0, 8, 0, 0, 0, 1, 3]
    readIndex := 0
    writeIndex := 30 }

theorem onePackage_frame : frameAt onePackage.buffer 30 1 = some { start := 1, stop := 29, pkLen := 29 } := by decide

theorem onePackage_fields : MsgReqOk onePackage { start := 1, stop := 29, pkLen := 29 } := by
  refine .inr ⟨by decide, fun m hm => .inr ?_⟩
  cases hm.symm.trans (by decide : wordAt onePackage.buffer 6 = some 1)
  refine ⟨by decide, by decide, by decide, .inr (.inr ⟨by decide, fun n hn => .inr ?_⟩)⟩
  cases hn.symm.trans (by decide : wordAt onePackage.buffer 11 = some 1)
  refine ⟨by decide, by decide, by decide, .inr ⟨by decide, fun k hk => ?_⟩⟩
  cases hk.symm.trans (by decide : wordAt onePackage.buffer 20 = some 0)
  exact ⟨by decide, by decide, by decide, .inr (by decide)⟩

theorem decode_in_bounds_package : DecodesInBounds onePackage := by
  have hjunk : byteAt onePackage.buffer 0 ≠ some PB_START := by decide
  -- behind position 1 the frame has been found
  have hfirst : ∀ k, 0 ≤ k → (∀ l, 0 ≤ l → l < k → frameAt onePackage.buffer 30 l = none) → k = 0 ∨ k = 1 := by
    intro k h0 hbefore
    by_contra hk
    cases onePackage_frame.symm.trans (hbefore 1 (by decide) (by omega))
  refine (decode_in_bounds_iff onePackage (by decide)).mpr ⟨fun k h0 _ hbefore hk _ => ?_, fun f hf h0 hbefore => ?_⟩
  · rcases hfirst k h0 hbefore with rfl | rfl
    · exact absurd hk hjunk
    · refine ⟨by decide, fun pkLen hlen => ?_⟩
      cases hlen.symm.trans (by decide : wordAt onePackage.buffer 2 = some 29)
      exact .inr (by decide)
  · rcases hfirst f.start h0 hbefore with hstart | hstart
    · obtain ⟨-, hk, -⟩ := frameAt_eq_some hf
      exact absurd (hstart ▸ hk) hjunk
    · rw [hstart] at hf
      cases onePackage_frame.symm.trans hf
      exact onePackage_fields

end Tirpc
