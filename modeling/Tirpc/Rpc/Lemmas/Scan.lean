import Tirpc.Rpc.Codec
import Tirpc.Tcp.Lemmas.Buffer

/-!
# The scan for a package

What the scan finds is the first position at which a frame stands (`frameAt`). The scan keeps to the
readable bytes as long as no start byte in front of that frame leads out of them (`ScanOk`).
-/

namespace Tirpc

open Lib

/-- The frame that the scan sees at position `i`: a start byte, a length whose end is received, and
an end byte there. -/
def frameAt (tmp : Bytes) (writeIndex i : Int) : Option Frame :=
  if byteAt tmp i = some PB_START ∧ i + 1 < writeIndex then
    (wordAt tmp (i + 1)).bind fun pkLen =>
      let j := wrap32 (i + pkLen - 1)
      if j < writeIndex ∧ byteAt tmp j = some PB_END then some { start := i, stop := j, pkLen := pkLen }
      else none
  else none

variable {tmp : Bytes} {w i : Int} {f : Frame}

/-- At a start byte with a length behind it, the end byte decides. -/
theorem frameAt_start {pkLen : Int} (hs : byteAt tmp i = some PB_START) (hi : i + 1 < w)
    (hpk : wordAt tmp (i + 1) = some pkLen) :
    frameAt tmp w i =
      if wrap32 (i + pkLen - 1) < w ∧ byteAt tmp (wrap32 (i + pkLen - 1)) = some PB_END then
        some { start := i, stop := wrap32 (i + pkLen - 1), pkLen := pkLen }
      else none := by
  simp only [frameAt]
  rw [if_pos ⟨hs, hi⟩, hpk]
  rfl

theorem frameAt_no_start (h : ¬(byteAt tmp i = some PB_START ∧ i + 1 < w)) : frameAt tmp w i = none := if_neg h

theorem byteAt_isSome (h0 : 0 ≤ i) (h1 : i < tmp.length) : ∃ c, byteAt tmp i = some c := by
  simp only [byteAt]
  rw [readRange_some h0 (by omega) (by omega)]
  cases hd : tmp.drop i.toNat with
  | nil => simp only [List.drop_eq_nil_iff] at hd; omega
  | cons c cs => exact ⟨c, by simp⟩

theorem byteAt_bounds {c : UInt8} (h : byteAt tmp i = some c) : 0 ≤ i ∧ i < tmp.length := by
  simp only [byteAt] at h
  obtain ⟨s, hs, -⟩ := Option.bind_eq_some_iff.mp h
  have := readRange_eq_some hs
  omega

theorem wordAt_isSome (h0 : 0 ≤ i) (h1 : i + 4 ≤ tmp.length) : ∃ x, wordAt tmp i = some x := by
  simp only [wordAt]
  rw [readRange_some h0 (by omega) h1]
  exact ⟨_, rfl⟩

theorem wordAt_bounds {x : Int} (h : wordAt tmp i = some x) : 0 ≤ i ∧ i + 4 ≤ tmp.length := by
  simp only [wordAt] at h
  obtain ⟨s, hs, -⟩ := Option.map_eq_some_iff.mp h
  have := readRange_eq_some hs
  omega

theorem wordAt_isInt32 {x : Int} (h : wordAt tmp i = some x) : IsInt32 x := by
  simp only [wordAt] at h
  obtain ⟨s, -, rfl⟩ := Option.map_eq_some_iff.mp h
  exact isInt32_beInt32 s

theorem frameAt_eq_some (h : frameAt tmp w i = some f) :
    f.start = i ∧ byteAt tmp i = some PB_START ∧ i + 1 < w ∧ wordAt tmp (i + 1) = some f.pkLen ∧
      f.stop = wrap32 (i + f.pkLen - 1) ∧ f.stop < w ∧ byteAt tmp f.stop = some PB_END := by
  unfold frameAt at h
  split at h
  · rename_i hc
    obtain ⟨pk, hpk, h⟩ := Option.bind_eq_some_iff.mp h
    dsimp only at h
    split at h
    · rename_i hj
      cases h
      exact ⟨rfl, hc.1, hc.2, hpk, rfl, hj.1, hj.2⟩
    · cases h
  · cases h

theorem findFrame_succ_res {n : Nat} {r : Option Frame} (h : (findFrame tmp w (n + 1) i).res = some r) :
    r = frameAt tmp w i ∧ r ≠ none ∨ frameAt tmp w i = none ∧ (findFrame tmp w n (i + 1)).res = some r := by
  simp only [findFrame, loadByte, getInt32FromNetByte, Traced.res_bind, Traced.res_access] at h
  obtain ⟨c, hc, h⟩ := Option.bind_eq_some_iff.mp h
  by_cases hs : c = PB_START ∧ i + 1 < w
  · rw [if_pos hs] at h
    simp only [Traced.res_bind, Traced.res_access] at h
    obtain ⟨pk, hpk, h⟩ := Option.bind_eq_some_iff.mp h
    rw [frameAt_start (by rw [hc, hs.1]) hs.2 hpk]
    by_cases hj : wrap32 (i + pk - 1) ≥ w
    · rw [if_pos hj] at h
      rw [if_neg (by intro hj'; omega)]
      exact .inr ⟨rfl, h⟩
    · rw [if_neg hj] at h
      simp only [Traced.res_bind, Traced.res_access] at h
      obtain ⟨c', hc', h⟩ := Option.bind_eq_some_iff.mp h
      by_cases he : c' = PB_END
      · rw [if_pos he] at h
        simp only [Traced.res_pure, Option.some.injEq] at h
        subst h
        rw [if_pos ⟨by omega, by rw [hc', he]⟩]
        exact .inl ⟨rfl, by simp⟩
      · rw [if_neg he] at h
        rw [if_neg (by rw [hc']; simp [he])]
        exact .inr ⟨rfl, h⟩
  · rw [if_neg hs] at h
    exact .inr ⟨frameAt_no_start (by rw [hc]; simpa using hs), h⟩

/-- What the scan yields: the first frame, or nothing when there is none. -/
def FirstFrame (tmp : Bytes) (w i : Int) (n : Nat) : Option Frame → Prop
  | none => ∀ k, i ≤ k → k < i + n → frameAt tmp w k = none
  | some f => i ≤ f.start ∧ f.start < i + n ∧ frameAt tmp w f.start = some f ∧
      ∀ k, i ≤ k → k < f.start → frameAt tmp w k = none

theorem FirstFrame.succ {n : Nat} {r : Option Frame} (h : FirstFrame tmp w (i + 1) n r)
    (hi : frameAt tmp w i = none) : FirstFrame tmp w i (n + 1) r := by
  have hcase : ∀ k, i ≤ k → k = i ∨ i + 1 ≤ k := by intro k hk; omega
  cases r with
  | none =>
      intro k h1 h2
      rcases hcase k h1 with rfl | h3
      · exact hi
      · exact h k h3 (by omega)
  | some f =>
      obtain ⟨h1, h2, h3, h4⟩ := h
      refine ⟨by omega, by omega, h3, ?_⟩
      intro k h5 h6
      rcases hcase k h5 with rfl | h7
      · exact hi
      · exact h4 k h7 h6

theorem findFrame_first {n : Nat} {r : Option Frame} (h : (findFrame tmp w n i).res = some r) :
    FirstFrame tmp w i n r := by
  induction n generalizing i with
  | zero =>
      simp only [findFrame, Traced.res_pure, Option.some.injEq] at h
      subst h
      intro k h1 h2
      omega
  | succ n ih =>
      rcases findFrame_succ_res h with ⟨rfl, hne⟩ | ⟨hi, hrest⟩
      · cases hf : frameAt tmp w i with
        | none => exact absurd hf hne
        | some f =>
            obtain ⟨rfl, -⟩ := frameAt_eq_some hf
            exact ⟨by omega, by omega, hf, by intro k h1 h2; omega⟩
      · exact (ih hrest).succ hi

theorem FirstFrame.unique {n : Nat} {r r' : Option Frame} (h : FirstFrame tmp w i n r)
    (h' : FirstFrame tmp w i n r') : r = r' := by
  cases r with
  | none =>
      cases r' with
      | none => rfl
      | some f' =>
          obtain ⟨g1, g2, g3, -⟩ := h'
          rw [h _ g1 g2] at g3; cases g3
  | some f =>
      obtain ⟨h1, h2, h3, h4⟩ := h
      cases r' with
      | none => rw [h' _ h1 h2] at h3; cases h3
      | some f' =>
          obtain ⟨g1, g2, g3, g4⟩ := h'
          rcases Int.lt_trichotomy f.start f'.start with hlt | heq | hgt
          · rw [g4 _ h1 hlt] at h3; cases h3
          · rw [heq, g3] at h3; exact h3.symm
          · rw [h4 _ g1 hgt] at g3; cases g3

theorem firstFrame_head {g : Frame} {n : Nat} (h : FirstFrame tmp w i n (some f)) (hg : frameAt tmp w i = some g) : f = g := by
  obtain ⟨h0, -, hf, hbefore⟩ := h
  by_cases hi : f.start = i
  · rw [hi, hg] at hf
    exact (Option.some.inj hf).symm
  · rw [hbefore i (Int.le_refl _) (by omega)] at hg
    cases hg

/-! ## Reads of the scan -/

/-- The start byte at position `i`, if it is one, does not lead out of the readable bytes: the four
bytes of the length have been received, and the end that they announce is not in front of the read
index. -/
def ScanOk (b : TcpBuffer) (i : Int) : Prop :=
  byteAt b.buffer i = some PB_START → i + 1 < b.writeIndex →
    i + 5 ≤ b.writeIndex ∧ ∀ pkLen, wordAt b.buffer (i + 1) = some pkLen →
      b.writeIndex ≤ wrap32 (i + pkLen - 1) ∨ b.readIndex ≤ wrap32 (i + pkLen - 1)

def Access.Inside (b : TcpBuffer) (a : Access) : Prop :=
  ∀ p, a.pos ≤ p → p < a.pos + a.len → b.readIndex ≤ p ∧ p < b.writeIndex

/-- The length of the access fits: the array of a field has room for the terminator. -/
def Access.Fits : Access → Prop
  | .load _ | .loadWord _ => True
  | .copyField cap _ len => 0 ≤ len ∧ len < cap
  | .buildString _ len => 0 ≤ len

def Access.Allowed (b : TcpBuffer) (a : Access) : Prop := a.Fits ∧ a.Inside b

variable {b : TcpBuffer}

theorem allowed_load {p : Int} :
    (Access.load p).Allowed b ↔ b.readIndex ≤ p ∧ p < b.writeIndex := by
  simp only [Access.Allowed, Access.Fits, Access.Inside, Access.pos, Access.len, true_and]
  constructor
  · intro h; exact h p (by omega) (by omega)
  · intro h q h1 h2; omega

theorem allowed_loadWord {p : Int} :
    (Access.loadWord p).Allowed b ↔ b.readIndex ≤ p ∧ p + 4 ≤ b.writeIndex := by
  simp only [Access.Allowed, Access.Fits, Access.Inside, Access.pos, Access.len, true_and]
  constructor
  · intro h
    have h1 := h p (by omega) (by omega)
    have h2 := h (p + 3) (by omega) (by omega)
    omega
  · intro h q h1 h2; omega

theorem findFrame_succ_safe {n : Nat} (hv : b.Valid) (h0 : b.readIndex ≤ i) (h1 : i < b.writeIndex) :
    (findFrame b.buffer b.writeIndex (n + 1) i).Safe (Access.Allowed b) ↔
      ScanOk b i ∧ (frameAt b.buffer b.writeIndex i = none →
        (findFrame b.buffer b.writeIndex n (i + 1)).Safe (Access.Allowed b)) := by
  have hr := hv.read_nonneg
  have hw := hv.write_le_size
  obtain ⟨c, hc⟩ : ∃ c, byteAt b.buffer i = some c := byteAt_isSome (by omega) (by omega)
  simp only [findFrame, loadByte, getInt32FromNetByte, Traced.safe_bind, Traced.safe_access,
    Traced.res_access, hc, Option.some.injEq, forall_eq']
  rw [and_iff_right (allowed_load.mpr ⟨h0, h1⟩)]
  by_cases hs : c = PB_START ∧ i + 1 < b.writeIndex
  · have hstart : byteAt b.buffer i = some PB_START := by rw [hc, hs.1]
    rw [if_pos hs]
    simp only [Traced.safe_bind, Traced.safe_access, Traced.res_access, allowed_loadWord]
    by_cases h5 : i + 5 ≤ b.writeIndex
    · obtain ⟨pk, hpk⟩ : ∃ x, wordAt b.buffer (i + 1) = some x := wordAt_isSome (by omega) (by omega)
      have hok : ScanOk b i ↔
          b.writeIndex ≤ wrap32 (i + pk - 1) ∨ b.readIndex ≤ wrap32 (i + pk - 1) := by
        simp only [ScanOk, hstart, hs.2, h5, hpk, Option.some.injEq, forall_eq', true_and, forall_const]
      simp only [hpk, Option.some.injEq, forall_eq', hok]
      rw [and_iff_right ⟨by omega, by omega⟩]
      by_cases hj : wrap32 (i + pk - 1) ≥ b.writeIndex
      · have hno : frameAt b.buffer b.writeIndex i = none := by
          rw [frameAt_start hstart hs.2 hpk, if_neg (by omega)]
        rw [if_pos hj]
        simp only [hno, hj, true_or, true_and, forall_const]
      · rw [if_neg hj]
        simp only [Traced.safe_bind, Traced.safe_access, Traced.res_access, allowed_load]
        by_cases hjr : b.readIndex ≤ wrap32 (i + pk - 1)
        · obtain ⟨c', hc'⟩ : ∃ c, byteAt b.buffer (wrap32 (i + pk - 1)) = some c :=
            byteAt_isSome (by omega) (by omega)
          rw [and_iff_right ⟨hjr, by omega⟩, and_iff_right (Or.inr hjr)]
          simp only [hc', Option.some.injEq, forall_eq']
          by_cases he : c' = PB_END
          · have hsome : frameAt b.buffer b.writeIndex i ≠ none := by
              rw [frameAt_start hstart hs.2 hpk, if_pos ⟨by omega, by rw [hc', he]⟩]
              simp
            rw [if_pos he]
            simp only [Traced.safe_pure, hsome, false_implies]
          · have hno : frameAt b.buffer b.writeIndex i = none := by
              rw [frameAt_start hstart hs.2 hpk, if_neg (by rw [hc']; simp [he])]
            rw [if_neg he]
            simp only [hno, forall_const]
        · constructor
          · intro h; exact absurd h.1.1 hjr
          · intro h; rcases h.1 with h2 | h2 <;> omega
    · constructor
      · intro h; omega
      · intro h; exact absurd (h.1 hstart hs.2).1 h5
  · rw [if_neg hs]
    have hno : frameAt b.buffer b.writeIndex i = none := frameAt_no_start (by rw [hc]; simpa using hs)
    have hok : ScanOk b i := by
      intro h2 h3
      rw [hc, Option.some.injEq] at h2
      exact absurd ⟨h2, h3⟩ hs
    simp only [hok, hno, true_and, forall_const]

theorem findFrame_safe {n : Nat} (hv : b.Valid) (h0 : b.readIndex ≤ i) (hn : i + n = b.writeIndex) :
    (findFrame b.buffer b.writeIndex n i).Safe (Access.Allowed b) ↔
      ∀ k, i ≤ k → k < b.writeIndex →
        (∀ l, i ≤ l → l < k → frameAt b.buffer b.writeIndex l = none) → ScanOk b k := by
  induction n generalizing i with
  | zero =>
      simp only [findFrame, Traced.safe_pure, true_iff]
      intro k h1 h2; omega
  | succ n ih =>
      rw [findFrame_succ_safe hv h0 (by omega), ih (by omega) (by omega)]
      constructor
      · rintro ⟨hok, hrest⟩ k h1 h2 hbefore
        by_cases hk : k = i
        · exact hk ▸ hok
        · exact hrest (hbefore i (by omega) (by omega)) k (by omega) h2
            (fun l h3 h4 => hbefore l (by omega) h4)
      · intro h
        refine ⟨h i (by omega) (by omega) (by intro l h1 h2; omega), ?_⟩
        intro hno k h1 h2 hbefore
        refine h k (by omega) h2 ?_
        intro l h3 h4
        by_cases hl : l = i
        · exact hl ▸ hno
        · exact hbefore l (by omega) h4

theorem findFrame_succ_of_scanOk {n : Nat} (hv : b.Valid) (h0 : b.readIndex ≤ i) (h1 : i < b.writeIndex)
    (hok : ScanOk b i) :
    (findFrame b.buffer b.writeIndex (n + 1) i).res =
      match frameAt b.buffer b.writeIndex i with
      | some f => some (some f)
      | none => (findFrame b.buffer b.writeIndex n (i + 1)).res := by
  have hr := hv.read_nonneg
  have hw := hv.write_le_size
  obtain ⟨c, hc⟩ : ∃ c, byteAt b.buffer i = some c := byteAt_isSome (by omega) (by omega)
  simp only [findFrame, loadByte, getInt32FromNetByte, Traced.res_bind, Traced.res_access, hc,
    Option.bind_some, frameAt, Option.some.injEq]
  by_cases hs : c = PB_START ∧ i + 1 < b.writeIndex
  · obtain ⟨h5, hstop⟩ := hok (by rw [hc, hs.1]) hs.2
    obtain ⟨pk, hpk⟩ : ∃ x, wordAt b.buffer (i + 1) = some x := wordAt_isSome (by omega) (by omega)
    rw [if_pos hs, if_pos hs]
    simp only [Traced.res_bind, Traced.res_access, hpk, Option.bind_some]
    by_cases hj : wrap32 (i + pk - 1) ≥ b.writeIndex
    · rw [if_pos hj, if_neg (by omega)]
    · have hjr : b.readIndex ≤ wrap32 (i + pk - 1) := by
        rcases hstop pk hpk with h | h <;> omega
      obtain ⟨c', hc'⟩ : ∃ c, byteAt b.buffer (wrap32 (i + pk - 1)) = some c :=
        byteAt_isSome (by omega) (by omega)
      rw [if_neg hj]
      simp only [Traced.res_bind, Traced.res_access, hc', Option.bind_some, Option.some.injEq]
      by_cases he : c' = PB_END
      · rw [if_pos he, if_pos ⟨by omega, he⟩]
        rfl
      · rw [if_neg he, if_neg (by intro h; exact he h.2)]
  · rw [if_neg hs, if_neg hs]

theorem findFrame_safe_res {n : Nat} (hv : b.Valid) (h0 : b.readIndex ≤ i) (hn : i + n = b.writeIndex)
    (h : (findFrame b.buffer b.writeIndex n i).Safe (Access.Allowed b)) :
    ∃ r, (findFrame b.buffer b.writeIndex n i).res = some r := by
  induction n generalizing i with
  | zero => exact ⟨none, rfl⟩
  | succ n ih =>
      obtain ⟨hok, hrest⟩ := (findFrame_succ_safe hv h0 (by omega)).mp h
      rw [findFrame_succ_of_scanOk hv h0 (by omega) hok]
      cases hf : frameAt b.buffer b.writeIndex i with
      | some f => exact ⟨some f, rfl⟩
      | none => exact ih (by omega) (by omega) (hrest hf)

end Tirpc
