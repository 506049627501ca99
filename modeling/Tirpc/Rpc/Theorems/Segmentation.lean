import Tirpc.Rpc.Lemmas.Stream

/-!
# Packages that arrive in pieces

`Decode` also scans the part of a package that has arrived. Runs in which that scan meets no frame
hand on the packages that were sent, however they were cut.
-/

namespace Tirpc

open Lib

variable {b b' : TcpBuffer} {d : TinyPbStruct}

/-! ## Buffers on which a call is settled -/

/-- The scan reads position `k` without leaving the vector and goes on. -/
def QuietAt (b : TcpBuffer) (k : Int) : Prop :=
  byteAt b.buffer k = some PB_START → k + 1 < b.writeIndex →
    ∃ pkLen, wordAt b.buffer (k + 1) = some pkLen ∧
      (b.writeIndex ≤ wrap32 (k + pkLen - 1) ∨
        ∃ c, byteAt b.buffer (wrap32 (k + pkLen - 1)) = some c ∧ c ≠ PB_END)

/-- A frame of length zero at position `m`. It is dropped, and no byte is consumed with it. -/
def EmptyFrameAt (b : TcpBuffer) (m : Int) : Prop :=
  m + 5 < 2147483648 ∧ ∃ f, frameAt b.buffer b.writeIndex m = some f ∧ f.pkLen = 0

/-- The scan passes over the readable bytes, or comes to a frame of length zero. -/
def NoStrayFrame (b : TcpBuffer) : Prop :=
  ∃ m, b.readIndex ≤ m ∧ (∀ k, b.readIndex ≤ k → k < m → QuietAt b k) ∧
    (m = b.writeIndex ∨ EmptyFrameAt b m)

/-- A whole package stands at the front of the readable bytes, or the scan meets no frame. -/
def Settled (b : TcpBuffer) : Prop :=
  b.readIndex + 5 ≤ b.writeIndex ∧ frameAt b.buffer b.writeIndex b.readIndex ≠ none ∨ NoStrayFrame b

theorem findFrame_quiet {n : Nat} {i : Int} (hv : b.Valid) (h0 : b.readIndex ≤ i)
    (hi : i < b.writeIndex) (hq : QuietAt b i) :
    (findFrame b.buffer b.writeIndex (n + 1) i).res = (findFrame b.buffer b.writeIndex n (i + 1)).res := by
  have hr := hv.read_nonneg
  have hw := hv.write_le_size
  obtain ⟨c, hc⟩ : ∃ c, byteAt b.buffer i = some c := byteAt_isSome (by omega) (by omega)
  simp only [findFrame, loadByte, getInt32FromNetByte, Traced.res_bind, Traced.res_access, hc,
    Option.bind_some]
  by_cases hs : c = PB_START ∧ i + 1 < b.writeIndex
  · obtain ⟨pk, hpk, hend⟩ := hq (by rw [hc, hs.1]) hs.2
    rw [if_pos hs]
    simp only [Traced.res_bind, Traced.res_access, hpk, Option.bind_some]
    rcases hend with hj | ⟨c', hc', hne⟩
    · rw [if_pos hj]
    · by_cases hj : wrap32 (i + pk - 1) ≥ b.writeIndex
      · rw [if_pos hj]
      · rw [if_neg hj]
        simp only [Traced.res_bind, Traced.res_access, hc', Option.bind_some]
        rw [if_neg hne]
  · rw [if_neg hs]

theorem findFrame_of_frameAt {n : Nat} {i w : Int} {tmp : Bytes} {f : Frame}
    (hf : frameAt tmp w i = some f) : (findFrame tmp w (n + 1) i).res = some (some f) := by
  obtain ⟨hstart, hc, hi, hpk, hstop, hj, he⟩ := frameAt_eq_some hf
  simp only [findFrame, loadByte, getInt32FromNetByte, Traced.res_bind, Traced.res_access, hc,
    Option.bind_some]
  rw [if_pos ⟨trivial, hi⟩]
  simp only [Traced.res_bind, Traced.res_access, hpk, Option.bind_some]
  rw [← hstop, if_neg (by omega)]
  simp only [Traced.res_bind, Traced.res_access, he, Option.bind_some, ↓reduceIte, Traced.res_pure]
  rw [← hstart]

theorem findFrame_noStray {m : Int} (hv : b.Valid)
    (hm : m = b.writeIndex ∨ EmptyFrameAt b m) {n : Nat} {i : Int}
    (h0 : b.readIndex ≤ i) (hn : i + n = b.writeIndex) (him : i ≤ m)
    (hq : ∀ k, i ≤ k → k < m → QuietAt b k) :
    ∃ r, (findFrame b.buffer b.writeIndex n i).res = some r ∧
      ∀ f, r = some f → f.pkLen = 0 ∧ f.start + 5 < 2147483648 := by
  have hmw : m ≤ b.writeIndex := by
    rcases hm with rfl | ⟨-, f, hf, -⟩
    · exact Int.le_refl _
    · have := (frameAt_eq_some hf).2.2.1
      omega
  induction n generalizing i with
  | zero => exact ⟨none, rfl, fun f h => by cases h⟩
  | succ n ih =>
      by_cases hlt : i < m
      · rw [findFrame_quiet hv h0 (by omega) (hq i (Int.le_refl _) hlt)]
        exact ih (by omega) (by omega) (by omega) (fun k h1 h2 => hq k (by omega) h2)
      · rcases hm with rfl | ⟨hm5, f, hf, hz⟩
        · omega
        · obtain rfl : i = m := by omega
          refine ⟨some f, findFrame_of_frameAt hf, fun g hg => ?_⟩
          cases hg
          exact ⟨hz, (frameAt_eq_some hf).1 ▸ hm5⟩

theorem decode_noStray (hv : b.Valid) (h : NoStrayFrame b) :
    ∃ b' d, (decode b {}).res = some (b', d) ∧ d.decodeSucc = false ∧ b'.Holds b.content := by
  have hr := hv.read_nonneg
  have hrw := hv.read_le_write
  have hsz := hv.size_lt
  have hws := hv.write_le_size
  obtain ⟨m, h0, hq, hm⟩ := h
  obtain ⟨r, hr', hz⟩ := findFrame_noStray (n := (b.writeIndex - b.readIndex).toNat) hv hm
    (Int.le_refl _) (by omega) h0 hq
  simp only [decode, Traced.res_bind, hr', Option.bind_some]
  cases r with
  | none => exact ⟨b, {}, rfl, rfl, hv.holds⟩
  | some f =>
      obtain ⟨hge, hlt, hf, -⟩ := findFrame_first hr'
      obtain ⟨hpk, h5⟩ := hz f rfl
      obtain ⟨-, -, -, -, hstop, -⟩ := frameAt_eq_some hf
      rw [hpk, wrap32_eq ⟨by omega, by omega⟩] at hstop
      have hcount : f.stop + 1 - f.start = 0 := by omega
      obtain ⟨b', hb', hholds, -⟩ := hv.holds.recycleRead (k := 0) (Int.le_refl _) (by omega)
      have hdrop : f.start + 5 ≥ f.stop := by omega
      simp only [hcount, wrap32_eq (x := 0) ⟨by omega, by omega⟩, Traced.res_bind, Traced.res_lift, hb',
        Option.bind_some, parseFrame, wrap32_eq (x := f.start + 5) ⟨by omega, by omega⟩, hdrop, ↓reduceIte]
      exact ⟨b', _, rfl, rfl, hholds⟩

/-! ## One call on a part of the stream -/

/-- The readable bytes begin with a whole package, which is then decoded, or with a part of one. -/
theorem decode_front {x y : Bytes} (hv : b.Valid) (hd : Sendable d) (hset : Settled b)
    (hq : b.content ++ x = package d ++ y) :
    (∃ b' t, b.content = package d ++ t ∧ t ++ x = y ∧
      (decode b {}).res = some (b', received {} d) ∧ b'.Holds t) ∨
    b.content.length < (package d).length ∧ NoStrayFrame b := by
  have hr := hv.read_nonneg
  have hsz := hv.size_lt
  have hws := hv.write_le_size
  have hlen := hv.content_length
  have hpl := package_length d
  have hl := hd.len
  simp only [TcpBuffer.readable] at hlen
  by_cases hle : (package d).length ≤ b.content.length
  · obtain ⟨t, ht⟩ : package d <+: b.content :=
      List.prefix_of_prefix_length_le ⟨y, hq.symm⟩ ⟨x, rfl⟩ hle
    obtain ⟨b', hdec, hb', -⟩ := decode_package hd (b := b) ⟨hv, ht.symm⟩
    rw [← ht, List.append_assoc] at hq
    exact .inl ⟨b', t, ht.symm, List.append_cancel_left hq, hdec, hb'⟩
  · refine .inr ⟨by omega, hset.resolve_left ?_⟩
    rintro ⟨h5, hnone⟩
    apply hnone
    have hfront : b.content.take 5 = PB_START :: netBytes32 (packageLen d) := by
      rw [package_append] at hq
      have htake := congrArg (List.take 5) hq
      rwa [List.take_append_of_le_length (by omega)] at htake
    have hrest := hv.holds.rest
    rw [← List.take_append_drop 5 b.content, hfront] at hrest
    obtain ⟨-, hrest⟩ := hrest.byte hv
    obtain ⟨hword, -⟩ := hrest.word hv ⟨by unfold packageLen; omega, hl⟩
    cases hf : frameAt b.buffer b.writeIndex b.readIndex with
    | none => rfl
    | some f =>
        obtain ⟨-, -, -, hpk, hstop, hlt, hend⟩ := frameAt_eq_some hf
        have hbound := byteAt_bounds hend
        rw [hword, Option.some.injEq] at hpk
        simp only [wrap32] at hstop
        omega

/-! ## Runs -/

def SettledTurns (s : StreamState TinyPbStruct) : StreamStep → Prop
  | .arrive _ => True
  | .turn => 0 < s.buf.readable → Settled s.buf

abbrev SettledRun (chunks : List Bytes) (s : StreamState TinyPbStruct) : Prop :=
  Reachable (streamNext tinyPbCodeC) (StreamStart chunks) SettledTurns s

/-- The packages of `done` have been handed on; those of `rest` are readable or have not arrived. -/
structure InTransit (done rest : List TinyPbStruct) (s : StreamState TinyPbStruct) : Prop where
  valid : s.buf.Valid
  stream_eq : s.buf.content ++ s.pending.flatten = (rest.map package).flatten
  dispatched_eq : s.dispatched = done.map (received {})
  waiting : s.executing = false → ∀ d ds, rest = d :: ds → s.buf.content.length < (package d).length

theorem package_pos (d : TinyPbStruct) : 0 < (package d).length := Nat.pos_of_ne_zero (package_ne_nil d)

theorem InTransit.turn {done rest : List TinyPbStruct} {s : StreamState TinyPbStruct}
    (h : InTransit done rest s) (hd : ∀ d ∈ rest, Sendable d) (he : s.executing = true)
    (hok : SettledTurns s .turn) :
    ∃ s', streamNext tinyPbCodeC s .turn = some s' ∧
      ((∃ d ds, rest = d :: ds ∧ InTransit (done ++ [d]) ds s' ∧
          s'.buf.content.length < s.buf.content.length) ∨
        s'.executing = false ∧ InTransit done rest s') := by
  have hlen := h.valid.content_length
  by_cases hr : 0 < s.buf.readable
  · cases rest with
    | nil =>
        have hnil := h.stream_eq
        simp only [List.map_nil, List.flatten_nil, List.append_eq_nil_iff] at hnil
        rw [hnil.1, List.length_nil] at hlen
        omega
    | cons d ds =>
        have hq := h.stream_eq
        rw [List.map_cons, List.flatten_cons] at hq
        rcases decode_front h.valid (hd d (.head _)) (hok hr) hq with
          ⟨b', t, hc, hy, hdec, hb'⟩ | ⟨hlt, hno⟩
        · refine ⟨_, streamNext_decoded tinyPbCodeC he hr hdec, .inl ⟨d, ds, rfl, ?_, ?_⟩⟩
          · refine ⟨hb'.valid, hb'.content_eq.symm ▸ hy, ?_, fun hf => ?_⟩
            · rw [List.map_append, ← h.dispatched_eq]
              rfl
            · cases he.symm.trans hf
          · have hpos := package_pos d
            show b'.content.length < _
            rw [hc, hb'.content_eq, List.length_append]
            omega
        · obtain ⟨b', d', hdec, hs, hb'⟩ := decode_noStray h.valid hno
          refine ⟨{ s with buf := b', executing := false }, ?_, .inr ⟨rfl, ?_⟩⟩
          · rw [streamNext_decoded tinyPbCodeC he hr hdec, show tinyPbCodeC.decodeSucc d' = false from hs]
            rfl
          · refine ⟨hb'.valid, ?_, h.dispatched_eq, fun _ e es hes => ?_⟩
            · exact hb'.content_eq.symm ▸ h.stream_eq
            · cases hes
              exact hb'.content_eq.symm ▸ hlt
  · refine ⟨{ s with executing := false }, ?_, .inr ⟨rfl, ?_⟩⟩
    · simp only [streamNext, executeTurn, he, ↓reduceIte, if_neg hr]
    · refine ⟨h.valid, h.stream_eq, h.dispatched_eq, fun _ d ds _ => ?_⟩
      have := package_pos d
      show s.buf.content.length < _
      omega

theorem inTransit_step {L : List TinyPbStruct} {s s' : StreamState TinyPbStruct} {l : StreamStep}
    (hL : ∀ d ∈ L, Sendable d) (h : ∃ done rest, L = done ++ rest ∧ InTransit done rest s)
    (hok : SettledTurns s l) (hn : streamNext tinyPbCodeC s l = some s') :
    ∃ done rest, L = done ++ rest ∧ InTransit done rest s' := by
  obtain ⟨done, rest, rfl, h⟩ := h
  cases l with
  | arrive buf =>
      obtain ⟨c, cs, hp, -, happ, rfl⟩ := streamNext_arrive hn
      refine ⟨done, rest, rfl, happ.1, ?_, h.dispatched_eq, fun hf => by cases hf⟩
      rw [← h.stream_eq, hp]
      simp only [happ.2, List.flatten_cons, List.append_assoc]
  | turn =>
      have he : s.executing = true := by
        rcases streamNext_turn hn with ⟨_, _, he, -⟩ | ⟨he, -⟩ <;> exact he
      obtain ⟨t, ht, hcase⟩ := h.turn (fun d hd => hL d (List.mem_append_right _ hd)) he hok
      cases hn.symm.trans ht
      rcases hcase with ⟨d, ds, rfl, hin, -⟩ | ⟨-, hin⟩
      · exact ⟨done ++ [d], ds, by rw [List.append_assoc]; rfl, hin⟩
      · exact ⟨done, rest, rfl, hin⟩

theorem inTransit_reachable {L : List TinyPbStruct} {chunks : List Bytes} {s : StreamState TinyPbStruct}
    (hL : ∀ d ∈ L, Sendable d) (hc : chunks.flatten = (L.map package).flatten)
    (h : SettledRun chunks s) :
    ∃ done rest, L = done ++ rest ∧ InTransit done rest s := by
  refine h.invariant (I := fun s => ∃ done rest, L = done ++ rest ∧ InTransit done rest s) ?_
    (fun s s' l h hok hn => inTransit_step hL h hok hn)
  rintro s ⟨hb, rfl, he, hd⟩
  refine ⟨[], L, rfl, hb.valid, by rw [hb.content_eq]; exact hc, hd, fun _ d ds _ => ?_⟩
  rw [hb.content_eq]
  exact package_pos d

theorem InTransit.all_done {done rest : List TinyPbStruct} {s : StreamState TinyPbStruct}
    (h : InTransit done rest s) (hs : s.Done) : rest = [] ∧ s.buf.content = [] := by
  have hq := h.stream_eq
  rw [hs.1, List.flatten_nil, List.append_nil] at hq
  cases rest with
  | nil => exact ⟨rfl, hq⟩
  | cons d ds =>
      have hlt := h.waiting hs.2 d ds rfl
      rw [hq, List.map_cons, List.flatten_cons, List.length_append] at hlt
      omega

def EncodesTo (d : TinyPbStruct) (re : Bytes) : Prop :=
  ∃ gen d', encodePbData gen d = some (some re, d')

theorem encodings_eq {L : List TinyPbStruct} {encs : List Bytes} (h : List.Forall₂ EncodesTo L encs)
    (hL : ∀ d ∈ L, Sendable d) : encs = L.map package := by
  induction h with
  | nil => rfl
  | cons h _ ih =>
      obtain ⟨gen, d', h⟩ := h
      rw [encodePbData_sendable gen (hL _ (.head _))] at h
      cases h
      rw [ih fun d hd => hL d (.tail _ hd)]
      rfl

/-- Runs over the packages of `L` whose calls are all settled are never stuck, each `Execute` returns,
and two of them that are through have handed on the same data and leave the same bytes. -/
theorem segmentation_irrelevant {L : List TinyPbStruct} {encs : List Bytes}
    (henc : List.Forall₂ EncodesTo L encs) (hL : ∀ d ∈ L, Sendable d) :
    (∀ c s, c.flatten = encs.flatten → SettledRun c s → s.executing = true → SettledTurns s .turn →
      ∃ s', streamNext tinyPbCodeC s .turn = some s' ∧
        (s'.executing = false ∨ s'.buf.content.length < s.buf.content.length)) ∧
    ∀ c₁ c₂ s₁ s₂, c₁.flatten = encs.flatten → c₂.flatten = encs.flatten →
      SettledRun c₁ s₁ → SettledRun c₂ s₂ → s₁.Done → s₂.Done →
      s₁.dispatched = s₂.dispatched ∧ s₁.buf.content = s₂.buf.content := by
  obtain rfl := encodings_eq henc hL
  refine ⟨fun c s hc hs he hok => ?_, fun c₁ c₂ s₁ s₂ hc₁ hc₂ hs₁ hs₂ hd₁ hd₂ => ?_⟩
  · obtain ⟨done, rest, rfl, h⟩ := inTransit_reachable hL hc hs
    obtain ⟨s', hn, hcase⟩ := h.turn (fun d hd => hL d (List.mem_append_right _ hd)) he hok
    rcases hcase with ⟨_, _, -, -, hlt⟩ | ⟨hf, -⟩
    · exact ⟨s', hn, .inr hlt⟩
    · exact ⟨s', hn, .inl hf⟩
  · obtain ⟨done₁, rest₁, hL₁, h₁⟩ := inTransit_reachable hL hc₁ hs₁
    obtain ⟨done₂, rest₂, hL₂, h₂⟩ := inTransit_reachable hL hc₂ hs₂
    obtain ⟨rfl, he₁⟩ := h₁.all_done hd₁
    obtain ⟨rfl, he₂⟩ := h₂.all_done hd₂
    rw [List.append_nil] at hL₁ hL₂
    exact ⟨by rw [h₁.dispatched_eq, h₂.dispatched_eq, ← hL₁, ← hL₂], he₁.trans he₂.symm⟩

/-! ## A package inside a package -/

def envelope : TinyPbStruct := { msgSeq := text "2", serviceFullName := text "S", pbData := package ping }

/-- All but the last byte of the envelope arrive, then that byte. -/
def cutEnvelope : List StreamStep :=
  [.arrive { buffer := (package envelope).dropLast ++ [0], readIndex := 0, writeIndex := 55 }, .turn, .turn,
    .arrive { buffer := (package envelope).drop 28 ++ List.replicate 28 0, readIndex := 0, writeIndex := 28 },
    .turn]

theorem cutEnvelope_run : runLabels (streamNext tinyPbCodeC)
    ⟨.new 56, [(package envelope).dropLast, [PB_END]], false, []⟩ cutEnvelope =
      some ⟨{ buffer := (package envelope).drop 28 ++ List.replicate 28 0, readIndex := 0, writeIndex := 28 },
        [], false, [received {} ping]⟩ := by
  decide +kernel

theorem wholeEnvelope_run : runLabels (streamNext tinyPbCodeC) ⟨.new 56, [package envelope], false, []⟩
    [.arrive { buffer := package envelope, readIndex := 0, writeIndex := 56 }, .turn, .turn] =
      some ⟨.new 56, [], false, [received {} envelope]⟩ := by
  decide +kernel

/-- The inner package is handed on when the outer one is cut before its last byte. -/
theorem segmentation_hands_on_payload :
    ¬∀ L encs c₁ c₂ s₁ s₂, List.Forall₂ EncodesTo L encs → (∀ d ∈ L, Sendable d) →
      c₁.flatten = encs.flatten → c₂.flatten = encs.flatten → [] ∉ c₁ → [] ∉ c₂ →
      Reachable (streamNext tinyPbCodeC) (StreamStart c₁) anyStep s₁ →
      Reachable (streamNext tinyPbCodeC) (StreamStart c₂) anyStep s₂ → s₁.Done → s₂.Done →
      s₁.dispatched = s₂.dispatched ∧ s₁.buf.content = s₂.buf.content := by
  intro h
  have hsend : Sendable envelope := ⟨by decide, by decide, by decide, ⟨by decide, by decide⟩, by decide⟩
  have henc : EncodesTo envelope (package envelope) := ⟨[], _, encodePbData_sendable [] hsend⟩
  have hcut := Reachable.of_run (.start (streamStart_new _ (by decide))) cutEnvelope_run
  have hwhole := Reachable.of_run (.start (streamStart_new _ (by decide))) wholeEnvelope_run
  obtain ⟨hd, -⟩ := h [envelope] [package envelope] _ _ _ _ (.cons henc .nil)
    (by simpa using hsend) (by decide) (by decide) (by decide) (by decide) hcut hwhole ⟨rfl, rfl⟩ ⟨rfl, rfl⟩
  exact absurd hd (by decide)

/-! The package of `ping` in one piece, and cut behind its first byte. -/

def pingWhole : StreamState TinyPbStruct := ⟨.new 28, [], false, [received {} ping]⟩

theorem pingWhole_reachable : SettledRun [package ping] pingWhole := by
  have hframe : frameAt (package ping) 28 0 ≠ none := by rw [pingReceived_frame]; simp
  have harrive : SettledRun [package ping] ⟨pingReceived, [], true, []⟩ :=
    .step (.start (streamStart_new _ (by decide))) (.arrive pingReceived) trivial ping_arrive
  have hturn := harrive.step .turn (fun _ => Or.inl ⟨by decide, hframe⟩) (ping_turn rfl rfl)
  exact hturn.step .turn (fun hr => absurd hr (by decide)) (by decide)

/-- The buffer of the second run, after the first byte and after the whole package. -/
def pingCutBuffer : Nat → TcpBuffer
  | 0 => { buffer := PB_START :: List.replicate 39 0, readIndex := 0, writeIndex := 1 }
  | _ => { buffer := package ping ++ List.replicate 12 0, readIndex := 0, writeIndex := 28 }

def pingCut : StreamState TinyPbStruct := ⟨.new 40, [], false, [received {} ping]⟩

theorem pingCut_reachable : SettledRun [[PB_START], (package ping).drop 1] pingCut := by
  have hquiet : NoStrayFrame (pingCutBuffer 0) := by
    refine ⟨1, by decide, fun k h0 h1 _ h2 => ?_, .inl rfl⟩
    simp only [pingCutBuffer] at h0 h2
    omega
  have hframe : frameAt (pingCutBuffer 1).buffer 28 0 = some (frameOf ping 0) := by decide
  have hstart : SettledRun [[PB_START], (package ping).drop 1]
      ⟨.new 40, [[PB_START], (package ping).drop 1], false, []⟩ := .start (streamStart_new _ (by decide))
  have hone : SettledRun _ ⟨pingCutBuffer 0, [(package ping).drop 1], true, []⟩ :=
    hstart.step (.arrive (pingCutBuffer 0)) trivial (by decide)
  have hquit : SettledRun _ ⟨pingCutBuffer 0, [(package ping).drop 1], false, []⟩ :=
    hone.step .turn (fun _ => Or.inr hquiet) (by decide)
  have hall : SettledRun _ ⟨pingCutBuffer 1, [], true, []⟩ :=
    hquit.step (.arrive (pingCutBuffer 1)) trivial (by decide)
  have hturn : SettledRun _ ⟨.new 40, [], true, [received {} ping]⟩ :=
    hall.step .turn (fun _ => Or.inl ⟨by decide, fun hn => by cases hframe.symm.trans hn⟩) (by decide +kernel)
  exact hturn.step .turn (fun hr => absurd hr (by decide)) (by decide)

theorem segmentation_irrelevant_ping :
    pingWhole.dispatched = pingCut.dispatched ∧ pingWhole.buf.content = pingCut.buf.content := by
  have hsend : Sendable ping := ⟨by decide, by decide, by decide, ⟨by decide, by decide⟩, by decide⟩
  have henc : EncodesTo ping (package ping) := ⟨[], _, encodePbData_sendable [] hsend⟩
  exact (segmentation_irrelevant (.cons henc .nil) (by simpa using hsend)).2 _ _ _ _ (by decide)
    (by decide) pingWhole_reachable pingCut_reachable ⟨rfl, rfl⟩ ⟨rfl, rfl⟩

end Tirpc
