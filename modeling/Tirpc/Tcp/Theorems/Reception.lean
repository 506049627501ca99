import Tirpc.Tcp.Lemmas.Input

/-!
# Every byte that is received reaches the buffer

Each read of `Input` asks for at least one byte and has room for what it asks for, and the readable
bytes grow by exactly what the reads bring.
-/

namespace Tirpc

open Lib TcpBuffer

/-- What a turn receives. -/
def turnReceived (env : InputEnv) (s : InputState) : Bytes :=
  match preparedBuffer s.buf with
  | none => []
  | some p => (recvHook env s.calls p.writeable).bytes

/-- What the loop receives in its first `n` turns. -/
def loopReceived (env : InputEnv) : Nat → InputState → Bytes
  | 0, _ => []
  | n + 1, s =>
      turnReceived env s ++
        match inputTurn env s with
        | .again s' => loopReceived env n s'
        | .exit _ => []

/-- There is a target for at least one byte, and it lies inside the vector. -/
structure HasTarget (p : TcpBuffer) : Prop where
  length_pos : 0 < p.writeable
  in_range : 0 ≤ p.writeIndex ∧ p.writeIndex + p.writeable ≤ p.buffer.length

variable {env : InputEnv} {s : InputState} {b : TcpBuffer}

/-! ## One turn -/

/-- Only a full vector is grown, and it is doubled. -/
theorem prepare_room (hv : b.Valid) (hsize : 1 ≤ b.getSize) :
    0 < (extent b).prepare.room ∧ b.getSize ≤ (extent b).prepare.size ∧
      (extent b).prepare.size ≤ 2 * b.getSize := by
  have h1 := hv.read_nonneg
  have h2 := hv.write_le_size
  simp only [getSize] at hsize ⊢
  by_cases hfull : b.writeIndex = b.getSize
  · have hp : (extent b).prepare = { read := 0, write := b.writeIndex - b.readIndex, size := 2 * b.getSize } :=
      if_pos hfull
    simp only [getSize] at hfull hp
    rw [hp]
    simp only [Extent.room]
    omega
  · have hp : (extent b).prepare = extent b := if_neg hfull
    simp only [getSize] at hfull
    rw [hp]
    simp only [extent, Extent.room, getSize]
    omega

theorem hasTarget_of_prepared (hv : b.Valid) (hsize : 1 ≤ b.getSize) {p : TcpBuffer}
    (hp : preparedBuffer b = some p) : HasTarget p := by
  by_cases hs : (extent b).prepare.size < 2147483648
  · obtain ⟨p', e, hholds, hext⟩ := preparedBuffer_eq hv.holds hs
    cases hp.symm.trans e
    obtain ⟨hroom, -⟩ := prepare_room hv hsize
    have hfree : (extent b).prepare.room = p.writeable := by
      rw [← hext]
      rfl
    have h1 := hholds.valid.read_nonneg
    have h2 := hholds.valid.read_le_write
    refine ⟨hfree ▸ hroom, by omega, ?_⟩
    simp only [writeable, getSize]
    omega
  · rw [preparedBuffer_overflow hv (by omega)] at hp
    cases hp

theorem turn_keeps_received (hv : s.buf.Valid) {buf : TcpBuffer} (h : bufAfter (inputTurn env s) = some buf) :
    buf.Holds (s.buf.content ++ turnReceived env s) := by
  obtain ⟨hs, hbuf⟩ := bufAfter_holds hv h
  obtain ⟨p, e, -, hext⟩ := preparedBuffer_eq hv.holds hs
  have hroom : (extent s.buf).prepare.room = p.writeable := by
    rw [← hext]
    rfl
  simp only [turnReceived, e]
  rw [← hroom]
  exact hbuf

/-- Below 2^30 bytes no turn fails. -/
theorem turn_succeeds (hv : s.buf.Valid) (hsize : 1 ≤ s.buf.getSize) (hsmall : s.buf.getSize < 1073741824) :
    ∃ buf, bufAfter (inputTurn env s) = some buf := by
  obtain ⟨-, -, hle⟩ := prepare_room hv hsize
  obtain ⟨p, -, -, heq⟩ := inputTurn_eq env hv.holds (by omega) rfl
  refine ⟨p, ?_⟩
  rw [heq]
  split
  · rfl
  · split
    · rfl
    · split <;> rfl

theorem turn_getSize (hv : s.buf.Valid) (hsize : 1 ≤ s.buf.getSize) {s' : InputState}
    (h : inputTurn env s = .again s') : 1 ≤ s'.buf.getSize := by
  by_cases hs : (extent s.buf).prepare.size < 2147483648
  · obtain ⟨p, hp, hfilled, heq⟩ := inputTurn_eq env hv.holds hs rfl
    rw [h] at heq
    split at heq
    · cases heq
    · split at heq
      · cases heq
      · rename_i hne
        split at heq
        · rename_i hall
          cases heq
          obtain ⟨-, hle, -⟩ := prepare_room hv hsize
          have hkept : (extent p).size = (extent s.buf).prepare.size := by
            rw [hfilled hall hne, Extent.filled]
            split <;> rfl
          show 1 ≤ (extent p).size
          rw [hkept]
          exact Int.le_trans hsize hle
        · cases heq
  · rw [inputTurn_overflow hv (by omega)] at h
    cases h

/-! ## Runs -/

theorem afterTurns_target (hv : b.Valid) (hsize : 1 ≤ b.getSize) {k : Nat}
    (hs : afterTurns (inputTurn env) k { buf := b, calls := 0 } = some s) :
    s.buf.Valid ∧ 1 ≤ s.buf.getSize := by
  induction k generalizing s with
  | zero =>
      cases hs
      exact ⟨hv, hsize⟩
  | succ k ih =>
      obtain ⟨m, hm, ht⟩ := afterTurns_succ.mp hs
      obtain ⟨hm1, hm2⟩ := ih hm
      have hbuf := turn_keeps_received hm1 (show bufAfter (inputTurn env m) = some s.buf by rw [ht]; rfl)
      exact ⟨hbuf.valid, turn_getSize hm1 hm2 ht⟩

theorem runLoop_received (hv : s.buf.Valid) {n : Nat} {e : InputExit} {buf : TcpBuffer}
    (h : runLoop (inputTurn env) n s = some (some e)) (he : bufAfter (.exit (some e)) = some buf) :
    buf.Holds (s.buf.content ++ loopReceived env n s) := by
  induction n generalizing s with
  | zero => cases h
  | succ n ih =>
      simp only [runLoop] at h
      simp only [loopReceived]
      cases ht : inputTurn env s with
      | again s' =>
          rw [ht] at h
          have hbuf := turn_keeps_received hv (show bufAfter (inputTurn env s) = some s'.buf by rw [ht]; rfl)
          have hrest := ih hbuf.valid h
          rw [hbuf.content_eq, List.append_assoc] at hrest
          exact hrest
      | exit r =>
          rw [ht] at h
          cases h
          have hbuf := turn_keeps_received hv (show bufAfter (inputTurn env s) = some buf by rw [ht]; exact he)
          simpa using hbuf

/-- `Input` on a buffer in order that is not empty: every read is issued with a positive length and a
target inside the vector (with a size below 2^30 there is one), and when `Input` returns, the readable bytes
are those on entry and then those that its turns have received. -/
theorem input_keeps_received (hv : b.Valid) (hsize : 1 ≤ b.getSize) (overTime : Bool) (state : TcpConnectionState) :
    (∀ k s, afterTurns (inputTurn env) k { buf := b, calls := 0 } = some s →
      (s.buf.getSize < 1073741824 → preparedBuffer s.buf ≠ none) ∧
        ∀ p, preparedBuffer s.buf = some p → HasTarget p) ∧
    ∀ e buf, Input env overTime state b (some e) → bufAfter (.exit (some e)) = some buf →
      buf.content = b.content ∧ (overTime = true ∨ state = .closed ∨ state = .notConnected) ∨
        ∃ n, runLoop (inputTurn env) n { buf := b, calls := 0 } = some (some e) ∧
          buf.content = b.content ++ loopReceived env n { buf := b, calls := 0 } := by
  refine ⟨fun k s hs => ?_, fun e buf h he => ?_⟩
  · obtain ⟨hv', hsize'⟩ := afterTurns_target hv hsize hs
    refine ⟨fun hsmall hnone => ?_, fun p hp => hasTarget_of_prepared hv' hsize' hp⟩
    obtain ⟨-, -, hle⟩ := prepare_room hv' hsize'
    obtain ⟨p, hp, -⟩ := preparedBuffer_eq hv'.holds (by omega)
    rw [hp] at hnone
    cases hnone
  · simp only [Input] at h
    split at h
    · rename_i ho
      cases h
      cases he
      exact .inl ⟨rfl, .inl ho⟩
    · split at h
      · rename_i hstate
        cases h
        cases he
        exact .inl ⟨rfl, .inr hstate⟩
      · obtain ⟨n, hn⟩ := h
        exact .inr ⟨n, hn, (runLoop_received hv hn he).content_eq⟩

/-- Two bytes at a time, which fills the buffer twice, and then nothing. -/
def twoReads : InputEnv where
  isMainCoroutine := true
  first n count := if n < 2 ∧ 2 ≤ count then .data [1, 2] (List.cons_ne_nil _ _) else .eagain
  second _ _ := .eagain
  isOverTime _ := false
  first_le n count h := by
    split
    · rename_i hc
      exact hc.2
    · exact h
  second_le _ _ h := h

theorem input_keeps_received_two : ∃ n, [1, 2, 1, 2] = loopReceived twoReads n { buf := .new 2, calls := 0 } := by
  have hv : (new 2).Valid := (new_holds (by decide)).valid
  have hrun : runLoop (inputTurn twoReads) 3 { buf := .new 2, calls := 0 } =
      some (some (.closed { buffer := [1, 2, 1, 2, 0, 0, 0, 0], readIndex := 0, writeIndex := 4 })) := rfl
  have hinput : Input twoReads false .connected (.new 2) _ := ⟨3, hrun⟩
  rcases (input_keeps_received hv (by decide) false .connected).2 _ _ hinput rfl with ⟨-, hskip⟩ | ⟨n, -, hn⟩
  · exact absurd hskip (by decide)
  · exact ⟨n, hn⟩

end Tirpc
