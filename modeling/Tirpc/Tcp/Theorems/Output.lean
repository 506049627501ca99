import Tirpc.Tcp.Lemmas.Buffer
import Tirpc.Tcp.Output

/-!
# Bytes on their way out

A call of `send_hook` that fails returns -1, and `Output` then moves the read index back by one: a byte
that has been sent becomes readable again, or the index leaves the vector. Nothing else can go wrong.
-/

namespace Tirpc

open Lib TcpBuffer

def outputAfter : Turn OutputState (Option OutputState) → Option OutputState
  | .again s => some s
  | .exit r => r

/-- What the kernel has accepted and what is still readable are the bytes `q`. -/
structure Conserves (q : Bytes) (s : OutputState) : Prop where
  valid : s.buf.Valid
  bytes_eq : s.sent ++ s.buf.content = q

/-- No turn of the call loses or repeats a byte. -/
def KeepsBytes (env : OutputEnv) (overTime : Bool) (b : TcpBuffer) : Prop :=
  overTime = false → ∀ k s, afterTurns (outputTurn env) k { buf := b } = some s →
    ∃ s', outputAfter (outputTurn env s) = some s' ∧ Conserves b.content s'

/-! ## The calls that are made -/

/-- The bytes left for call `k`, when each call before it has taken as many as it returned. -/
def leftAt (env : OutputEnv) (b : TcpBuffer) : Nat → Int
  | 0 => b.readable
  | k + 1 => leftAt env b k - sendHook env k (leftAt env b k)

/-- Output makes call `k` of `send_hook`. -/
structure SendsAt (env : OutputEnv) (overTime : Bool) (b : TcpBuffer) (k : Nat) : Prop where
  entry : overTime = false
  inTime : ∀ i, i < k → env.isOverTime i = false
  connected : ∀ i, i ≤ k → env.state i = .connected
  left : ∀ i, i ≤ k → leftAt env b i ≠ 0

variable {env : OutputEnv} {overTime : Bool} {b : TcpBuffer} {s : OutputState} {q : Bytes}

theorem SendsAt.mono {k i : Nat} (h : SendsAt env overTime b k) (hi : i ≤ k) : SendsAt env overTime b i where
  entry := h.entry
  inTime j hj := h.inTime j (Nat.lt_of_lt_of_le hj hi)
  connected j hj := h.connected j (Nat.le_trans hj hi)
  left j hj := h.left j (Nat.le_trans hj hi)

theorem SendsAt.of_before {k : Nat} (hbefore : ∀ i, i < k → SendsAt env false b i ∧ env.isOverTime i = false)
    (hstate : env.state k = .connected) (hleft : leftAt env b k ≠ 0) : SendsAt env false b k where
  entry := rfl
  inTime i hi := (hbefore i hi).2
  connected i hi := by
    rcases Nat.lt_or_eq_of_le hi with hlt | rfl
    · exact (hbefore i hlt).1.connected i (Nat.le_refl i)
    · exact hstate
  left i hi := by
    rcases Nat.lt_or_eq_of_le hi with hlt | rfl
    · exact (hbefore i hlt).1.left i (Nat.le_refl i)
    · exact hleft

theorem sendHook_range (env : OutputEnv) (n : Nat) {count : Int} (h : 0 ≤ count) :
    -1 ≤ sendHook env n count ∧ sendHook env n count ≤ count := by
  simp only [sendHook]
  split
  · exact env.first_range n count h
  · split
    · exact env.first_range n count h
    · exact env.second_range n count h

/-! ## One turn -/

theorem outputTurn_idle (h : env.state s.calls ≠ .connected ∨ s.buf.readable = 0) :
    outputTurn env s = .exit (some s) := by
  simp only [outputTurn]
  rcases h with h | h
  · rw [if_pos h]
  · simp [h]

/-- The turn after a call that took some bytes, or none. -/
theorem outputTurn_sent (h : s.buf.Holds q) (hq : q ≠ []) (hstate : env.state s.calls = .connected)
    (hrt : 0 ≤ sendHook env s.calls q.length) :
    ∃ p, p.Holds (q.drop (sendHook env s.calls q.length).toNat) ∧
      outputTurn env s =
        let s' :=
          { buf := p, calls := s.calls + 1, sent := s.sent ++ q.take (sendHook env s.calls q.length).toNat }
        if p.readable ≤ 0 then .exit (some s')
        else if env.isOverTime s.calls then .exit (some s')
        else .again s' := by
  have hr := h.readable_eq
  have hpos := List.length_pos_of_ne_nil hq
  have hread := h.getBufferString_eq
  simp only [getBufferString] at hread
  obtain ⟨-, hle⟩ := sendHook_range env s.calls (Int.natCast_nonneg q.length)
  obtain ⟨p, e, hp, -⟩ := h.recycleRead hrt hle
  refine ⟨p, hp, ?_⟩
  rw [hr] at hread
  simp only [outputTurn, hstate, ne_eq, not_true_eq_false, ↓reduceIte, hr, hread, e]
  rw [if_neg (by omega)]

/-- The turn after a call that failed: the readable bytes have become one more, if they make sense at all. -/
theorem outputTurn_failed (h : s.buf.Holds q) (hq : q ≠ []) (hstate : env.state s.calls = .connected)
    (hrt : sendHook env s.calls q.length = -1) :
    ∃ p, (p.Valid → p.content.length = q.length + 1) ∧
      ∃ s', outputAfter (outputTurn env s) = some s' ∧ s'.buf = p ∧ s'.sent = s.sent := by
  have hr := h.readable_eq
  have hpos := List.length_pos_of_ne_nil hq
  have h1 := h.valid.read_nonneg
  have hread := h.getBufferString_eq
  simp only [getBufferString] at hread
  obtain ⟨p, e, hp⟩ := h.recycleRead_any (k := -1) (by omega) (by omega)
  refine ⟨p, fun hv => by have := hp hv; omega, { buf := p, calls := s.calls + 1, sent := s.sent }, ?_, rfl, rfl⟩
  rw [hr] at hread
  simp only [outputTurn, hstate, ne_eq, not_true_eq_false, ↓reduceIte, hr, hread, hrt, e]
  rw [if_neg (by omega)]
  split
  · simp [outputAfter]
  · split <;> simp [outputAfter]

/-! ## Runs without a failed call -/

/-- After `k` turns: all their calls were made, and what is left is known. -/
structure OutputAt (env : OutputEnv) (b : TcpBuffer) (k : Nat) (s : OutputState) : Prop where
  calls : s.calls = k
  bytes : Conserves b.content s
  left : s.buf.readable = leftAt env b k

theorem OutputAt.holds {k : Nat} (h : OutputAt env b k s) : s.buf.Holds s.buf.content := h.bytes.valid.holds

theorem OutputAt.length_eq {k : Nat} (h : OutputAt env b k s) : (s.buf.content.length : Int) = leftAt env b k := by
  rw [← h.left, h.holds.readable_eq]

theorem OutputAt.content_ne_nil {k : Nat} (h : OutputAt env b k s) (hleft : leftAt env b k ≠ 0) :
    s.buf.content ≠ [] := by
  intro hnil
  have hlen := h.length_eq
  rw [hnil] at hlen
  exact hleft hlen.symm

/-- A turn that makes its call, which does not fail. -/
theorem OutputAt.sends {k : Nat} (h : OutputAt env b k s) (hstate : env.state k = .connected)
    (hleft : leftAt env b k ≠ 0) (hcall : 0 ≤ sendHook env k (leftAt env b k)) :
    ∃ s', outputAfter (outputTurn env s) = some s' ∧ OutputAt env b (k + 1) s' ∧
      (outputTurn env s = .again s' ↔ leftAt env b (k + 1) ≠ 0 ∧ env.isOverTime k = false) := by
  have hlen := h.length_eq
  rw [← hlen, ← h.calls] at hcall
  obtain ⟨-, hle⟩ := sendHook_range env s.calls (Int.natCast_nonneg s.buf.content.length)
  obtain ⟨p, hp, hturn⟩ := outputTurn_sent h.holds (h.content_ne_nil hleft) (h.calls ▸ hstate) hcall
  have hpr := hp.readable_eq
  rw [h.calls, hlen] at hcall hle hp hturn hpr
  have hnext : leftAt env b (k + 1) = leftAt env b k - sendHook env k (leftAt env b k) := rfl
  have hpleft : p.readable = leftAt env b (k + 1) := by
    rw [hpr, List.length_drop]
    omega
  have hcons : Conserves b.content
      { buf := p, calls := k + 1
        sent := s.sent ++ s.buf.content.take (sendHook env k (leftAt env b k)).toNat } := by
    refine ⟨hp.valid, ?_⟩
    rw [hp.content_eq, List.append_assoc, List.take_append_drop]
    exact h.bytes.bytes_eq
  refine ⟨_, ?_, ⟨rfl, hcons, hpleft⟩, ?_⟩
  · rw [hturn]
    dsimp only
    split
    · rfl
    · split <;> rfl
  · rw [hturn]
    dsimp only
    split
    · constructor
      · intro he
        cases he
      · intro hk
        have hzero := hk.1
        omega
    · split
      · rename_i hover
        constructor
        · intro he
          cases he
        · intro hk
          exact absurd hover (by simp [hk.2])
      · rename_i hmore hover
        exact ⟨fun _ => ⟨by omega, by simpa using hover⟩, fun _ => rfl⟩

/-- A turn whose call, if it is made, does not fail. -/
theorem OutputAt.turn {k : Nat} (h : OutputAt env b k s)
    (hcall : env.state k = .connected → leftAt env b k ≠ 0 → 0 ≤ sendHook env k (leftAt env b k)) :
    ∃ s', outputAfter (outputTurn env s) = some s' ∧ Conserves b.content s' ∧
      (outputTurn env s = .again s' → OutputAt env b (k + 1) s' ∧
        env.state k = .connected ∧ leftAt env b k ≠ 0 ∧ env.isOverTime k = false) := by
  by_cases hidle : env.state s.calls ≠ .connected ∨ s.buf.readable = 0
  · have hturn := outputTurn_idle hidle
    refine ⟨s, by rw [hturn]; rfl, h.bytes, fun he => ?_⟩
    rw [hturn] at he
    cases he
  · simp only [not_or, not_not, h.calls, h.left] at hidle
    obtain ⟨hstate, hleft⟩ := hidle
    obtain ⟨s', hafter, hat, hagain⟩ := h.sends hstate hleft (hcall hstate hleft)
    exact ⟨s', hafter, hat.bytes, fun he => ⟨hat, hstate, hleft, (hagain.mp he).2⟩⟩

theorem outputAt_start (hv : b.Valid) : OutputAt env b 0 { buf := b } := ⟨rfl, ⟨hv, rfl⟩, rfl⟩

/-- If no call of a run has failed, every state of the run keeps the bytes, and its calls were made. -/
theorem afterTurns_output (hv : b.Valid)
    (hcalls : ∀ k, SendsAt env false b k → 0 ≤ sendHook env k (leftAt env b k)) {k : Nat}
    (hs : afterTurns (outputTurn env) k { buf := b } = some s) :
    OutputAt env b k s ∧ ∀ i, i < k → SendsAt env false b i ∧ env.isOverTime i = false := by
  induction k generalizing s with
  | zero =>
      cases hs
      exact ⟨outputAt_start hv, fun i hi => absurd hi (Nat.not_lt_zero i)⟩
  | succ k ih =>
      obtain ⟨m, hm, ht⟩ := afterTurns_succ.mp hs
      obtain ⟨hat, hbefore⟩ := ih hm
      obtain ⟨s', hafter, -, hagain⟩ := hat.turn fun h1 h2 => hcalls k (.of_before hbefore h1 h2)
      rw [ht] at hafter
      cases hafter
      obtain ⟨hnext, hstate, hleft, hover⟩ := hagain ht
      refine ⟨hnext, fun i hi => ?_⟩
      rcases Nat.lt_succ_iff_lt_or_eq.mp hi with hlt | rfl
      · exact hbefore i hlt
      · exact ⟨.of_before hbefore hstate hleft, hover⟩

/-- Call `k` is reached when the calls before it have not failed. -/
theorem SendsAt.reached (hv : b.Valid) {k : Nat} (h : SendsAt env overTime b k)
    (hcalls : ∀ i, i < k → 0 ≤ sendHook env i (leftAt env b i)) :
    ∃ s, afterTurns (outputTurn env) k { buf := b } = some s ∧ OutputAt env b k s := by
  induction k with
  | zero => exact ⟨_, rfl, outputAt_start hv⟩
  | succ k ih =>
      obtain ⟨s, hs, hat⟩ := ih (h.mono (Nat.le_succ k)) fun i hi => hcalls i (Nat.lt_succ_of_lt hi)
      obtain ⟨s', -, hnext, hagain⟩ := hat.sends (h.connected k (Nat.le_succ k)) (h.left k (Nat.le_succ k))
        (hcalls k (Nat.lt_succ_self k))
      have hturn := hagain.mpr ⟨h.left (k + 1) (Nat.le_refl _), h.inTime k (Nat.lt_succ_self k)⟩
      exact ⟨s', afterTurns_succ.mpr ⟨s, hs, hturn⟩, hnext⟩

/-- For every write buffer and all results of `send_hook`: no byte is lost or repeated exactly if no call
that `Output` makes fails. -/
theorem output_keeps_bytes_iff (hv : b.Valid) (overTime : Bool) :
    KeepsBytes env overTime b ↔ ∀ k, SendsAt env overTime b k → 0 ≤ sendHook env k (leftAt env b k) := by
  constructor
  · intro h k
    induction k using Nat.strongRecOn with
    | _ k ih =>
        intro hk
        obtain ⟨s, hs, hat⟩ := hk.reached hv fun i hi => ih i hi (hk.mono (Nat.le_of_lt hi))
        have hlen := hat.length_eq
        have hq := hat.content_ne_nil (hk.left k (Nat.le_refl k))
        refine Int.not_lt.mp fun hneg => ?_
        obtain ⟨hlow, -⟩ := sendHook_range env k (show 0 ≤ leftAt env b k by omega)
        obtain ⟨p, hp, s', hafter, rfl, hsent⟩ := outputTurn_failed hat.holds hq
          (by rw [hat.calls]; exact hk.connected k (Nat.le_refl k)) (by rw [hat.calls, hlen]; omega)
        obtain ⟨s'', hafter', hcons⟩ := h hk.entry k s hs
        cases hafter.symm.trans hafter'
        -- the same bytes cannot have become one more
        have h1 := congrArg List.length hcons.bytes_eq
        have h2 := congrArg List.length hat.bytes.bytes_eq
        rw [List.length_append, hp hcons.valid, hsent] at h1
        rw [List.length_append] at h2
        omega
  · intro hcalls hentry k s hs
    subst hentry
    obtain ⟨hat, hbefore⟩ := afterTurns_output hv hcalls hs
    obtain ⟨s', hafter, hcons, -⟩ := hat.turn fun h1 h2 => hcalls k (.of_before hbefore h1 h2)
    exact ⟨s', hafter, hcons⟩

/-! ## A byte that is sent twice -/

def twoBytesLeft : TcpBuffer := { buffer := [1, 2, 0], readIndex := 0, writeIndex := 2 }

/-- The kernel takes one byte, and then the peer is gone. -/
def peerGone : OutputEnv where
  isMainCoroutine := false
  first n count := if n = 0 ∧ 1 ≤ count then 1 else -1
  second _ _ := -1
  state _ := .connected
  isOverTime _ := false
  first_range n count h := by split <;> omega
  second_range n count h := by omega

theorem output_repeats_byte : twoBytesLeft.Valid ∧ ¬KeepsBytes peerGone false twoBytesLeft := by
  refine ⟨by decide, fun h => ?_⟩
  have hrun : afterTurns (outputTurn peerGone) 1 { buf := twoBytesLeft } =
      some { buf := { twoBytesLeft with readIndex := 1 }, calls := 1, sent := [1] } := rfl
  obtain ⟨s', hs', hcons⟩ := h rfl 1 _ hrun
  have hback : s' = { buf := twoBytesLeft, calls := 2, sent := [1] } :=
    Option.some.inj (hs'.symm.trans rfl)
  have heq := hcons.bytes_eq
  rw [hback] at heq
  exact absurd heq (by decide)

/-- The kernel takes whatever it is offered. -/
def allSent : OutputEnv where
  isMainCoroutine := false
  first _ count := count
  second _ count := count
  state _ := .connected
  isOverTime _ := false
  first_range n count h := by omega
  second_range n count h := by omega

theorem output_keeps_bytes_two : KeepsBytes allSent false twoBytesLeft := by
  refine (output_keeps_bytes_iff (by decide) false).mpr fun k hk => ?_
  have hleft : ∀ k, leftAt allSent twoBytesLeft (k + 1) = 0 := by
    intro k
    simp [leftAt, sendHook, allSent]
  cases k with
  | zero => decide
  | succ k => exact absurd (hleft k) (hk.left (k + 1) (Nat.le_refl _))

end Tirpc
