import Tirpc.Rpc.Lemmas.Stream
import Tirpc.Tcp.Lemmas.Input

/-!
# Waiting for the socket with a request in the buffer

A read that takes all of the free space is followed by another one. Nothing looks at the bytes that
have come: when they end in a complete frame and the kernel has no more, the coroutine is suspended
with the request in its buffer.
-/

namespace Tirpc

open Lib TcpBuffer

def HasFrame (q : Bytes) : Prop := frameAt q q.length 0 ≠ none

instance (q : Bytes) : Decidable (HasFrame q) := inferInstanceAs (Decidable (_ ≠ _))

/-- The kernel has no byte queued when `recv` is called for the time `n`. -/
def Drained (env : InputEnv) (n : Nat) : Prop := ∀ count, 0 < count → env.first n count = .eagain

/-- Whenever a frame is readable after a `recv` and nothing else has been received, `Input` returns. -/
def ReturnsOnFrame (env : InputEnv) (b : TcpBuffer) : Prop :=
  ∀ k s, afterTurns (inputTurn env) k { buf := b, calls := 0 } = some s →
    ∀ buf, bufAfter (inputTurn env s) = some buf → HasFrame buf.content → Drained env (k + 1) →
      ReturnsToCaller (inputTurn env s)

/-- Read `k` is made, and it takes all of the free space or gets nothing, before the time is over. -/
structure StaysAt (env : InputEnv) (b : TcpBuffer) (k : Nat) : Prop where
  before : ∀ i, i < k → FillsAt env b i
  size_lt : (extentAt b k).prepare.size < 2147483648
  inTime : env.isOverTime k = false
  all_or_nothing : (recvHook env k (countAt b k)).bytes = [] ∨
    ((recvHook env k (countAt b k)).bytes.length : Int) = countAt b k

variable {env : InputEnv} {b : TcpBuffer}

theorem turn_after (hv : b.Valid) {k : Nat} {s : InputState}
    (hs : afterTurns (inputTurn env) k { buf := b, calls := 0 } = some s)
    (hsize : (extentAt b k).prepare.size < 2147483648) :
    ∃ p, p.content = b.content ++ receivedBy env b (k + 1) ∧
      inputTurn env s =
        if env.isOverTime k then .exit (some (.overTime p))
        else if (recvHook env k (countAt b k)).bytes = [] then .exit (some (.closed p))
        else if ((recvHook env k (countAt b k)).bytes.length : Int) = countAt b k then
          .again { buf := p, calls := k + 1 }
        else .exit (some (.readAll p)) := by
  obtain ⟨-, hcalls, hbuf, hext⟩ := afterTurns_input hv hs
  obtain ⟨p, hp, -, heq⟩ := inputTurn_eq env hbuf (hext ▸ hsize) rfl
  rw [hcalls, hext] at hp heq
  refine ⟨p, ?_, heq⟩
  rw [hp.content_eq, receivedBy, List.append_assoc]
  rfl

theorem StaysAt.turn (hv : b.Valid) {k : Nat} (h : StaysAt env b k) :
    ∃ s p, afterTurns (inputTurn env) k { buf := b, calls := 0 } = some s ∧
      bufAfter (inputTurn env s) = some p ∧ p.content = b.content ++ receivedBy env b (k + 1) ∧
      ¬ReturnsToCaller (inputTurn env s) := by
  obtain ⟨s, hs⟩ := afterTurns_fills hv h.before
  obtain ⟨p, hp, heq⟩ := turn_after hv hs h.size_lt
  rw [if_neg (by simp [h.inTime])] at heq
  rcases h.all_or_nothing with hnil | hall
  · rw [if_pos hnil] at heq
    exact ⟨s, p, hs, by rw [heq]; rfl, hp, by rw [heq]; exact id⟩
  · by_cases hnil : (recvHook env k (countAt b k)).bytes = []
    · rw [if_pos hnil] at heq
      exact ⟨s, p, hs, by rw [heq]; rfl, hp, by rw [heq]; exact id⟩
    · rw [if_neg hnil, if_pos hall] at heq
      exact ⟨s, p, hs, by rw [heq]; rfl, hp, by rw [heq]; exact id⟩

theorem staysAt_of_turn (hv : b.Valid) {k : Nat} {s : InputState} {buf : TcpBuffer}
    (hs : afterTurns (inputTurn env) k { buf := b, calls := 0 } = some s)
    (hbuf : bufAfter (inputTurn env s) = some buf) (hret : ¬ReturnsToCaller (inputTurn env s)) :
    StaysAt env b k ∧ buf.content = b.content ++ receivedBy env b (k + 1) := by
  obtain ⟨hbefore, -, hb, hext⟩ := afterTurns_input hv hs
  by_cases hsize : (extentAt b k).prepare.size < 2147483648
  · obtain ⟨p, hp, heq⟩ := turn_after hv hs hsize
    by_cases htime : env.isOverTime k = true
    · rw [heq, if_pos htime] at hret
      exact absurd trivial hret
    · rw [if_neg htime] at heq
      by_cases hnil : (recvHook env k (countAt b k)).bytes = []
      · rw [heq, if_pos hnil] at hbuf
        cases hbuf
        exact ⟨⟨hbefore, hsize, by simpa using htime, .inl hnil⟩, hp⟩
      · rw [if_neg hnil] at heq
        by_cases hall : ((recvHook env k (countAt b k)).bytes.length : Int) = countAt b k
        · rw [heq, if_pos hall] at hbuf
          cases hbuf
          exact ⟨⟨hbefore, hsize, by simpa using htime, .inr hall⟩, hp⟩
        · rw [heq, if_neg hall] at hret
          exact absurd trivial hret
  · rw [inputTurn_overflow hb.valid (by rw [hext]; omega)] at hbuf
    cases hbuf

/-- `Input` never waits with a request in the buffer exactly if no read that takes all of the free
space, or that gets nothing, leaves a complete frame readable when the kernel has no more. -/
theorem input_returns_iff (hv : b.Valid) :
    ReturnsOnFrame env b ↔
      ∀ k, StaysAt env b k → HasFrame (b.content ++ receivedBy env b (k + 1)) → ¬Drained env (k + 1) := by
  constructor
  · intro h k hstay hframe hdrained
    obtain ⟨s, p, hs, hp, hcontent, hret⟩ := hstay.turn hv
    exact hret (h k s hs p hp (by rw [hcontent]; exact hframe) hdrained)
  · intro h k s hs buf hbuf hframe hdrained
    refine Classical.byContradiction fun hret => ?_
    obtain ⟨hstay, hcontent⟩ := staysAt_of_turn hv hs hbuf hret
    exact h k hstay (hcontent ▸ hframe) hdrained

/-! ## A request that fills the buffer -/

/-- A request of 128 bytes, the size of a fresh read buffer. -/
def fullRequest : TinyPbStruct := { ping with pbData := List.replicate 100 0 }

theorem fullRequest_frame : HasFrame (package fullRequest) := by
  rw [HasFrame, show (package fullRequest).length = 128 by decide +kernel]
  decide +kernel

/-- The kernel has `request` queued at the first call, and nothing else after it. -/
def oneArrival (request : Bytes) (hne : request ≠ []) : InputEnv where
  isMainCoroutine := false
  first n count := if n = 0 ∧ (request.length : Int) ≤ count then .data request hne else .eagain
  second _ _ := .eagain
  isOverTime _ := false
  first_le n count h := by
    split
    · rename_i hc
      exact hc.2
    · exact h
  second_le _ _ h := h

theorem oneArrival_drained {r : Bytes} {hne : r ≠ []} (n : Nat) : Drained (oneArrival r hne) (n + 1) := by
  intro count _
  simp only [oneArrival, Nat.succ_ne_zero, false_and, ↓reduceIte]

theorem oneArrival_first {r : Bytes} {hne : r ≠ []} {count : Int} (h : (r.length : Int) ≤ count) :
    recvHook (oneArrival r hne) 0 count = .data r hne := by
  have hf : (oneArrival r hne).first 0 count = .data r hne := if_pos ⟨rfl, h⟩
  simp only [recvHook, hf]
  rfl

/-- A request as long as the fresh buffer: `Input` asks for more, and the coroutine is suspended. -/
theorem waits_of_full {r : Bytes} (hne : r ≠ []) (hr : r.length < 2147483648) (hframe : HasFrame r) :
    ¬ReturnsOnFrame (oneArrival r hne) (.new r.length) := by
  intro h
  have hb : (new r.length).Holds [] := new_holds hr
  have hpos : 0 < r.length := List.length_pos_iff.mpr hne
  have hext : (extent (new r.length)).prepare = { read := 0, write := 0, size := r.length } := by
    have hsize : (new r.length).getSize = r.length := by simp [getSize, new]
    simp only [extent, Extent.prepare, hsize]
    exact if_neg (by simp only [new]; omega)
  have hroom : (extent (new r.length)).prepare.room = r.length := by simp [hext, Extent.room]
  have hrecv : recvHook (oneArrival r hne) 0 (extent (new r.length)).prepare.room = .data r hne :=
    oneArrival_first (Int.le_of_eq hroom.symm)
  obtain ⟨p, hp, -, heq⟩ := inputTurn_eq _ (s := { buf := new r.length, calls := 0 }) hb
    (by simp only [hext]; omega) hrecv
  have hsome : (Recv.data r hne).bytes ≠ [] := hne
  have hall : ((Recv.data r hne).bytes.length : Int) = (extent (new r.length)).prepare.room := hroom.symm
  have hover : ¬(oneArrival r hne).isOverTime 0 = true := by simp [oneArrival]
  rw [if_neg hover, if_neg hsome, if_pos hall] at heq
  have hframe' : HasFrame p.content := by
    rw [hp.content_eq]
    exact hframe
  have hret := h 0 _ rfl p (by rw [heq]; rfl) hframe' (oneArrival_drained 0)
  rw [heq] at hret
  exact hret

theorem input_waits_with_request : ¬ReturnsOnFrame
    (oneArrival (package fullRequest) (by decide)) (.new 128) := by
  have hlen : (package fullRequest).length = 128 := by decide +kernel
  have h := waits_of_full (r := package fullRequest) (by decide) (by rw [hlen]; decide)
    fullRequest_frame
  rwa [hlen] at h

theorem input_returns_ping : ReturnsOnFrame (oneArrival (package ping) (by decide)) (.new 128) := by
  refine (input_returns_iff (new_holds (by decide)).valid).mpr fun k hstay _ _ => ?_
  have hlen : (package ping).length = 28 := by decide
  have hcount : countAt (new 128) 0 = 128 := by decide +kernel
  have hrecv : recvHook (oneArrival (package ping) (by decide)) 0 (countAt (new 128) 0) =
      .data (package ping) (by decide) := oneArrival_first (by rw [hcount, hlen]; decide)
  cases k with
  | zero =>
      rcases hstay.all_or_nothing with hnil | hall
      · rw [hrecv] at hnil
        exact absurd (congrArg List.length hnil) (by rw [Recv.bytes, hlen]; decide)
      · rw [hrecv, hcount, Recv.bytes, hlen] at hall
        cases hall
  | succ k =>
      have hall := (hstay.before 0 (Nat.succ_pos k)).length_eq
      rw [hrecv, hcount, Recv.bytes, hlen] at hall
      cases hall

end Tirpc
