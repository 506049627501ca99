import Tirpc.Tcp.Connection
import Tirpc.Tcp.Input
import Tirpc.Tcp.Lemmas.Buffer

/-!
# The turns of the read loop

How many bytes `Input` asks for depends on the two indices and the size of the vector only
(`Extent`), and on the sizes of the reads before.
-/

namespace Tirpc

open Lib TcpBuffer

variable {env : InputEnv} {s : InputState} {b : TcpBuffer} {q : Bytes}

theorem recvHook_le (env : InputEnv) (n : Nat) {count : Int} (h : 0 ≤ count) :
    ((recvHook env n count).bytes.length : Int) ≤ count := by
  have h1 := env.first_le n count h
  have h2 := env.second_le n count h
  simp only [recvHook]
  split
  · exact h1
  · split
    · rename_i hd
      rwa [hd] at h1
    · exact h2

/-! ## The free space -/

structure Extent where
  read : Int
  write : Int
  size : Int
  deriving DecidableEq, Repr

def extent (b : TcpBuffer) : Extent := { read := b.readIndex, write := b.writeIndex, size := b.getSize }

def Extent.prepare (e : Extent) : Extent :=
  if e.write = e.size then { read := 0, write := e.write - e.read, size := 2 * e.size } else e

def Extent.filled (e : Extent) : Extent :=
  if e.read > e.size / 3 then { read := 0, write := e.size - e.read, size := e.size }
  else { e with write := e.size }

def Extent.room (e : Extent) : Int := e.size - e.write

/-- The extent after `k` reads that each take all of the free space. -/
def extentAt (b : TcpBuffer) : Nat → Extent
  | 0 => extent b
  | k + 1 => (extentAt b k).prepare.filled

def countAt (b : TcpBuffer) (k : Nat) : Int := (extentAt b k).prepare.room

def receivedBy (env : InputEnv) (b : TcpBuffer) : Nat → Bytes
  | 0 => []
  | k + 1 => receivedBy env b k ++ (recvHook env k (countAt b k)).bytes

/-- The buffer can be prepared, and read `k` takes all of the free space before the time is over. -/
structure FillsAt (env : InputEnv) (b : TcpBuffer) (k : Nat) : Prop where
  size_lt : (extentAt b k).prepare.size < 2147483648
  nonempty : (recvHook env k (countAt b k)).bytes ≠ []
  length_eq : ((recvHook env k (countAt b k)).bytes.length : Int) = countAt b k
  inTime : env.isOverTime k = false

/-! ## One turn -/

theorem extent_filled {p : TcpBuffer} (hsize : p.getSize = b.getSize)
    (hread : p.readIndex = if b.readIndex > b.getSize / 3 then 0 else b.readIndex)
    (hfull : p.writeIndex - p.readIndex = b.getSize - b.readIndex) : extent p = (extent b).filled := by
  by_cases hb : b.readIndex > b.getSize / 3
  · rw [if_pos hb] at hread
    have hf : (extent b).filled = { read := 0, write := b.getSize - b.readIndex, size := b.getSize } :=
      if_pos hb
    rw [hf, extent, hsize, hread, Extent.mk.injEq]
    exact ⟨rfl, by omega, rfl⟩
  · rw [if_neg hb] at hread
    have hf : (extent b).filled = { read := b.readIndex, write := b.getSize, size := b.getSize } :=
      if_neg hb
    rw [hf, extent, hsize, hread, Extent.mk.injEq]
    exact ⟨rfl, by omega, rfl⟩

theorem preparedBuffer_eq (h : b.Holds q) (hs : (extent b).prepare.size < 2147483648) :
    ∃ p, preparedBuffer b = some p ∧ p.Holds q ∧ extent p = (extent b).prepare := by
  rw [preparedBuffer]
  have hl := h.length_eq
  have h1 := h.valid.read_nonneg
  have h2 := h.valid.write_le_size
  by_cases hfull : b.writeIndex = b.getSize
  · have hp : (extent b).prepare = { read := 0, write := b.writeIndex - b.readIndex, size := 2 * b.getSize } :=
      if_pos hfull
    rw [hp] at hs ⊢
    simp only at hs
    rw [if_pos (by simp only [writeable]; omega), wrap32_eq ⟨by simp only [getSize]; omega, hs⟩]
    have hfit : (q.length : Int) ≤ 2 * b.getSize := by
      simp only [getSize] at hfull ⊢
      omega
    obtain ⟨p, e, hp, hsize, hr, hw⟩ := h.resizeBuffer hfit hs
    exact ⟨p, e, hp, by rw [extent, hsize, hr, hw, hl]⟩
  · have hp : (extent b).prepare = extent b := if_neg hfull
    rw [hp, if_neg (by simp only [writeable]; omega)]
    exact ⟨b, rfl, h, rfl⟩

theorem inputTurn_eq (env : InputEnv) (h : s.buf.Holds q) (hs : (extent s.buf).prepare.size < 2147483648) {r : Recv}
    (hr : recvHook env s.calls (extent s.buf).prepare.room = r) :
    ∃ p, p.Holds (q ++ r.bytes) ∧
      ((r.bytes.length : Int) = (extent s.buf).prepare.room → r.bytes ≠ [] →
        extent p = (extent s.buf).prepare.filled) ∧
      inputTurn env s =
        if env.isOverTime s.calls then .exit (some (.overTime p))
        else if r.bytes = [] then .exit (some (.closed p))
        else if (r.bytes.length : Int) = (extent s.buf).prepare.room then
          .again { buf := p, calls := s.calls + 1 }
        else .exit (some (.readAll p)) := by
  obtain ⟨b, hprep, hb, hext⟩ := preparedBuffer_eq h hs
  have hroom : (extent b).room = b.writeable := rfl
  have hfree : 0 ≤ b.writeable := by
    have hw := hb.valid.write_le_size
    simp only [writeable, getSize]
    omega
  rw [← hext, hroom] at hr ⊢
  have hle := hr ▸ recvHook_le env s.calls hfree
  simp only [inputTurn, hprep, hr]
  cases r with
  | data bytes hne =>
      obtain ⟨b₁, p, h1, h2, hp, hsize, hread⟩ := hb.fill_recycleWrite (s := bytes) hle
      refine ⟨p, hp, ?_, ?_⟩
      · intro hall _
        have hlp := hp.length_eq
        have hlb := hb.length_eq
        simp only [List.length_append, Int.natCast_add] at hlp
        simp only [writeable, Recv.bytes] at hall
        exact extent_filled hsize hread (by omega)
      · have hsome : (Recv.data bytes hne).bytes ≠ [] := hne
        rw [if_neg hsome]
        dsimp only
        rw [h1, Option.bind_some, h2]
        dsimp only
        by_cases hall : ((Recv.data bytes hne).bytes.length : Int) = b.writeable
        · have hall' : (bytes.length : Int) = b.writeable := hall
          rw [if_pos hall, if_pos hall']
        · have hall' : (bytes.length : Int) ≠ b.writeable := hall
          have hlt : (bytes.length : Int) < b.writeable := Int.lt_iff_le_and_ne.mpr ⟨hle, hall⟩
          rw [if_neg hall, if_neg hall', if_pos hlt]
  | eof => exact ⟨b, by simpa [Recv.bytes] using hb, by simp [Recv.bytes], by simp [Recv.bytes]⟩
  | eagain => exact ⟨b, by simpa [Recv.bytes] using hb, by simp [Recv.bytes], by simp [Recv.bytes]⟩
  | failed => exact ⟨b, by simpa [Recv.bytes] using hb, by simp [Recv.bytes], by simp [Recv.bytes]⟩

theorem preparedBuffer_overflow (h : b.Valid) (hs : 2147483648 ≤ (extent b).prepare.size) :
    preparedBuffer b = none := by
  have hlt : b.getSize < 2147483648 := Int.ofNat_lt.mpr h.size_lt
  by_cases hfull : b.writeIndex = b.getSize
  · have hsize : (extent b).prepare.size = 2 * b.getSize := congrArg Extent.size (if_pos hfull)
    have hwrap : wrap32 (2 * b.getSize) < 0 := by
      simp only [wrap32]
      omega
    simp only [preparedBuffer, if_pos (show b.writeable = 0 by simp only [writeable]; omega), resizeBuffer,
      if_pos hwrap]
  · have hsize : (extent b).prepare.size = b.getSize := congrArg Extent.size (if_neg hfull)
    omega

theorem inputTurn_overflow (h : s.buf.Valid) (hs : 2147483648 ≤ (extent s.buf).prepare.size) :
    inputTurn env s = .exit none := by
  rw [inputTurn, preparedBuffer_overflow h hs]

/-- What a turn reads joins the buffer, however the turn ends. -/
theorem bufAfter_holds (h : s.buf.Valid) {buf : TcpBuffer} (hb : bufAfter (inputTurn env s) = some buf) :
    (extent s.buf).prepare.size < 2147483648 ∧
      buf.Holds (s.buf.content ++ (recvHook env s.calls (extent s.buf).prepare.room).bytes) := by
  by_cases hs : (extent s.buf).prepare.size < 2147483648
  · obtain ⟨p, hp, -, heq⟩ := inputTurn_eq env h.holds hs rfl
    have hbuf : buf = p := by
      rw [heq] at hb
      split at hb
      · cases hb; rfl
      · split at hb
        · cases hb; rfl
        · split at hb <;> cases hb <;> rfl
    exact ⟨hs, hbuf ▸ hp⟩
  · rw [inputTurn_overflow h (Int.not_lt.mp hs)] at hb
    cases hb

/-! ## A run of turns -/

/-- The loop goes on for `k` turns only if each of its reads takes all of the free space; the buffer then
holds all that the reads have brought. -/
theorem afterTurns_input (h : b.Valid) {k : Nat} {s : InputState}
    (hs : afterTurns (inputTurn env) k { buf := b, calls := 0 } = some s) :
    (∀ i, i < k → FillsAt env b i) ∧ s.calls = k ∧ s.buf.Holds (b.content ++ receivedBy env b k) ∧
      extent s.buf = extentAt b k := by
  induction k generalizing s with
  | zero =>
      cases hs
      exact ⟨fun i hi => absurd hi (Nat.not_lt_zero i), rfl, by simpa [receivedBy] using h.holds, rfl⟩
  | succ k ih =>
      obtain ⟨m, hm, ht⟩ := afterTurns_succ.mp hs
      obtain ⟨hbefore, hcalls, hbuf, hext⟩ := ih hm
      by_cases hsize : (extent m.buf).prepare.size < 2147483648
      · obtain ⟨p, hp, hfilled, heq⟩ := inputTurn_eq env hbuf hsize rfl
        rw [hext, hcalls] at hp hfilled heq
        rw [hext] at hsize
        rw [ht] at heq
        split at heq
        · cases heq
        · rename_i hover
          split at heq
          · cases heq
          · rename_i hne
            split at heq
            · rename_i hall
              cases heq
              refine ⟨fun i hi => ?_, rfl, ?_, hfilled hall hne⟩
              · rcases Nat.lt_succ_iff_lt_or_eq.mp hi with hlt | rfl
                · exact hbefore i hlt
                · exact ⟨hsize, hne, hall, by simpa using hover⟩
              · rw [receivedBy, ← List.append_assoc]
                exact hp
            · cases heq
      · rw [inputTurn_overflow hbuf.valid (Int.not_lt.mp hsize)] at ht
        cases ht

theorem afterTurns_fills (h : b.Valid) {k : Nat} (hall : ∀ i, i < k → FillsAt env b i) :
    ∃ s, afterTurns (inputTurn env) k { buf := b, calls := 0 } = some s := by
  induction k with
  | zero => exact ⟨_, rfl⟩
  | succ k ih =>
      obtain ⟨s, hs⟩ := ih fun i hi => hall i (Nat.lt_succ_of_lt hi)
      obtain ⟨-, hcalls, hbuf, hext⟩ := afterTurns_input h hs
      obtain ⟨hsize, hne, hlen, htime⟩ := hall k (Nat.lt_succ_self k)
      obtain ⟨p, -, -, heq⟩ := inputTurn_eq env hbuf (hext ▸ hsize) rfl
      rw [hext, hcalls, ← countAt, if_neg (by simp [htime]), if_neg hne, if_pos hlen] at heq
      exact ⟨_, afterTurns_succ.mpr ⟨s, hs, heq⟩⟩

end Tirpc
