import Tirpc.Lib.Transition
import Tirpc.Tcp.Lemmas.Buffer

/-!
# The buffer refines a queue of bytes

A run of calls on a buffer, and the same run on the queue of its readable bytes.
-/

namespace Tirpc

open Lib TcpBuffer

/-- The calls. `store` is a direct write at the write index with the `RecycleWrite` that follows it. -/
inductive BufferCall where
  | writeToBuffer (buf : Bytes)
  | readFromBuffer (re : Bytes) (size : Int)
  | recycleRead (index : Int)
  | store (bytes : Bytes)
  | resizeBuffer (size : Int)
  | clearBuffer
  deriving DecidableEq, Repr

/-- A buffer with the results of the calls of `ReadFromBuffer` so far. -/
structure BufferRun where
  buf : TcpBuffer
  reads : List Bytes := []
  deriving DecidableEq, Repr

/-- One call. It has no result where it accesses memory outside of the vector. -/
def bufferNext (s : BufferRun) : BufferCall → Option BufferRun
  | .writeToBuffer buf => (s.buf.writeToBuffer buf).map fun b => { s with buf := b }
  | .readFromBuffer re size =>
      (s.buf.readFromBuffer re size).map fun (re, b) => { buf := b, reads := s.reads ++ [re] }
  | .recycleRead index => (s.buf.recycleRead index).map fun b => { s with buf := b }
  | .store bytes =>
      ((s.buf.fill bytes).bind fun b => b.recycleWrite bytes.length).map fun b => { s with buf := b }
  | .resizeBuffer size => (s.buf.resizeBuffer size).map fun b => { s with buf := b }
  | .clearBuffer => some { s with buf := s.buf.clearBuffer }

/-- The calls that the buffer is made for, with sizes for which the arithmetic stays in range. -/
def CallFits (s : BufferRun) : BufferCall → Prop
  | .writeToBuffer buf => 3 * (s.buf.writeIndex + buf.length) < 4294967296
  | .readFromBuffer _ size => 0 ≤ size
  | .recycleRead index => 0 ≤ index ∧ index ≤ s.buf.readable
  | .store bytes => bytes.length ≤ s.buf.writeable
  | .resizeBuffer size => s.buf.readable ≤ size ∧ size < 2147483648
  | .clearBuffer => True

instance (s : BufferRun) : (c : BufferCall) → Decidable (CallFits s c)
  | .writeToBuffer _ => inferInstanceAs (Decidable (_ < _))
  | .readFromBuffer _ _ => inferInstanceAs (Decidable (_ ≤ _))
  | .recycleRead _ => inferInstanceAs (Decidable (_ ∧ _))
  | .store _ => inferInstanceAs (Decidable (_ ≤ _))
  | .resizeBuffer _ => inferInstanceAs (Decidable (_ ∧ _))
  | .clearBuffer => inferInstanceAs (Decidable True)

/-! ## The queue -/

structure QueueRun where
  bytes : Bytes := []
  reads : List Bytes := []
  deriving DecidableEq, Repr

/-- What a call means for the queue. -/
def queueNext (t : QueueRun) : BufferCall → Option QueueRun
  | .writeToBuffer buf => some { t with bytes := t.bytes ++ buf }
  | .readFromBuffer re size =>
      if t.bytes = [] then some { t with reads := t.reads ++ [re] }
      else some { bytes := t.bytes.drop size.toNat, reads := t.reads ++ [t.bytes.take size.toNat] }
  | .recycleRead index => some { t with bytes := t.bytes.drop index.toNat }
  | .store bytes => some { t with bytes := t.bytes ++ bytes }
  | .resizeBuffer _ => some t
  | .clearBuffer => some { t with bytes := [] }

structure Represents (s : BufferRun) (t : QueueRun) : Prop where
  buf : s.buf.Holds t.bytes
  reads : s.reads = t.reads

variable {b : TcpBuffer} {q : Bytes}

theorem TcpBuffer.Holds.readFromBuffer (h : b.Holds q) (re : Bytes) {size : Int} (hs : 0 ≤ size) :
    ∃ b', b.readFromBuffer re size = some (if q = [] then re else q.take size.toNat, b') ∧
      b'.Holds (q.drop size.toNat) := by
  have hr := h.readable_eq
  simp only [TcpBuffer.readFromBuffer]
  by_cases hq : q = []
  · subst hq
    rw [if_pos (by simpa using hr), if_pos rfl]
    exact ⟨b, rfl, by simpa using h⟩
  · have hlen := List.length_pos_of_ne_nil hq
    obtain ⟨n, hn, htake, hdrop⟩ : ∃ n : Nat, (if b.readable > size then size else b.readable) = n ∧
        q.take n = q.take size.toNat ∧ q.drop n = q.drop size.toNat := by
      by_cases hlt : b.readable > size
      · exact ⟨size.toNat, by rw [if_pos hlt]; omega, rfl, rfl⟩
      · have hle : q.length ≤ size.toNat := by omega
        exact ⟨q.length, by rw [if_neg hlt]; exact hr, by rw [List.take_length, List.take_of_length_le hle],
          by rw [List.drop_length, List.drop_of_length_le hle]⟩
    have hle : (n : Int) ≤ q.length := by
      rw [← hn]
      split <;> omega
    have hread : readRange b.buffer b.readIndex n = some (q.take size.toNat) := by
      rw [← htake, ← Int.add_zero b.readIndex, h.readRange_eq (Int.le_refl _) (by omega) (by omega)]
      exact readRange_append (p := []) (List.take_append_drop n q).symm rfl
        (by rw [List.length_take]; omega)
    rw [if_neg (by omega), if_neg hq]
    simp only [hn, hread, Option.bind_some]
    have hmoved : ({ b with readIndex := b.readIndex + n } : TcpBuffer).Holds (q.drop n) := by
      have h1 := h.valid.read_nonneg
      have hl := h.length_eq
      refine ⟨⟨by simp only; omega, by simp only; omega, h.valid.write_le_size, h.valid.size_lt⟩, ?_⟩
      simp only [content]
      rw [window_drop h1 (by omega), ← h.content_eq]
      rfl
    obtain ⟨b', e, hb', -⟩ := hmoved.adjustBuffer
    exact ⟨b', by rw [e, Option.map_some], hdrop ▸ hb'⟩

theorem clearBuffer_holds (b : TcpBuffer) : b.clearBuffer.Holds [] :=
  ⟨⟨Int.le_refl _, Int.le_refl _, Int.le_refl _, by simp [clearBuffer]⟩, rfl⟩

/-- Each call on a buffer that represents a queue is the call on the queue. -/
theorem buffer_refines : Refines bufferNext queueNext Represents CallFits := by
  intro s t c h hfits
  obtain ⟨hb, hreads⟩ := h
  have hlen := hb.length_eq
  have hread := hb.valid.read_nonneg
  cases c with
  | writeToBuffer buf =>
      simp only [CallFits] at hfits
      obtain ⟨b', e, hb'⟩ := hb.writeToBuffer (s := buf) (by omega) (.inr hfits)
      exact ⟨{ s with buf := b' }, _, by simp only [bufferNext, e, Option.map_some], rfl, hb', hreads⟩
  | readFromBuffer re size =>
      obtain ⟨b', e, hb'⟩ := hb.readFromBuffer re hfits
      refine ⟨{ buf := b', reads := s.reads ++ [if t.bytes = [] then re else t.bytes.take size.toNat] }, ?_⟩
      simp only [bufferNext, e, Option.map_some, queueNext]
      by_cases hq : t.bytes = []
      · rw [if_pos hq, if_pos hq]
        rw [hq, List.drop_nil, ← hq] at hb'
        exact ⟨_, trivial, rfl, hb', by simp only [hreads]⟩
      · rw [if_neg hq, if_neg hq]
        exact ⟨_, trivial, rfl, hb', by simp only [hreads]⟩
  | recycleRead index =>
      obtain ⟨h0, hle⟩ := hfits
      rw [hb.readable_eq] at hle
      obtain ⟨b', e, hb', -⟩ := hb.recycleRead h0 hle
      exact ⟨{ s with buf := b' }, _, by simp only [bufferNext, e, Option.map_some], rfl, hb', hreads⟩
  | store bytes =>
      obtain ⟨b₁, b₂, e₁, e₂, hb₂, -⟩ := hb.fill_recycleWrite hfits
      exact ⟨{ s with buf := b₂ }, _, by simp only [bufferNext, e₁, Option.bind_some, e₂, Option.map_some],
        rfl, hb₂, hreads⟩
  | resizeBuffer size =>
      obtain ⟨hle, hlt⟩ := hfits
      rw [hb.readable_eq] at hle
      obtain ⟨b', e, hb', -⟩ := hb.resizeBuffer hle hlt
      exact ⟨{ s with buf := b' }, _, by simp only [bufferNext, e, Option.map_some], rfl, hb', hreads⟩
  | clearBuffer => exact ⟨{ s with buf := s.buf.clearBuffer }, _, rfl, rfl, clearBuffer_holds s.buf, hreads⟩

/-- After any run of fitting calls on a fresh buffer, the indices are in order, and the readable bytes and
the results of the reads are those of the queue. No call accesses memory outside of the vector. -/
theorem buffer_is_queue {size : Nat} (hsize : size < 2147483648) {calls : List BufferCall}
    (h : RunOk bufferNext CallFits { buf := .new size } calls) :
    ∃ s, runLabels bufferNext { buf := .new size } calls = some s ∧ s.buf.Valid ∧
      runLabels queueNext {} calls = some { bytes := s.buf.content, reads := s.reads } := by
  have hstart : Represents { buf := .new size } {} := ⟨new_holds hsize, rfl⟩
  obtain ⟨s, t, hs, ht, hb, hreads⟩ := buffer_refines.run hstart h
  refine ⟨s, hs, hb.valid, ?_⟩
  rw [ht, hb.content_eq, hreads]

/-- Growth, reads beyond the end, compaction and clearing in one run. -/
def someCalls : List BufferCall :=
  [.writeToBuffer [1, 2, 3], .readFromBuffer [] 2, .store [4], .recycleRead 1, .resizeBuffer 1,
    .readFromBuffer [] 9, .clearBuffer, .readFromBuffer [7] 1]

theorem buffer_is_queue_some : ∃ s, runLabels bufferNext { buf := .new 2 } someCalls = some s ∧ s.buf.Valid ∧
    runLabels queueNext {} someCalls = some { bytes := s.buf.content, reads := s.reads } := by
  exact buffer_is_queue (by decide) (by decide)

end Tirpc
