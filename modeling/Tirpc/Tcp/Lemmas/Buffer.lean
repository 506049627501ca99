import Tirpc.Tcp.Connection

/-!
# The buffer as a queue of bytes

Each operation of the buffer, on a buffer in order, is the operation of a queue on its readable bytes.
-/

namespace Tirpc

open Lib

namespace TcpBuffer

variable {b : TcpBuffer} {q : Bytes}

theorem Valid.content_length (h : b.Valid) : (b.content.length : Int) = b.readable :=
  window_length h.read_nonneg h.read_le_write h.write_le_size

theorem Valid.content_nil (h : b.Valid) (hr : ¬0 < b.readable) : b.content = [] := by
  have hlen := h.content_length
  exact List.eq_nil_of_length_eq_zero (by omega)

theorem Valid.holds (h : b.Valid) : b.Holds b.content := ⟨h, rfl⟩

theorem Holds.length_eq (h : b.Holds q) : (q.length : Int) = b.writeIndex - b.readIndex := by
  rw [← h.content_eq, h.valid.content_length]; rfl

theorem Holds.readable_eq (h : b.Holds q) : b.readable = q.length := h.length_eq.symm

theorem Valid.content_lt (h : b.Valid) : b.content.length < 2147483648 := by
  have hl := h.holds.length_eq
  have hr := h.read_nonneg
  have hw := h.write_le_size
  have hs := h.size_lt
  omega

theorem new_holds {size : Nat} (h : size < 2147483648) : (new size).Holds [] := by
  refine ⟨⟨by simp [new], by simp [new], by simp [new], by simpa [new] using h⟩, ?_⟩
  simp [content, window, new]

theorem Holds.readRange_eq (h : b.Holds q) {k n : Int} (hk : 0 ≤ k) (hn : 0 ≤ n)
    (hkn : k + n ≤ q.length) : readRange b.buffer (b.readIndex + k) n = readRange q k n := by
  have hl := h.length_eq
  rw [← h.content_eq]
  exact readRange_window h.valid.read_nonneg h.valid.write_le_size hk hn (by omega)

theorem Holds.getBufferString_eq (h : b.Holds q) : b.getBufferString = some q := by
  have hl := h.length_eq
  have hr := h.readRange_eq (k := 0) (n := q.length) (by omega) (by omega) (by omega)
  simp only [getBufferString]
  rw [h.readable_eq, ← Int.add_zero b.readIndex, hr]
  exact readRange_append (p := []) (q := []) (by simp) (by simp) rfl

theorem holds_front {q z : Bytes} (h : (q ++ z).length < 2147483648) :
    ({ buffer := q ++ z, readIndex := 0, writeIndex := q.length } : TcpBuffer).Holds q := by
  refine ⟨⟨by simp, by simp, by simp only [List.length_append]; omega, h⟩, ?_⟩
  simp [content, window]

theorem Holds.resizeBuffer (h : b.Holds q) {size : Int} (hs : (q.length : Int) ≤ size)
    (hi : size < 2147483648) :
    ∃ b', b.resizeBuffer size = some b' ∧ b'.Holds q ∧ b'.getSize = size ∧ b'.readIndex = 0 ∧
      b'.writeIndex = q.length := by
  have hg := h.getBufferString_eq
  simp only [getBufferString] at hg
  simp only [TcpBuffer.resizeBuffer]
  rw [if_neg (by omega)]
  have hc : min size b.readable = q.length := by rw [h.readable_eq]; omega
  rw [h.readable_eq] at hg
  simp only [hc, hg, Option.map_some]
  have hlen : (q ++ List.replicate (size - q.length).toNat (0 : UInt8)).length = size.toNat := by
    simp only [List.length_append, List.length_replicate]; omega
  exact ⟨_, rfl, holds_front (by omega), by simp only [getSize, hlen]; omega, rfl, rfl⟩

theorem Holds.adjustBuffer (h : b.Holds q) :
    ∃ b', b.adjustBuffer = some b' ∧ b'.Holds q ∧ b'.getSize = b.getSize ∧
      b'.readIndex = if b.readIndex > b.getSize / 3 then 0 else b.readIndex := by
  have hl := h.length_eq
  have hw := h.valid.write_le_size
  have hr := h.valid.read_nonneg
  have hthird : ((b.buffer.length / 3 : Nat) : Int) = b.getSize / 3 := by
    rw [getSize, Int.natCast_ediv]
    rfl
  simp only [TcpBuffer.adjustBuffer]
  rw [hthird]
  split
  · have hg := h.getBufferString_eq
    simp only [getBufferString] at hg
    rw [h.readable_eq] at hg ⊢
    simp only [hg, Option.map_some]
    have hlen : (q ++ List.replicate (b.buffer.length - q.length) (0 : UInt8)).length
        = b.buffer.length := by
      simp only [List.length_append, List.length_replicate]; omega
    exact ⟨_, rfl, holds_front (by rw [hlen]; exact h.valid.size_lt), by simp only [getSize, hlen], rfl⟩
  · exact ⟨b, rfl, h, rfl, rfl⟩

theorem Holds.recycleRead (h : b.Holds q) {k : Int} (hk : 0 ≤ k) (hkq : k ≤ q.length) :
    ∃ b', b.recycleRead k = some b' ∧ b'.Holds (q.drop k.toNat) ∧ b'.getSize = b.getSize := by
  have hl := h.length_eq
  have hv := h.valid
  have h1 := hv.read_nonneg
  have h2 := hv.write_le_size
  have h3 := hv.size_lt
  have hj : wrap32 (b.readIndex + k) = b.readIndex + k :=
    wrap32_eq ⟨by omega, by omega⟩
  simp only [TcpBuffer.recycleRead]
  simp only [hj]
  rw [if_neg (by simp only [getSize]; omega)]
  have hb : ({ b with readIndex := b.readIndex + k } : TcpBuffer).Holds (q.drop k.toNat) := by
    refine ⟨⟨by simp only; omega, by simp only; omega, h2, h3⟩, ?_⟩
    simp only [content]
    rw [window_drop h1 hk, ← h.content_eq]
    rfl
  obtain ⟨b', e, hb', hs, -⟩ := hb.adjustBuffer
  exact ⟨b', e, hb', hs⟩

/-- The read index may also be moved back, and then in front of the vector. -/
theorem Holds.recycleRead_any (h : b.Holds q) {k : Int} (hk : k ≤ q.length)
    (hlow : -2147483648 ≤ b.readIndex + k) :
    ∃ b', b.recycleRead k = some b' ∧ (b'.Valid → (b'.content.length : Int) = q.length - k) := by
  have hl := h.length_eq
  have h2 := h.valid.write_le_size
  have h3 := h.valid.size_lt
  have hj : wrap32 (b.readIndex + k) = b.readIndex + k := wrap32_eq ⟨hlow, by omega⟩
  simp only [TcpBuffer.recycleRead]
  simp only [hj]
  rw [if_neg (by simp only [getSize]; omega)]
  by_cases h0 : 0 ≤ b.readIndex + k
  · have hb : ({ b with readIndex := b.readIndex + k } : TcpBuffer).Valid :=
      ⟨h0, by simp only; omega, h2, h3⟩
    obtain ⟨b', e, hb', -⟩ := hb.holds.adjustBuffer
    refine ⟨b', e, fun _ => ?_⟩
    rw [hb'.content_eq, hb.content_length]
    simp only [readable]
    omega
  · refine ⟨{ b with readIndex := b.readIndex + k }, ?_, fun hv => absurd hv.read_nonneg h0⟩
    unfold TcpBuffer.adjustBuffer
    rw [if_neg (by simp only; omega)]

theorem Holds.store (h : b.Holds q) {s : Bytes} (hs : (s.length : Int) ≤ b.writeable) :
    ∃ v, writeRange b.buffer b.writeIndex s = some v ∧ v.length = b.buffer.length ∧
      ({ b with buffer := v, writeIndex := b.writeIndex + s.length } : TcpBuffer).Holds (q ++ s) := by
  have hv := h.valid
  have h1 := hv.read_nonneg
  have h2 := hv.read_le_write
  have h3 := hv.write_le_size
  have h4 := hv.size_lt
  simp only [writeable, getSize] at hs
  simp only [writeRange]
  rw [if_pos ⟨by omega, by omega⟩]
  have hlen : (b.buffer.take b.writeIndex.toNat ++
      (s ++ b.buffer.drop (b.writeIndex.toNat + s.length))).length = b.buffer.length := by
    simp only [List.length_append, List.length_take, List.length_drop]; omega
  refine ⟨_, rfl, hlen, ⟨h1, by simp only; omega, by simp only [hlen]; omega, by simp only [hlen]; omega⟩, ?_⟩
  simp only [content]
  rw [window_write h1 h2 h3, ← h.content_eq]
  rfl

theorem Holds.fill_recycleWrite (h : b.Holds q) {s : Bytes} (hs : (s.length : Int) ≤ b.writeable) :
    ∃ b₁ b₂, b.fill s = some b₁ ∧ b₁.recycleWrite s.length = some b₂ ∧ b₂.Holds (q ++ s) ∧
      b₂.getSize = b.getSize ∧ b₂.readIndex = if b.readIndex > b.getSize / 3 then 0 else b.readIndex := by
  obtain ⟨v, hw, hlen, hb⟩ := h.store hs
  have h1 := h.valid.read_nonneg
  have h2 := h.valid.read_le_write
  have h4 := h.valid.size_lt
  simp only [writeable, getSize] at hs
  have hj : wrap32 (b.writeIndex + s.length) = b.writeIndex + s.length :=
    wrap32_eq ⟨by omega, by omega⟩
  obtain ⟨b₂, e, hb₂, hs₂, hr₂⟩ := hb.adjustBuffer
  have hsize : (v.length : Int) = b.getSize := by rw [getSize, hlen]
  simp only [getSize, hsize] at hs₂ hr₂
  refine ⟨{ b with buffer := v }, b₂, by simp only [fill, hw, Option.map_some], ?_, hb₂, hs₂, hr₂⟩
  simp only [TcpBuffer.recycleWrite]
  simp only [hj]
  rw [if_neg (by simp only [getSize, hlen]; omega)]
  exact e

/-- `n` bytes fit behind the write index, or into a vector of the size that the buffer then grows to. -/
def Room (b : TcpBuffer) (n : Int) : Prop := n ≤ b.writeable ∨ 3 * (b.writeIndex + n) < 4294967296

instance (b : TcpBuffer) (n : Int) : Decidable (b.Room n) := inferInstanceAs (Decidable (_ ∨ _))

theorem growSize_of_nonneg {n : Int} (h : 0 ≤ n) :
    growSize n = if 3 * n < 4294967296 then 3 * n / 2 else -2147483648 := by
  unfold growSize
  rw [Int.tdiv_eq_ediv_of_nonneg (by omega)]
  dsimp only
  by_cases hn : 3 * n < 4294967296
  · rw [if_pos ⟨by omega, by omega⟩, if_pos hn]
  · rw [if_neg (by unfold IsInt32; omega), if_neg hn]

theorem Holds.writeToBuffer (h : b.Holds q) {s : Bytes} (hs : s.length < 2147483648)
    (hroom : b.Room s.length) : ∃ b', b.writeToBuffer s = some b' ∧ b'.Holds (q ++ s) := by
  have hl := h.length_eq
  have h1 := h.valid.read_nonneg
  have h2 := h.valid.read_le_write
  have hn : wrap32 s.length = s.length := wrap32_eq ⟨by omega, by omega⟩
  have hstore : ∀ b₁ : TcpBuffer, b₁.Holds q → (s.length : Int) ≤ b₁.writeable →
      ∃ b', ((if (s.length : Int) < 0 then none else
        (writeRange b₁.buffer b₁.writeIndex (s.take (s.length : Int).toNat)).map fun v =>
          { b₁ with buffer := v, writeIndex := b₁.writeIndex + s.length }) : Option TcpBuffer) = some b' ∧
        b'.Holds (q ++ s) := by
    intro b₁ hb₁ hfit
    obtain ⟨v, hw, -, hb⟩ := hb₁.store hfit
    rw [if_neg (by omega), Int.toNat_natCast, List.take_length, hw]
    exact ⟨_, rfl, hb⟩
  simp only [TcpBuffer.writeToBuffer]
  simp only [hn]
  split
  · have hgrow : 3 * (b.writeIndex + s.length) < 4294967296 := by
      rcases hroom with hfit | hgrow <;> omega
    rw [wrap32_eq (x := b.writeIndex + s.length) ⟨by omega, by omega⟩, growSize_of_nonneg (by omega),
      if_pos hgrow]
    have hle : (q.length : Int) ≤ 3 * (b.writeIndex + s.length) / 2 := by omega
    obtain ⟨b₁, e, hb₁, hsize, -, hwi⟩ := h.resizeBuffer hle (by omega)
    rw [e]
    exact hstore b₁ hb₁ (by simp only [writeable]; omega)
  · exact hstore b h (by omega)

theorem Valid.room_of_writeToBuffer {b' : TcpBuffer} {s : Bytes} (hv : b.Valid)
    (hs : s.length < 2147483648) (h : b.writeToBuffer s = some b') : b.Room s.length := by
  have h1 := hv.read_nonneg
  have h2 := hv.read_le_write
  have h3 := hv.write_le_size
  have h4 := hv.size_lt
  have hn : wrap32 s.length = s.length := wrap32_eq ⟨by omega, by omega⟩
  simp only [Room]
  refine Decidable.byContradiction fun hno => ?_
  obtain ⟨hfit, hgrow⟩ := not_or.mp hno
  simp only [TcpBuffer.writeToBuffer] at h
  simp only [hn] at h
  rw [if_pos (by omega)] at h
  -- the wanted size is no `int`, or its product is none, and then it is negative
  have hneg : growSize (wrap32 (b.writeIndex + s.length)) < 0 := by
    by_cases hw : b.writeIndex + s.length < 2147483648
    · rw [wrap32_eq ⟨by omega, hw⟩, growSize_of_nonneg (by omega), if_neg hgrow]
      omega
    · have hwrap : wrap32 (b.writeIndex + s.length) < 0 := by unfold wrap32; omega
      unfold growSize
      dsimp only
      split
      · rw [show wrap32 (b.writeIndex + s.length) = -(-wrap32 (b.writeIndex + s.length)) by omega,
          Int.mul_neg, Int.neg_tdiv, Int.tdiv_eq_ediv_of_nonneg (by omega)]
        omega
      · omega
  simp only [TcpBuffer.resizeBuffer] at h
  rw [if_pos hneg] at h
  cases h

/-! ## Several writes -/

/-- Each of the strings is shorter than 2^31 bytes and finds room behind those before it. -/
def RoomForAll : TcpBuffer → List Bytes → Prop
  | _, [] => True
  | b, x :: xs => x.length < 2147483648 ∧ b.Room x.length ∧ ∀ b' ∈ b.writeToBuffer x, RoomForAll b' xs

/-- The length is passed on as an `int`; if it is too long for one, part of the string is written, or the
write has no result. -/
theorem Valid.writeToBuffer_any {b' : TcpBuffer} {x : Bytes} (hv : b.Valid) (h : b.writeToBuffer x = some b') :
    ∃ n : Nat, n < 2147483648 ∧ b'.Holds (b.content ++ x.take n) := by
  have hrange : IsInt32 (wrap32 x.length) := isInt32_wrap32 _
  simp only [IsInt32] at hrange
  have hneg : 0 ≤ wrap32 x.length := by
    refine Int.not_lt.mp fun hlt => ?_
    simp only [TcpBuffer.writeToBuffer, if_pos hlt] at h
    obtain ⟨b₁, -, h⟩ := Option.bind_eq_some_iff.mp h
    cases h
  have hlen : (wrap32 x.length).toNat ≤ x.length := by
    unfold wrap32
    omega
  have htake : (x.take (wrap32 x.length).toNat).length = (wrap32 x.length).toNat := by
    rw [List.length_take, Nat.min_eq_left hlen]
  have hsame : b.writeToBuffer (x.take (wrap32 x.length).toNat) = some b' := by
    rw [← h]
    simp only [TcpBuffer.writeToBuffer, htake, Int.toNat_of_nonneg hneg, wrap32_eq hrange, List.take_take,
      Nat.min_self]
  have hroom := hv.room_of_writeToBuffer (by omega) hsame
  obtain ⟨b₁, e, hb₁⟩ := hv.holds.writeToBuffer (by omega) hroom
  rw [hsame] at e
  cases e
  exact ⟨_, by omega, hb₁⟩

theorem Valid.writes_any {b' : TcpBuffer} {xs : List Bytes} (hv : b.Valid)
    (h : xs.foldlM TcpBuffer.writeToBuffer b = some b') :
    b'.Valid ∧ b'.content.length ≤ b.content.length + xs.flatten.length := by
  induction xs generalizing b with
  | nil =>
      cases h
      exact ⟨hv, by simp⟩
  | cons x xs ih =>
      rw [List.foldlM_cons] at h
      obtain ⟨b₁, hw, h⟩ := Option.bind_eq_some_iff.mp h
      obtain ⟨n, -, hb₁⟩ := hv.writeToBuffer_any hw
      obtain ⟨hb', hle⟩ := ih hb₁.valid h
      rw [hb₁.content_eq, List.length_append, List.length_take] at hle
      rw [List.flatten_cons, List.length_append]
      exact ⟨hb', by omega⟩

/-- The strings are all in the buffer exactly if there was room for them. -/
theorem Valid.writes_iff {xs : List Bytes} (hv : b.Valid) :
    (∃ b', xs.foldlM TcpBuffer.writeToBuffer b = some b' ∧ b'.content = b.content ++ xs.flatten) ↔
      RoomForAll b xs := by
  induction xs generalizing b with
  | nil => exact ⟨fun _ => trivial, fun _ => ⟨b, rfl, by simp⟩⟩
  | cons x xs ih =>
      constructor
      · rintro ⟨b', h, hc⟩
        rw [List.foldlM_cons] at h
        obtain ⟨b₁, hw, h⟩ := Option.bind_eq_some_iff.mp h
        obtain ⟨n, hn, hb₁⟩ := hv.writeToBuffer_any hw
        -- a string that was cut short could not be made up for
        have hle := (hb₁.valid.writes_any h).2
        rw [hc, hb₁.content_eq] at hle
        simp only [List.flatten_cons, List.length_append, List.length_take] at hle
        rw [List.take_of_length_le (by omega)] at hb₁
        refine ⟨by omega, hv.room_of_writeToBuffer (by omega) hw, fun b₂ hb₂ => ?_⟩
        cases hw.symm.trans hb₂
        refine (ih hb₁.valid).mp ⟨b', h, ?_⟩
        rw [hc, hb₁.content_eq, List.flatten_cons, List.append_assoc]
      · rintro ⟨hlen, hroom, hrest⟩
        obtain ⟨b₁, hw, hb₁⟩ := hv.holds.writeToBuffer hlen hroom
        obtain ⟨b', h, hc⟩ := (ih hb₁.valid).mpr (hrest b₁ hw)
        refine ⟨b', ?_, ?_⟩
        · rw [List.foldlM_cons, hw]
          exact h
        · rw [hc, hb₁.content_eq, List.flatten_cons, List.append_assoc]

end TcpBuffer

theorem streamStart_new {D : Type} (chunks : List Bytes) {size : Nat} (h : size < 2147483648) :
    StreamStart chunks (⟨.new size, chunks, false, []⟩ : StreamState D) :=
  ⟨TcpBuffer.new_holds h, rfl, rfl, rfl⟩

end Tirpc
