import Mathlib.Data.List.Basic
import Mathlib.Tactic.Common

/-!
# Byte strings, windows of a list, and 32-bit words

Positions and lengths are integers, as an `int` of the code may be negative. A read or a write of
a range is defined when the range lies inside the list, and is `none` otherwise.
-/

namespace Lib

abbrev Bytes := List UInt8

/-! ## 32-bit integers -/

/-- The value an `int` holds after arithmetic: congruent to `x` modulo 2^32. -/
def wrap32 (x : Int) : Int := (x + 2147483648) % 4294967296 - 2147483648

def IsInt32 (x : Int) : Prop := -2147483648 ≤ x ∧ x < 2147483648

instance (x : Int) : Decidable (IsInt32 x) := inferInstanceAs (Decidable (_ ∧ _))

theorem wrap32_eq {x : Int} (h : IsInt32 x) : wrap32 x = x := by
  unfold wrap32; unfold IsInt32 at h; omega

theorem isInt32_wrap32 (x : Int) : IsInt32 (wrap32 x) := by
  unfold wrap32 IsInt32; omega

theorem wrap32_mul (a b : Int) : wrap32 (wrap32 a * b) = wrap32 (a * b) := by
  obtain ⟨k, hk⟩ : ∃ k, wrap32 a = a + 4294967296 * k :=
    ⟨-((a + 2147483648) / 4294967296), by simp only [wrap32]; omega⟩
  rw [hk, Int.add_mul, Int.mul_assoc]
  simp only [wrap32]
  omega

/-! ## Ranges of a list -/

section Range

variable {α : Type*}

/-- The `len` elements of `v` from position `pos` on, when they all lie inside `v`. -/
def readRange (v : List α) (pos len : Int) : Option (List α) :=
  if 0 ≤ pos ∧ 0 ≤ len ∧ pos + len ≤ v.length then some ((v.drop pos.toNat).take len.toNat) else none

/-- `v` with `s` stored from position `pos` on, when the range lies inside `v`. -/
def writeRange (v : List α) (pos : Int) (s : List α) : Option (List α) :=
  if 0 ≤ pos ∧ pos + s.length ≤ v.length then
    some (v.take pos.toNat ++ (s ++ v.drop (pos.toNat + s.length)))
  else none

theorem readRange_some {v : List α} {pos len : Int} (h : 0 ≤ pos) (hl : 0 ≤ len)
    (hv : pos + len ≤ v.length) : readRange v pos len = some ((v.drop pos.toNat).take len.toNat) := by
  simp only [readRange, h, hl, hv, and_self, ↓reduceIte]

theorem readRange_eq_some {v s : List α} {pos len : Int} (h : readRange v pos len = some s) :
    0 ≤ pos ∧ 0 ≤ len ∧ pos + len ≤ v.length ∧ s = (v.drop pos.toNat).take len.toNat := by
  simp only [readRange] at h
  split at h
  · rename_i hc
    simp only [Option.some.injEq] at h
    exact ⟨hc.1, hc.2.1, hc.2.2, h.symm⟩
  · cases h

theorem readRange_length {v s : List α} {pos len : Int} (h : readRange v pos len = some s) :
    (s.length : Int) = len := by
  obtain ⟨h0, h1, h2, rfl⟩ := readRange_eq_some h
  simp only [List.length_take, List.length_drop]
  omega

theorem readRange_append {v p s q : List α} {pos len : Int} (hv : v = p ++ (s ++ q))
    (hp : pos = p.length) (hl : len = s.length) : readRange v pos len = some s := by
  subst hv hp hl
  rw [readRange_some (by omega) (by omega) (by simp only [List.length_append]; omega)]
  simp

def window (v : List α) (r w : Int) : List α := (v.drop r.toNat).take (w - r).toNat

theorem window_length {v : List α} {r w : Int} (h0 : 0 ≤ r) (h1 : r ≤ w) (h2 : w ≤ v.length) :
    ((window v r w).length : Int) = w - r := by
  simp only [window, List.length_take, List.length_drop]; omega

theorem readRange_window {v : List α} {r w k n : Int} (h0 : 0 ≤ r) (hw : w ≤ v.length) (hk : 0 ≤ k)
    (hn : 0 ≤ n) (h : r + k + n ≤ w) : readRange v (r + k) n = readRange (window v r w) k n := by
  have hl := window_length (v := v) h0 (show r ≤ w by omega) hw
  rw [readRange_some (by omega) hn (by omega), readRange_some hk hn (by omega)]
  simp only [window, List.drop_take, List.drop_drop, List.take_take]
  rw [Nat.min_eq_left (by omega), Int.toNat_add h0 hk]

theorem window_drop {v : List α} {r w k : Int} (h0 : 0 ≤ r) (hk : 0 ≤ k) :
    window v (r + k) w = (window v r w).drop k.toNat := by
  simp only [window, List.drop_take, List.drop_drop, Int.toNat_add h0 hk]
  congr 1; omega

theorem window_write {v s t : List α} {r w : Int} (h0 : 0 ≤ r) (h1 : r ≤ w) (h2 : w ≤ v.length) :
    window (v.take w.toNat ++ (s ++ t)) r (w + s.length) = window v r w ++ s := by
  have hlen : (v.take w.toNat).length = w.toNat := by
    rw [List.length_take]; omega
  simp only [window]
  rw [List.drop_append_of_le_length (by omega), List.drop_take, ← List.append_assoc,
    List.take_append_of_le_length (by
      simp only [List.length_append, List.length_take, List.length_drop]; omega)]
  rw [List.take_of_length_le (by
    simp only [List.length_append, List.length_take, List.length_drop]; omega)]
  congr 2
  omega

/-! Parts that are stored behind each other, from `pos` on. -/

def storesFrom (pos : Int) : List (List α) → List (Int × List α)
  | [] => []
  | part :: parts => (pos, part) :: storesFrom (pos + part.length) parts

def applyStores (v : List α) (stores : List (Int × List α)) : Option (List α) :=
  stores.foldlM (fun v st => writeRange v st.1 st.2) v

theorem storesFrom_within {pos : Int} {parts : List (List α)} {st : Int × List α}
    (h : st ∈ storesFrom pos parts) : pos ≤ st.1 ∧ st.1 + st.2.length ≤ pos + parts.flatten.length := by
  induction parts generalizing pos with
  | nil => cases h
  | cons part parts ih =>
      rw [List.flatten_cons, List.length_append]
      rcases List.mem_cons.mp h with rfl | h
      · exact ⟨Int.le_refl _, by simp only; omega⟩
      · have hst := ih h
        omega

theorem applyStores_append (front rest : List α) {parts : List (List α)}
    (h : rest.length = parts.flatten.length) :
    applyStores (front ++ rest) (storesFrom front.length parts) = some (front ++ parts.flatten) := by
  induction parts generalizing front rest with
  | nil =>
      rw [List.flatten_nil, List.length_nil, List.length_eq_zero_iff] at h
      subst h
      rfl
  | cons part parts ih =>
      rw [List.flatten_cons, List.length_append] at h
      have hwrite : writeRange (front ++ rest) front.length part =
          some ((front ++ part) ++ rest.drop part.length) := by
        simp only [writeRange]
        rw [if_pos ⟨by omega, by rw [List.length_append]; omega⟩, Int.toNat_natCast, List.take_left,
          List.drop_append, List.drop_of_length_le (by omega), Nat.add_sub_cancel_left, List.append_assoc]
        rfl
      have hrest := ih (front ++ part) (rest.drop part.length)
        (by rw [List.length_drop]; omega)
      simp only [applyStores, storesFrom, List.foldlM_cons, hwrite] at hrest ⊢
      rw [List.length_append, Int.natCast_add] at hrest
      rw [List.flatten_cons, ← List.append_assoc]
      exact hrest

end Range

/-! ## Words in network byte order -/

def beNat (bs : Bytes) : Nat := bs.foldl (fun n b => n * 256 + b.toNat) 0

/-- The `int32_t` that four bytes in network order stand for. -/
def beInt32 (bs : Bytes) : Int := wrap32 (beNat bs)

def netBytes32 (x : Int) : Bytes :=
  let n := (x % 4294967296).toNat
  [UInt8.ofNat (n / 16777216), UInt8.ofNat (n / 65536), UInt8.ofNat (n / 256), UInt8.ofNat n]

@[simp] theorem netBytes32_length (x : Int) : (netBytes32 x).length = 4 := rfl

theorem beNat_netBytes32 (x : Int) : (beNat (netBytes32 x) : Int) = x % 4294967296 := by
  simp only [beNat, netBytes32, List.foldl_cons, List.foldl_nil, UInt8.toNat_ofNat']
  omega

theorem beInt32_netBytes32 {x : Int} (h : IsInt32 x) : beInt32 (netBytes32 x) = x := by
  simp only [beInt32]
  rw [beNat_netBytes32]
  simp only [IsInt32] at h
  simp only [wrap32]
  omega

theorem isInt32_beInt32 (bs : Bytes) : IsInt32 (beInt32 bs) := isInt32_wrap32 _

/-! ## Text -/

def text (s : String) : Bytes := s.toList.map fun c => UInt8.ofNat c.toNat

theorem text_singleton (c : Char) : text (String.singleton c) = [UInt8.ofNat c.toNat] := by
  rw [text, String.toList_singleton, List.map_singleton]

/-- What `std::string(const char *)` makes of a local array: the bytes before the first NUL. Without
a NUL in the array the constructor runs past its end. -/
def cString (arr : Bytes) : Option Bytes :=
  if (0 : UInt8) ∈ arr then some (arr.takeWhile (· ≠ 0)) else none

theorem takeWhile_ne_zero {s t : Bytes} (h : (0 : UInt8) ∉ s) :
    (s ++ 0 :: t).takeWhile (· ≠ 0) = s := by
  induction s with
  | nil => simp
  | cons b s ih =>
      simp only [List.mem_cons, not_or] at h
      simp only [List.cons_append, List.takeWhile_cons]
      rw [ih h.2]
      simp [Ne.symm h.1]

theorem cString_zeroed {s : Bytes} {n : Nat} (h : (0 : UInt8) ∉ s) (hn : s.length < n) :
    cString (s ++ List.replicate (n - s.length) 0) = some s := by
  obtain ⟨k, hk⟩ : ∃ k, n - s.length = k + 1 := ⟨n - s.length - 1, by omega⟩
  rw [hk, List.replicate_succ]
  simp only [cString]
  rw [if_pos (by simp), takeWhile_ne_zero h]

theorem takeWhile_length_lt {arr : Bytes} (h : (0 : UInt8) ∈ arr) :
    (arr.takeWhile (· ≠ 0)).length < arr.length := by
  induction arr with
  | nil => cases h
  | cons b arr ih =>
      simp only [List.takeWhile_cons, List.length_cons]
      split
      · rename_i hb
        have hne : (0 : UInt8) ≠ b := fun he => by simp [← he] at hb
        have := ih (List.mem_of_ne_of_mem hne h)
        rw [List.length_cons]
        omega
      · exact Nat.succ_pos _

theorem cString_length_lt {arr s : Bytes} (h : cString arr = some s) : s.length < arr.length := by
  simp only [cString] at h
  split at h
  · cases h
    exact takeWhile_length_lt ‹_›
  · cases h

theorem cString_no_zero {arr s : Bytes} (h : cString arr = some s) : (0 : UInt8) ∉ s := by
  simp only [cString] at h
  split at h
  · simp only [Option.some.injEq] at h
    subst h
    intro hm
    simpa using List.all_eq_true.mp List.all_takeWhile 0 hm
  · cases h

end Lib
