import Mathlib.Algebra.Group.Nat.Defs
import Mathlib.Data.List.Induction
import Mathlib.Data.List.TakeWhile
import Tirpc.Lib.Text

/-!
# Decimal numerals
-/

namespace Lib

variable {s t : Bytes} {n k : Nat} {c : UInt8}

/-- The number that a string of digits denotes. -/
def numeral (s : Bytes) : Nat := s.foldl (fun n c => n * 10 + (c.toNat - 48)) 0

/-- `n` decimal digits. -/
structure IsNumeral (n : Nat) (s : Bytes) : Prop where
  length : s.length = n
  digits : ∀ c ∈ s, isDigit c = true

instance (n : Nat) (s : Bytes) : Decidable (IsNumeral n s) :=
  decidable_of_iff (s.length = n ∧ s.all isDigit = true)
    ⟨fun h => ⟨h.1, List.all_eq_true.mp h.2⟩, fun h => ⟨h.1, List.all_eq_true.mpr h.2⟩⟩

theorem isDigit_iff : isDigit c = true ↔ 48 ≤ c.toNat ∧ c.toNat ≤ 57 := by
  simp only [isDigit, decide_eq_true_eq, UInt8.le_iff_toNat_le]
  exact Iff.rfl

/-! ## Values -/

theorem foldl_numeral (s : Bytes) (n : Nat) :
    s.foldl (fun n c => n * 10 + (c.toNat - 48)) n = n * 10 ^ s.length + numeral s := by
  induction s generalizing n with
  | nil => simp [numeral]
  | cons c s ih =>
      simp only [numeral, List.foldl_cons, List.length_cons]
      rw [ih, ih (0 * 10 + _), Nat.add_mul, Nat.pow_succ', Nat.mul_assoc, Nat.zero_mul, Nat.zero_add, Nat.add_assoc]

theorem numeral_append (s t : Bytes) : numeral (s ++ t) = numeral s * 10 ^ t.length + numeral t := by
  rw [numeral, List.foldl_append, foldl_numeral t]
  rfl

theorem numeral_singleton (c : UInt8) : numeral [c] = c.toNat - 48 := by
  simp only [numeral, List.foldl_cons, List.foldl_nil, Nat.zero_mul, Nat.zero_add]

theorem numeral_zeros (k : Nat) : numeral (List.replicate k 48) = 0 := by
  induction k with
  | zero => rfl
  | succ k ih => rw [List.replicate_succ', numeral_append, ih, numeral_singleton]; rfl

theorem numeral_nines (k : Nat) : numeral (List.replicate k 57) + 1 = 10 ^ k := by
  induction k with
  | zero => rfl
  | succ k ih =>
      rw [List.replicate_succ', numeral_append, numeral_singleton, Nat.pow_succ, ← ih]
      have h : (57 : UInt8).toNat = 57 := rfl
      rw [h, List.length_singleton]
      omega

/-- The carry: a digit in front of nines grows, and the nines become zeros. -/
theorem numeral_carry (hc : c.toNat < 57) (h0 : 48 ≤ c.toNat) :
    numeral (s ++ (c + 1) :: List.replicate k 48) = numeral (s ++ c :: List.replicate k 57) + 1 := by
  have hsucc : (c + 1).toNat = c.toNat + 1 := by
    rw [UInt8.toNat_add, UInt8.toNat_one]
    omega
  have hone : c.toNat + 1 - 48 = (c.toNat - 48) + 1 := by omega
  have hnines := numeral_nines k
  rw [List.append_cons, numeral_append, numeral_append s, numeral_singleton, numeral_zeros, hsucc, hone,
    List.append_cons s c, numeral_append, numeral_append s, numeral_singleton, List.length_replicate,
    List.length_replicate, Nat.add_zero, ← Nat.add_assoc, Nat.add_mul _ 1, Nat.one_mul, Nat.add_assoc _ _ 1, hnines]
  rfl

/-! ## Reading what has been printed -/

theorem decimalNat_numeral (h : ∀ c ∈ s, isDigit c = true) : decimalNat s = numeral s := by
  rw [decimalNat, List.takeWhile_eq_self_iff.mpr h]
  rfl

theorem decimal_isDigit (n : Nat) : ∀ c ∈ decimal (n : Int), isDigit c = true := fun c hc =>
  decide_eq_true (decimal_digits n c hc)

theorem numeral_text {l : List Char} (h : ∀ c ∈ l, c.isDigit = true) :
    numeral (l.map fun c => UInt8.ofNat c.toNat) = Nat.ofDigitChars 10 l 0 := by
  induction l using List.reverseRecOn with
  | nil => rfl
  | append_singleton l c ih =>
      have hc : 48 ≤ c.toNat ∧ c.toNat ≤ 57 := Char.isDigit_iff_toNat.mp (h c (by simp))
      have hbyte : (UInt8.ofNat c.toNat).toNat = c.toNat := by
        rw [UInt8.toNat_ofNat']
        omega
      have h48 : '0'.toNat = 48 := rfl
      rw [List.map_append, List.map_singleton, numeral_append, numeral_singleton, hbyte,
        ih fun d hd => h d (List.mem_append_left _ hd), Nat.ofDigitChars_append, Nat.ofDigitChars_cons,
        Nat.ofDigitChars_nil, h48, List.length_singleton]
      omega

theorem numeral_decimal (n : Nat) : numeral (decimal (n : Int)) = n := by
  have hrepr : (toString (n : Int)).toList = Nat.toDigits 10 n := Nat.toList_repr
  rw [decimal, text, hrepr, numeral_text, Nat.ofDigitChars_ten_toDigits]
  exact fun c hc => Nat.isDigit_of_mem_toDigits (by decide) (by decide) hc

theorem decimalInt_numeral (h : ∀ c ∈ s, isDigit c = true) : decimalInt s = numeral s := by
  have hbounds : ∀ c ∈ s, 48 ≤ c.toNat ∧ c.toNat ≤ 57 := fun c hc => isDigit_iff.mp (h c hc)
  have hne : ∀ {c d : UInt8}, 48 ≤ c.toNat ∧ c.toNat ≤ 57 → (d.toNat < 48) → c ≠ d := by
    rintro c d ⟨h1, -⟩ hd rfl
    omega
  have hcut : s.takeWhile (· ≠ 0) = s := List.takeWhile_eq_self_iff.mpr fun c hc =>
    decide_eq_true (hne (hbounds c hc) (by decide))
  simp only [decimalInt]
  rw [hcut]
  cases s with
  | nil => rfl
  | cons c cs =>
      have hc := hbounds c List.mem_cons_self
      have hspace : isSpace c = false := by
        simp only [isSpace, decide_eq_false_iff_not, UInt8.le_iff_toNat_le]
        rintro (rfl | ⟨-, h13⟩)
        · exact absurd hc.1 (by decide)
        · exact absurd (Nat.le_trans hc.1 h13) (by decide)
      rw [List.dropWhile_cons_of_neg (by rw [hspace]; decide)]
      dsimp only
      rw [if_neg (hne hc (by decide)), if_neg (hne hc (by decide)), decimalNat_numeral h]

theorem atoi_decimal (h : n < 2147483648) : atoi (decimal (n : Int)) = n := by
  rw [atoi, decimalInt_numeral (decimal_isDigit n), numeral_decimal]
  exact longToInt_eq ⟨by omega, by omega⟩

end Lib
