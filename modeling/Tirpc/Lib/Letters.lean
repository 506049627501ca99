import Tirpc.Lib.Text

/-!
# Letters of either case
-/

namespace Lib

def isUpper (c : UInt8) : Bool := 65 ≤ c ∧ c ≤ 90

def isLower (c : UInt8) : Bool := 97 ≤ c ∧ c ≤ 122

def toLower (c : UInt8) : UInt8 := if 65 ≤ c ∧ c ≤ 90 then c + 32 else c

theorem toLower_eq {c : UInt8} (h : isUpper c = false) : toLower c = c := if_neg (of_decide_eq_false h)

/-- There are 256 bytes to be tried. -/
theorem forall_byte {P : UInt8 → Prop} (h : ∀ n < 256, P (UInt8.ofNat n)) (c : UInt8) : P c := by
  have hc := h c.toNat c.toNat_lt
  rwa [UInt8.ofNat_toNat] at hc

end Lib
