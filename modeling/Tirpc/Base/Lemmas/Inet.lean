import Tirpc.Base.Address
import Tirpc.Lib.Pieces

/-!
# Dotted quads

The functions of the C library on a little-endian host, as far as dotted quads go.
-/

namespace Tirpc

open Lib

/-- The first number is the byte that comes first in memory. -/
def inetNtoa (a : UInt32) : Bytes :=
  decimal (a.toNat % 256 : Nat) ++ 46 :: (decimal (a.toNat / 256 % 256 : Nat) ++ 46 ::
    (decimal (a.toNat / 65536 % 256 : Nat) ++ 46 :: decimal (a.toNat / 16777216 : Nat)))

/-- The number of a part, when it is written as `inetNtoa` writes it. -/
def quadPart (p : Bytes) : Option Nat :=
  if numeral p < 256 ∧ p = decimal (numeral p : Nat) then some (numeral p) else none

/-- What is no dotted quad is refused. -/
def inetAddr (s : Bytes) : UInt32 :=
  match (cutAt [46] (s ++ [46])).map quadPart with
  | [some a, some b, some c, some d, _] => UInt32.ofNat (a + b * 256 + c * 65536 + d * 16777216)
  | _ => INADDR_NONE

def littleEndianNet : NetFunctions :=
  { inetAddr := inetAddr, inetNtoa := inetNtoa, htons := bswap16, ntohs := bswap16 }

/-! ## Laws -/

theorem not_mem_decimal {c : UInt8} (hc : c < 48) (n : Nat) : c ∉ decimal (n : Nat) := fun h =>
  UInt8.not_le.mpr hc (decimal_digits n c h).1

theorem quadPart_decimal {n : Nat} (h : n < 256) : quadPart (decimal (n : Nat)) = some n := by
  rw [quadPart, numeral_decimal, if_pos ⟨h, rfl⟩]

theorem cutAt_quad (a b c d : Nat) :
    cutAt [46] (decimal a ++ 46 :: (decimal b ++ 46 :: (decimal c ++ 46 :: decimal d)) ++ [46]) =
      [decimal a, decimal b, decimal c, decimal d, []] := by
  have hno : ∀ p ∈ [decimal a, decimal b, decimal c, decimal d], (46 : UInt8) ∉ p := by
    simp only [List.forall_mem_cons]
    exact ⟨not_mem_decimal (by decide) a, not_mem_decimal (by decide) b, not_mem_decimal (by decide) c,
      not_mem_decimal (by decide) d, fun _ h => absurd h List.not_mem_nil⟩
  have hcut := cutAt_pieces (t := []) hno
  simpa using hcut

theorem quadParts {a b c d : Nat} (ha : a < 256) (hb : b < 256) (hc : c < 256) (hd : d < 256) :
    (cutAt [46] (decimal a ++ 46 :: (decimal b ++ 46 :: (decimal c ++ 46 :: decimal d)) ++ [46])).map quadPart =
      [some a, some b, some c, some d, quadPart []] := by
  rw [cutAt_quad]
  simp only [List.map_cons, List.map_nil, quadPart_decimal ha, quadPart_decimal hb, quadPart_decimal hc,
    quadPart_decimal hd]

theorem inetAddr_inetNtoa (a : UInt32) : inetAddr (inetNtoa a) = a := by
  have ha : a.toNat < 4294967296 := a.toNat_lt
  have hsum : a.toNat % 256 + a.toNat / 256 % 256 * 256 + a.toNat / 65536 % 256 * 65536 +
      a.toNat / 16777216 * 16777216 = a.toNat := by omega
  have hparts := quadParts (a := a.toNat % 256) (b := a.toNat / 256 % 256) (c := a.toNat / 65536 % 256)
    (d := a.toNat / 16777216) (by omega) (by omega) (by omega) (by omega)
  rw [inetAddr, inetNtoa, hparts]
  simp only [hsum, UInt32.ofNat_toNat]

theorem inetNtoa_no_zero (a : UInt32) : (0 : UInt8) ∉ inetNtoa a := by
  simp only [inetNtoa, List.mem_append, List.mem_cons, not_or]
  exact ⟨not_mem_decimal (by decide) _, by decide, not_mem_decimal (by decide) _, by decide,
    not_mem_decimal (by decide) _, by decide, not_mem_decimal (by decide) _⟩

theorem inetNtoa_ne_nil (a : UInt32) : inetNtoa a ≠ [] := by simp [inetNtoa]

theorem inetAddr_nil : inetAddr [] = INADDR_NONE := by decide +kernel

theorem toNat_bswap16 (x : UInt16) : (bswap16 x).toNat = x.toNat % 256 * 256 + x.toNat / 256 := by
  have hx : x.toNat < 65536 := x.toNat_lt
  rw [bswap16, UInt16.toNat_ofNat', Nat.mod_eq_of_lt (by omega)]

theorem bswap16_bswap16 (x : UInt16) : bswap16 (bswap16 x) = x := by
  have hx : x.toNat < 65536 := x.toNat_lt
  refine UInt16.toNat_inj.mp ?_
  rw [toNat_bswap16, toNat_bswap16]
  omega

end Tirpc
