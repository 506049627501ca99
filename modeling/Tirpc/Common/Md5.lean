import Tirpc.Lib.Loop
import Tirpc.Lib.Md5

/-!
# The MD5 class (`md5.cpp`, `md5.hpp`)

On a host whose words have their low byte first. A result of `none` is a read behind the end of the data, or a loop
that goes on for longer than its bound.
-/

namespace Tirpc

open Lib Md5

namespace MD5

def A : UInt32 := 0x67452301
def B : UInt32 := 0xEFCDAB89
def C : UInt32 := 0x98BADCFE
def D : UInt32 := 0x10325476

def T : List UInt32 := [
  0xD76AA478, 0xE8C7B756, 0x242070DB, 0xC1BDCEEE, 0xF57C0FAF, 0x4787C62A, 0xA8304613, 0xFD469501,
  0x698098D8, 0x8B44F7AF, 0xFFFF5BB1, 0x895CD7BE, 0x6B901122, 0xFD987193, 0xA679438E, 0x49B40821,
  0xF61E2562, 0xC040B340, 0x265E5A51, 0xE9B6C7AA, 0xD62F105D, 0x02441453, 0xD8A1E681, 0xE7D3FBC8,
  0x21E1CDE6, 0xC33707D6, 0xF4D50D87, 0x455A14ED, 0xA9E3E905, 0xFCEFA3F8, 0x676F02D9, 0x8D2A4C8A,
  0xFFFA3942, 0x8771F681, 0x6D9D6122, 0xFDE5380C, 0xA4BEEA44, 0x4BDECFA9, 0xF6BB4B60, 0xBEBFBC70,
  0x289B7EC6, 0xEAA127FA, 0xD4EF3085, 0x04881D05, 0xD9D4D039, 0xE6DB99E5, 0x1FA27CF8, 0xC4AC5665,
  0xF4292244, 0x432AFF97, 0xAB9423A7, 0xFC93A039, 0x655B59C3, 0x8F0CCC92, 0xFFEFF47D, 0x85845DD1,
  0x6FA87E4F, 0xFE2CE6E0, 0xA3014314, 0x4E0811A1, 0xF7537E82, 0xBD3AF235, 0x2AD7D2BB, 0xEB86D391]

def S : List UInt32 := [
  7, 12, 17, 22, 7, 12, 17, 22, 7, 12, 17, 22, 7, 12, 17, 22, 5, 9, 14, 20, 5, 9,
  14, 20, 5, 9, 14, 20, 5, 9, 14, 20, 4, 11, 16, 23, 4, 11, 16, 23, 4, 11, 16, 23,
  4, 11, 16, 23, 6, 10, 15, 21, 6, 10, 15, 21, 6, 10, 15, 21, 6, 10, 15, 21]

def X : List Nat := [
  0, 1, 2, 3, 4, 5, 6, 7, 8, 9, 10, 11, 12, 13, 14, 15, 1, 6, 11, 0, 5, 10,
  15, 4, 9, 14, 3, 8, 13, 2, 7, 12, 5, 8, 11, 14, 1, 4, 7, 10, 13, 0, 3, 6,
  9, 12, 15, 2, 0, 7, 14, 5, 12, 3, 10, 1, 8, 15, 6, 13, 4, 11, 2, 9]

def F (x y z : UInt32) : UInt32 := (x &&& y) ||| (~~~x &&& z)
def G (x y z : UInt32) : UInt32 := (x &&& z) ||| (y &&& ~~~z)
def H (x y z : UInt32) : UInt32 := x ^^^ y ^^^ z
def I (x y z : UInt32) : UInt32 := y ^^^ (x ||| ~~~z)

/-- What `FF`, `GG`, `HH` and `II` make of their first register. -/
def operation (f : UInt32 → UInt32 → UInt32 → UInt32) (a b c d x : UInt32) (i : Nat) : UInt32 :=
  let temp := f b c d + a + x + T.getD i 0
  let temp := (temp <<< S.getD i 0) ||| (temp >>> (32 - S.getD i 0))
  b + temp

def FF : UInt32 → UInt32 → UInt32 → UInt32 → UInt32 → Nat → UInt32 := operation F
def GG : UInt32 → UInt32 → UInt32 → UInt32 → UInt32 → Nat → UInt32 := operation G
def HH : UInt32 → UInt32 → UInt32 → UInt32 → UInt32 → Nat → UInt32 := operation H
def II : UInt32 → UInt32 → UInt32 → UInt32 → UInt32 → Nat → UInt32 := operation I

/-- A word of the block that a pointer to bytes is read as. -/
def wordAt (input : Bytes) (j : Nat) : Option UInt32 :=
  (readRange input (4 * j) 4).map fun bytes => UInt32.ofNat (leNat bytes)

/-- The four operations of one turn of a round. -/
def roundTurn (op : UInt32 → UInt32 → UInt32 → UInt32 → UInt32 → Nat → UInt32) (input : Bytes) (v : Registers)
    (i : Nat) : Option Registers :=
  (wordAt input (X.getD i 0)).bind fun x0 =>
    let a := op v.a v.b v.c v.d x0 i
    (wordAt input (X.getD (i + 1) 0)).bind fun x1 =>
      let d := op v.d a v.b v.c x1 (i + 1)
      (wordAt input (X.getD (i + 2) 0)).bind fun x2 =>
        let c := op v.c d a v.b x2 (i + 2)
        (wordAt input (X.getD (i + 3) 0)).map fun x3 =>
          let b := op v.b c d a x3 (i + 3)
          { a := a, b := b, c := c, d := d }

def calculateBlock (state : Registers) (input : Bytes) : Option Registers :=
  ((List.range' 0 4 4).foldlM (roundTurn FF input) state).bind fun v =>
    ((List.range' 16 4 4).foldlM (roundTurn GG input) v).bind fun v =>
      ((List.range' 32 4 4).foldlM (roundTurn HH input) v).bind fun v =>
        ((List.range' 48 4 4).foldlM (roundTurn II input) v).map fun v =>
          { a := state.a + v.a, b := state.b + v.b, c := state.c + v.c, d := state.d + v.d }

def string2BitStream (data src : Bytes) : Bytes := data ++ src

/-- The loop that pushes zeros. -/
def zeroTurn (s : Int × Bytes) : Turn (Int × Bytes) Bytes :=
  if s.1.tmod 512 ≠ 448 then .again (wrap32 (s.1 + 8), s.2 ++ [0]) else .exit s.2

/-- The length is an `int`, and what is pushed of it at the end has been extended to 64 bits. -/
def padding (data : Bytes) : Option Bytes :=
  let fileBitSize := wrap32 (8 * data.length)
  let filled :=
    if fileBitSize.tmod 512 ≠ 448 then runLoop zeroTurn 536870912 (wrap32 (fileBitSize + 8), data ++ [0x80])
    else some data
  filled.map fun data => data ++ leBytes 8 (fileBitSize % 18446744073709551616).toNat

def computeTurn (data : Bytes) (s : Nat × Registers) : Turn (Nat × Registers) (Option Registers) :=
  if s.1 ≠ data.length then
    match calculateBlock s.2 (data.drop s.1) with
    | some state => .again (s.1 + 64, state)
    | none => .exit none
  else .exit (some s.2)

def compute (state : Registers) (data : Bytes) : Option Registers :=
  (runLoop (computeTurn data) (data.length + 1) (0, state)).join

/-- Bytes of a word as long as it is not zero. -/
def pushBytes : Nat → UInt32 → Bytes
  | 0, _ => []
  | n + 1, w => if w ≠ 0 then (w &&& 0xFF).toUInt8 :: pushBytes n (w >>> 8) else []

def genDigest (state : Registers) : Bytes := state.words.flatMap (pushBytes 4)

def htonl (w : UInt32) : UInt32 :=
  (w &&& (0xFF : UInt32)) <<< 24 ||| (w &&& (0xFF00 : UInt32)) <<< 8 |||
    ((w >>> 8) &&& (0xFF00 : UInt32)) ||| w >>> 24

/-- What `%08x` prints. -/
def hex8 (w : UInt32) : Bytes := hexDigits 8 w.toNat

def genResultString (state : Registers) : Bytes := state.words.flatMap fun w => hex8 (htonl w)

def resetVector : Registers × Bytes := ({ a := A, b := B, c := C, d := D }, [])

/-- The state that the string leaves. -/
def stateOf (src : Bytes) : Option Registers :=
  let (state, data) := resetVector
  (padding (string2BitStream data src)).bind (compute state)

def digest (src : Bytes) : Option Bytes := (stateOf src).map genDigest

def getResultString (src : Bytes) : Option Bytes := (stateOf src).map genResultString

end MD5

end Tirpc
