import Mathlib.Data.List.Induction
import Tirpc.Lib.Text

/-!
# The MD5 message digest

A message is filled up to whole blocks of 64 bytes, and each block is mixed into four words in 64 steps. Words, and the
length of the message in bits, have their low byte first.
-/

namespace Lib

/-! ## Little-endian words -/

def leNat (bs : Bytes) : Nat := bs.foldr (fun b n => b.toNat + 256 * n) 0

/-- The low `w` bytes of a number. -/
def leBytes : Nat → Nat → Bytes
  | 0, _ => []
  | w + 1, n => UInt8.ofNat n :: leBytes w (n / 256)

theorem leBytes_length (w n : Nat) : (leBytes w n).length = w := by
  induction w generalizing n with
  | zero => rfl
  | succ w ih => rw [leBytes, List.length_cons, ih]

/-! ## Hexadecimal digits -/

def hexDigit (n : Nat) : UInt8 := UInt8.ofNat (if n < 10 then 48 + n else 87 + n)

/-- The low `k` digits of a number. -/
def hexDigits : Nat → Nat → Bytes
  | 0, _ => []
  | k + 1, n => hexDigits k (n / 16) ++ [hexDigit (n % 16)]

/-- Two digits for each byte. -/
def hex (bs : Bytes) : Bytes := bs.flatMap fun b => [hexDigit (b.toNat / 16), hexDigit (b.toNat % 16)]

theorem hexDigits_beNat (bs : Bytes) : hexDigits (2 * bs.length) (beNat bs) = hex bs := by
  induction bs using List.reverseRecOn with
  | nil => rfl
  | append_singleton bs b ih =>
      have hb := b.toNat_lt
      have hsnoc : beNat (bs ++ [b]) = beNat bs * 256 + b.toNat := by rw [beNat, List.foldl_append]; rfl
      rw [List.length_append, List.length_singleton, Nat.mul_add, Nat.mul_one, hexDigits, hexDigits, hsnoc, hex,
        List.flatMap_append, ← hex, ← ih, List.append_assoc, List.flatMap_singleton]
      have hrest : (beNat bs * 256 + b.toNat) / 16 / 16 = beNat bs := by omega
      have hhigh : (beNat bs * 256 + b.toNat) / 16 % 16 = b.toNat / 16 := by omega
      have hlow : (beNat bs * 256 + b.toNat) % 16 = b.toNat % 16 := by omega
      rw [hrest, hhigh, hlow]
      rfl

namespace Md5

structure Registers where
  a : UInt32
  b : UInt32
  c : UInt32
  d : UInt32
  deriving DecidableEq, Repr

namespace Registers

def start : Registers := { a := 0x67452301, b := 0xefcdab89, c := 0x98badcfe, d := 0x10325476 }

def add (v w : Registers) : Registers := { a := v.a + w.a, b := v.b + w.b, c := v.c + w.c, d := v.d + w.d }

def words (v : Registers) : List UInt32 := [v.a, v.b, v.c, v.d]

end Registers

/-! ## The four rounds -/

/-- The function of the round that step `i` belongs to. -/
def mix (i : Nat) (x y z : UInt32) : UInt32 :=
  match i / 16 with
  | 0 => (x &&& y) ||| (~~~x &&& z)
  | 1 => (x &&& z) ||| (y &&& ~~~z)
  | 2 => x ^^^ y ^^^ z
  | _ => y ^^^ (x ||| ~~~z)

/-- The word of the block that step `i` takes. -/
def index (i : Nat) : Nat :=
  match i / 16 with
  | 0 => i % 16
  | 1 => (5 * i + 1) % 16
  | 2 => (3 * i + 5) % 16
  | _ => 7 * i % 16

def shifts (i : Nat) : List Nat :=
  match i / 16 with
  | 0 => [7, 12, 17, 22]
  | 1 => [5, 9, 14, 20]
  | 2 => [4, 11, 16, 23]
  | _ => [6, 10, 15, 21]

def shift (i : Nat) : Nat := (shifts i).getD (i % 4) 0

/-- The integer part of `2^32 * |sin (i + 1)|`. -/
def sines : List UInt32 := [
  0xd76aa478, 0xe8c7b756, 0x242070db, 0xc1bdceee, 0xf57c0faf, 0x4787c62a, 0xa8304613, 0xfd469501,
  0x698098d8, 0x8b44f7af, 0xffff5bb1, 0x895cd7be, 0x6b901122, 0xfd987193, 0xa679438e, 0x49b40821,
  0xf61e2562, 0xc040b340, 0x265e5a51, 0xe9b6c7aa, 0xd62f105d, 0x02441453, 0xd8a1e681, 0xe7d3fbc8,
  0x21e1cde6, 0xc33707d6, 0xf4d50d87, 0x455a14ed, 0xa9e3e905, 0xfcefa3f8, 0x676f02d9, 0x8d2a4c8a,
  0xfffa3942, 0x8771f681, 0x6d9d6122, 0xfde5380c, 0xa4beea44, 0x4bdecfa9, 0xf6bb4b60, 0xbebfbc70,
  0x289b7ec6, 0xeaa127fa, 0xd4ef3085, 0x04881d05, 0xd9d4d039, 0xe6db99e5, 0x1fa27cf8, 0xc4ac5665,
  0xf4292244, 0x432aff97, 0xab9423a7, 0xfc93a039, 0x655b59c3, 0x8f0ccc92, 0xffeff47d, 0x85845dd1,
  0x6fa87e4f, 0xfe2ce6e0, 0xa3014314, 0x4e0811a1, 0xf7537e82, 0xbd3af235, 0x2ad7d2bb, 0xeb86d391]

def sine (i : Nat) : UInt32 := sines.getD i 0

def rotateLeft (w : UInt32) (s : Nat) : UInt32 := ⟨w.toBitVec.rotateLeft s⟩

/-- Step `i` changes one register, and the registers are renamed in turn. -/
def step (x : Nat → UInt32) (v : Registers) (i : Nat) : Registers :=
  { a := v.d
    b := v.b + rotateLeft (v.a + mix i v.b v.c v.d + x (index i) + sine i) (shift i)
    c := v.b
    d := v.c }

/-- Word `n` of a message. -/
def word (bytes : Bytes) (n : Nat) : UInt32 := UInt32.ofNat (leNat ((bytes.drop (4 * n)).take 4))

def compress (v : Registers) (x : Nat → UInt32) : Registers := v.add ((List.range 64).foldl (step x) v)

/-! ## The digest -/

/-- How many zeros stand behind the byte `0x80`: the fewest that leave eight bytes of a block. -/
def zeros (n : Nat) : Nat := (119 - n % 64) % 64

def padded (message : Bytes) : Bytes :=
  message ++ 0x80 :: (List.replicate (zeros message.length) 0 ++ leBytes 8 (8 * message.length))

/-- Block after block, with its sixteen words. -/
def compressAll (v : Registers) (bytes : Bytes) : Registers :=
  (List.range (bytes.length / 64)).foldl (fun v i => compress v fun j => word bytes (16 * i + j)) v

def digest (message : Bytes) : Bytes :=
  (compressAll .start (padded message)).words.flatMap fun w => leBytes 4 w.toNat

def hexDigest (message : Bytes) : Bytes := hex (digest message)

example : hexDigest (text "abc") = text "900150983cd24fb0d6963f7d28e17f72" := by decide +kernel

example : hexDigest (List.replicate 56 97) = text "3b0c8ac703f828b04c6c197006d17218" := by decide +kernel

end Md5

end Lib
