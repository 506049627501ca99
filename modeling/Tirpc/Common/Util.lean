import Tirpc.Lib.Text

/-!
# Splitting strings (`util.cpp`)

A result of `none` is an exception: `substr` was given a position behind the end of the string.
-/

namespace Tirpc

open Lib

namespace StringUtil

/-- `l - i - split_str.length()`: the length of the text comes from an `int`, the difference is a `size_t`. -/
def restLength (length skip : Nat) : Nat := ((wrap32 length - skip) % 18446744073709551616).toNat

/-- The loop of `SplitStrToVector`. It looks for any byte of the delimiter, and skips as many bytes as
the delimiter has. `n` bounds the number of bytes that are left. -/
def splitLoop (splitStr : Bytes) : Nat → Bytes → Option (List Bytes)
  | 0, _ => some []
  | n + 1, tmp =>
      match findFirstOf splitStr tmp with
      | none => some []
      | some i =>
          (substr tmp (i + splitStr.length) (restLength tmp.length (i + splitStr.length))).bind fun rest =>
            (splitLoop splitStr n rest).map fun res =>
              if tmp.take i = [] then res else tmp.take i :: res

def splitStrToVector (str splitStr : Bytes) : Option (List Bytes) :=
  if str = [] ∨ splitStr = [] then some []
  else if str.length < splitStr.length then none
  else
    let tmp := if str.drop (str.length - splitStr.length) ≠ splitStr then str ++ splitStr else str
    splitLoop splitStr tmp.length tmp

/-- One piece. The key is passed on as a C string. -/
def insertPiece (joiner : Bytes) (res : StringMap) (i : Bytes) : Option StringMap :=
  match findFirstOf joiner i with
  | none => some res
  | some j =>
      if j = 0 then some res
      else
        (substr i (j + joiner.length) (i.length - j - joiner.length)).map fun value =>
          res.insert ((i.take j).takeWhile (· ≠ 0)) value

def splitStrToMap (str splitStr joiner : Bytes) (res : StringMap) : Option StringMap :=
  if str = [] ∨ splitStr = [] ∨ joiner = [] then some res
  else (splitStrToVector str splitStr).bind fun vec => vec.foldlM (insertPiece joiner) res

end StringUtil

end Tirpc
