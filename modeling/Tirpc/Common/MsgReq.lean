import Tirpc.Lib.Numeral

/-!
# Message numbers (`msg_req.cpp`)
-/

namespace Tirpc

open Lib

/-- What a thread keeps of its message numbers. -/
structure MsgReqUtil where
  tMsgReqNu : Bytes := []
  tMaxMsgReqNu : Bytes := []
  deriving DecidableEq, Repr

namespace MsgReqUtil

/-- The first loop: from place `i` down, the last place that holds no nine. -/
def lastNotNine (nu : Bytes) : Nat → Option Nat
  | 0 => none
  | i + 1 => if nu[i]? = some 57 then lastNotNine nu i else some i

/-- The second loop. -/
def zeroFrom (nu : Bytes) (j : Nat) : Bytes :=
  (List.range' j (nu.length - j)).foldl (fun nu j => nu.set j 48) nu

def increment (nu : Bytes) : Bytes :=
  match lastNotNine nu nu.length with
  | some i => zeroFrom (nu.modify i (· + 1)) (i + 1)
  | none => nu

/-- The first call of a thread, and the call behind the largest number. -/
def DrawsSeed (s : MsgReqUtil) : Prop := s.tMsgReqNu = [] ∨ s.tMsgReqNu = s.tMaxMsgReqNu

instance (s : MsgReqUtil) : Decidable s.DrawsSeed := inferInstanceAs (Decidable (_ ∨ _))

/-- `res` is what is read from `/dev/urandom`, nothing when it cannot be read. A negative length throws
`std::length_error`. -/
def genMsgNumber (s : MsgReqUtil) (tMsgReqLen : Int) (res : Option Bytes) : Option (Bytes × MsgReqUtil) :=
  if s.DrawsSeed then
    if tMsgReqLen < 0 then none
    else match res.filter (·.length = tMsgReqLen) with
      | none => some ([], s)
      | some res =>
          let nu := res.map fun c => c % 10 + 48
          some (nu, { tMsgReqNu := nu, tMaxMsgReqNu := List.replicate tMsgReqLen.toNat 57 })
  else
    let nu := increment s.tMsgReqNu
    some (nu, { s with tMsgReqNu := nu })

/-- The numbers that calls in a row return, each with whether a seed has been drawn for it. An exception ends the
thread. -/
def genMsgNumbers (s : MsgReqUtil) : List (Int × Option Bytes) → List (Bool × Bytes)
  | [] => []
  | (tMsgReqLen, res) :: calls =>
      match s.genMsgNumber tMsgReqLen res with
      | none => []
      | some (nu, s') => (decide s.DrawsSeed, nu) :: s'.genMsgNumbers calls

end MsgReqUtil

end Tirpc
