import Tirpc.Rpc.Data

/-!
# The controller of a call and message numbers (`rpc_controller.cpp`, `msg_req.cpp`)
-/

namespace Tirpc

open Lib

/-- `A` are the addresses. -/
structure RpcController (A : Type) where
  errorCode : Int := 0
  errorInfo : Bytes := []
  msgReq : Bytes := []
  isFailed : Bool := false
  isCancled : Bool := false
  peerAddr : Option A := none
  localAddr : Option A := none
  timeout : Int := 5000
  methodName : Bytes := []
  fullName : Bytes := []
  maxRetry : Int := 3

namespace RpcController

variable {A : Type}

/-- The body of `Reset` is empty. -/
def reset (c : RpcController A) : RpcController A := c

def setFailed (c : RpcController A) (reason : Bytes) : RpcController A :=
  { c with isFailed := true, errorInfo := reason }

def setErrorCode (c : RpcController A) (errorCode : Int) : RpcController A := { c with errorCode := errorCode }

def setError (c : RpcController A) (errCode : Int) (errInfo : Bytes) : RpcController A :=
  (c.setFailed errInfo).setErrorCode errCode

def setMsgSeq (c : RpcController A) (msgReq : Bytes) : RpcController A := { c with msgReq := msgReq }

def setPeerAddr (c : RpcController A) (addr : A) : RpcController A := { c with peerAddr := some addr }

def setLocalAddr (c : RpcController A) (addr : A) : RpcController A := { c with localAddr := some addr }

def setMethodName (c : RpcController A) (name : Bytes) : RpcController A := { c with methodName := name }

def setMethodFullName (c : RpcController A) (name : Bytes) : RpcController A := { c with fullName := name }

end RpcController

/-- What `MsgReqUtil::GenMsgNumber` yields: decimal digits, or nothing when no random bytes come. -/
structure MsgNumber where
  bytes : Bytes
  digits : ∀ c ∈ bytes, 48 ≤ c ∧ c ≤ 57

theorem MsgNumber.no_zero (m : MsgNumber) : (0 : UInt8) ∉ m.bytes := fun h =>
  absurd (m.digits 0 h).1 (by decide)

theorem MsgNumber.digits_one : ∀ c ∈ text "1", 48 ≤ c ∧ c ≤ 57 := by decide +kernel

end Tirpc
