import Tirpc.Rpc.Codec
import Tirpc.Rpc.Controller

/-!
# Calls (`rpc_channel.cpp`)

The load balancer, the protobuf library and the network are given by what they answer in one call.
-/

namespace Tirpc

open Lib

/-- A channel calls a part of the addresses that it was made with. -/
structure RpcChannel (A : Type) where
  addrs : List A
  originAddrs : List A
  sub : addrs.Sublist originAddrs

/-- What `SendAndRecvTinyPb` returns: zero and a reply, or another code and an error text. -/
inductive SendAndRecv where
  | received (res : TinyPbStruct)
  | failed (ret : Int) (errInfo : Bytes) (nonzero : ret ≠ 0)

/-- One call, over addresses `A` and responses `M`. Attempts are counted from zero; number zero of
`genMsgNumber` is for the call itself, number `n + 1` for the encoder in attempt `n`. -/
structure CallEnv (A M : Type) where
  toString : A → Bytes
  localAddr : A
  methodFullName : Bytes
  serializedRequest : Option Bytes
  parseResponse : Bytes → Option M
  runtimeMsgNo : Option Bytes
  genMsgNumber : Nat → MsgNumber
  select : Nat → List A → TinyPbStruct → A
  sendAndRecv : Nat → SendAndRecv

/-- How a call goes wrong: it dereferences a reply that is not there, or the encoder has no result. -/
inductive CallFault where
  | nullReply
  | badEncode
  deriving DecidableEq, Repr

/-- The objects that a call works on. `doneRuns` counts the runs of the closure, and `tried` are the
lists that were given to the load balancer, with what it chose. -/
structure CallState (A M : Type) where
  channel : RpcChannel A
  controller : RpcController A
  pbStruct : TinyPbStruct := {}
  resData : Option TinyPbStruct := none
  response : Option M := none
  doneRuns : Nat := 0
  tried : List (List A × A) := []

variable {A M : Type}

namespace RpcChannel

def new (addrs : List A) : RpcChannel A := { addrs := addrs, originAddrs := addrs, sub := .refl _ }

def refill (ch : RpcChannel A) : RpcChannel A := if ch.addrs = [] then new ch.originAddrs else ch

def erase (ch : RpcChannel A) (toString : A → Bytes) (addr : A) : RpcChannel A where
  addrs := ch.addrs.eraseP fun a => toString a = toString addr
  originAddrs := ch.originAddrs
  sub := (List.eraseP_sublist).trans ch.sub

end RpcChannel

namespace CallState

def runDone (s : CallState A M) : CallState A M := { s with doneRuns := s.doneRuns + 1 }

def setError (s : CallState A M) (errCode : Int) (errInfo : Bytes) : CallState A M :=
  { s with controller := s.controller.setError errCode errInfo }

end CallState

def chooseAddr (env : CallEnv A M) (retryTimes : Nat) (s : CallState A M) : A × CallState A M :=
  let addr := env.select retryTimes s.channel.addrs s.pbStruct
  (addr, { s with
    tried := s.tried ++ [(s.channel.addrs, addr)]
    controller := (s.controller.setLocalAddr env.localAddr).setPeerAddr addr })

/-- The loop over the attempts is left by a return, or runs out or is broken off by a reply. -/
inductive RetryExit (A M : Type) where
  | returned (s : CallState A M)
  | done (s : CallState A M)

/-- Whether the list was refilled for the attempt, the list that the load balancer was given, what it chose, the
result if something was sent, and the list that is left. -/
structure Attempt (A : Type) where
  refilled : Bool
  given : List A
  addr : A
  result : Option SendAndRecv
  left : List A

/-- A pass of the loop leads to the next one, or out of the loop. -/
inductive Pass (A M : Type) where
  | again (s : CallState A M)
  | out (r : Except CallFault (RetryExit A M))

/-- One pass of the loop over the attempts, with a record of the attempt that it makes. -/
def retryPass (env : CallEnv A M) (retryTimes : Nat) (s : CallState A M) : Option (Attempt A) × Pass A M :=
  let refilled := s.channel.addrs.isEmpty
  let s := { s with channel := s.channel.refill }
  if s.channel.addrs = [] then
    (none,
      .out (.ok (.returned (s.setError ERROR_SERVICE_NOT_FOUND (text "not found address of service")).runDone)))
  else
    let given := s.channel.addrs
    let (addr, s) := chooseAddr env retryTimes s
    let attempt (result : Option SendAndRecv) (s : CallState A M) : Option (Attempt A) :=
      some { refilled := refilled, given := given, addr := addr, result := result, left := s.channel.addrs }
    match encode (env.genMsgNumber (retryTimes + 1)).bytes (TcpBuffer.new 128) s.pbStruct with
    | none => (attempt none s, .out (.error .badEncode))
    | some (_, pbStruct) =>
        let s := { s with pbStruct := pbStruct }
        if pbStruct.encodeSucc = false then
          (attempt none s,
            .out (.ok (.returned (s.setError ERROR_FAILED_ENCODE (text "encode tinypb data error")).runDone)))
        else
          match env.sendAndRecv retryTimes with
          | .received res => (attempt (some (.received res)) s, .out (.ok (.done { s with resData := some res })))
          | .failed ret errInfo nonzero =>
              if ret ≠ ERROR_RPC_CALL_TIMEOUT then
                let s := { s with channel := s.channel.erase env.toString addr }
                (attempt (some (.failed ret errInfo nonzero)) s, .again s)
              else
                (attempt (some (.failed ret errInfo nonzero)) s,
                  .out (.ok (.returned (s.setError ret errInfo).runDone)))

def retryLoop (env : CallEnv A M) (left retryTimes : Nat) (s : CallState A M) :
    Except CallFault (RetryExit A M) :=
  match left with
  | 0 => .ok (.done s)
  | left + 1 =>
      match (retryPass env retryTimes s).2 with
      | .again s => retryLoop env left (retryTimes + 1) s
      | .out r => r

def finishCall (env : CallEnv A M) (s : CallState A M) : Except CallFault (CallState A M) :=
  match s.resData with
  | none => .error .nullReply
  | some res =>
      match env.parseResponse res.pbData with
      | none => .ok (s.setError ERROR_FAILED_DESERIALIZE (text "failed to deserialize data from server"))
      | some response =>
          -- an error code in the reply is logged, it does not reach the controller
          .ok { s with response := some response }.runDone

def leaveLoop (env : CallEnv A M) : RetryExit A M → Except CallFault (CallState A M)
  | .returned s => .ok s
  | .done s => finishCall env s

/-- The message number of the call: the controller's, else that of the running request, else a new one. -/
def callMsgSeq (env : CallEnv A M) (rpcController : RpcController A) : Bytes :=
  if rpcController.msgReq ≠ [] then rpcController.msgReq
  else
    match env.runtimeMsgNo with
    | some msgNo => if msgNo ≠ [] then msgNo else (env.genMsgNumber 0).bytes
    | none => (env.genMsgNumber 0).bytes

def callMethod (env : CallEnv A M) (channel : RpcChannel A) (rpcController : RpcController A) :
    Except CallFault (CallState A M) :=
  match env.serializedRequest with
  | none => .ok { channel := channel, controller := rpcController, doneRuns := 1 }
  | some pbData =>
      let msgSeq := callMsgSeq env rpcController
      let s : CallState A M :=
        { channel := channel
          controller := rpcController.setMsgSeq msgSeq
          pbStruct := { serviceFullName := env.methodFullName, pbData := pbData, msgSeq := msgSeq } }
      (retryLoop env (rpcController.maxRetry + 1).toNat 0 s).bind (leaveLoop env)

/-- `CallMethod` from its first line on, where the controller is cast. It comes to the runs of the closure, and
with an `RpcController` to the objects of the call. -/
def castAndCall (env : CallEnv A M) (channel : RpcChannel A) :
    Option (RpcController A) → Except CallFault (Nat × Option (CallState A M))
  | none => .ok (1, none)
  | some rpcController => (callMethod env channel rpcController).map fun s => (s.doneRuns, some s)

end Tirpc
