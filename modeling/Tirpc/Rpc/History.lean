import Tirpc.Rpc.Lemmas.Attempts

/-!
# The calls of one channel

The list of addresses lives as long as the channel. What every attempt does to it is recorded, also in a call that
does not return.
-/

namespace Tirpc

open Lib

variable {A M : Type}

instance : DecidablePred Retried
  | .received _ => inferInstanceAs (Decidable False)
  | .failed ret _ _ => inferInstanceAs (Decidable (ret ≠ ERROR_RPC_CALL_TIMEOUT))

/-- Something was sent, and the result is neither a reply nor a timeout. -/
def Attempt.Failed (a : Attempt A) : Prop := ∃ r ∈ a.result, Retried r

instance (a : Attempt A) : Decidable a.Failed := inferInstanceAs (Decidable (∃ r ∈ a.result, Retried r))

/-- The attempts that the loop makes. -/
def retryLog (env : CallEnv A M) (left retryTimes : Nat) (s : CallState A M) : List (Attempt A) :=
  match left with
  | 0 => []
  | left + 1 =>
      let (attempt, pass) := retryPass env retryTimes s
      match pass with
      | .again s' => attempt.toList ++ retryLog env left (retryTimes + 1) s'
      | .out _ => attempt.toList

/-- The attempts of a call. -/
def callLog (env : CallEnv A M) (channel : RpcChannel A) : Option (RpcController A) → List (Attempt A)
  | none => []
  | some c =>
      match env.serializedRequest with
      | none => []
      | some pbData => retryLog env (c.maxRetry + 1).toNat 0 (startOf env channel c pbData)

/-! ## Runs -/

structure CallRecord (A : Type) where
  controller : Option (RpcController A)
  attempts : List (Attempt A)

/-- A channel with the calls that were made on it. A call that does not return is the last one. -/
structure ChannelRun (A : Type) where
  channel : RpcChannel A
  calls : List (CallRecord A) := []
  crashed : Bool := false

def ChannelRun.attempts (s : ChannelRun A) : List (Attempt A) := s.calls.flatMap CallRecord.attempts

def channelNext (s : ChannelRun A) (l : CallEnv A M × Option (RpcController A)) : Option (ChannelRun A) :=
  if s.crashed then none
  else
    let calls := s.calls ++ [{ controller := l.2, attempts := callLog l.1 s.channel l.2 }]
    some (match castAndCall l.1 s.channel l.2 with
      | .error _ => { s with calls := calls, crashed := true }
      | .ok (_, none) => { s with calls := calls }
      | .ok (_, some r) => { s with calls := calls, channel := r.channel })

def ChannelStart (origin : List A) (s : ChannelRun A) : Prop := s = { channel := .new origin }

/-- Texts of addresses do not change, and the load balancer takes an address from the list that it is given. -/
def Picks (toString : A → Bytes) (_ : ChannelRun A) (l : CallEnv A M × Option (RpcController A)) : Prop :=
  l.1.toString = toString ∧ ∀ k addrs d, addrs ≠ [] → l.1.select k addrs d ∈ addrs

end Tirpc
