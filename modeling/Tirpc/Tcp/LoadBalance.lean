import Mathlib.Logic.Function.Basic
import Tirpc.Lib.Bytes
import Tirpc.Lib.Transition

/-!
# Choosing an address in turn (`load_balance.hpp`, `load_balance.cpp`)
-/

namespace Tirpc

open Lib

inductive LoadBalanceCategory where
  | random
  | round
  | consistentHash
  deriving DecidableEq, Repr

/-- The strategy objects of `LoadBalance`. There is one of each in the process. -/
inductive LoadBalanceStrategy where
  | sRandomStrategy
  | sRoundStrategy
  | sConsistentHashStrategy
  deriving DecidableEq, Repr

def queryStrategy : LoadBalanceCategory → LoadBalanceStrategy
  | .random => .sRandomStrategy
  | .round => .sRoundStrategy
  | .consistentHash => .sConsistentHashStrategy

structure RoundLoadBalanceStrategy where
  index : Nat := 0
  deriving DecidableEq, Repr

namespace RoundLoadBalanceStrategy

variable {A : Type}

/-- The place from which a list of `n` addresses is served. The length is cast to an `int`. -/
def place (s : RoundLoadBalanceStrategy) (n : Nat) : Nat := if wrap32 n ≤ s.index then 0 else s.index

/-- There is no result when the list is empty. -/
def select (s : RoundLoadBalanceStrategy) (addrs : List A) : Option (A × RoundLoadBalanceStrategy) :=
  addrs[s.place addrs.length]?.map fun addr => (addr, { index := s.place addrs.length + 1 })

/-- The places from which calls in a row are served. -/
def selects (s : RoundLoadBalanceStrategy) : List (List A) → Option (List Nat)
  | [] => some []
  | addrs :: calls => (s.select addrs).bind fun (_, s') => (s'.selects calls).map (s.place addrs.length :: ·)

end RoundLoadBalanceStrategy

/-! ## Channels that share the strategy -/

/-- What a channel keeps for the choice of an address. -/
structure BalancedChannel (A : Type) where
  addrs : List A
  loadBalancer : LoadBalanceStrategy

def BalancedChannel.new {A : Type} (addrs : List A) (loadBalance : LoadBalanceCategory) : BalancedChannel A :=
  { addrs := addrs, loadBalancer := queryStrategy loadBalance }

/-- The Round strategy, with what each channel has got from it and where it left the cursor. -/
structure RoundRun (C A : Type) where
  strategy : RoundLoadBalanceStrategy := {}
  used : C → List A := fun _ => []
  cursorLeft : C → Option Nat := fun _ => none

variable {C A : Type} [DecidableEq C]

/-- A call without failures selects once, from all the addresses of its channel. The other strategies do not
touch the Round strategy. -/
def roundNext (channels : C → BalancedChannel A) (s : RoundRun C A) (c : C) : Option (RoundRun C A) :=
  if (channels c).loadBalancer = .sRoundStrategy then
    (s.strategy.select (channels c).addrs).map fun (addr, strategy) =>
      { strategy := strategy
        used := Function.update s.used c (s.used c ++ [addr])
        cursorLeft := Function.update s.cursorLeft c (some strategy.index) }
  else some s

def RoundStart (s : RoundRun C A) : Prop := s = {}

end Tirpc
