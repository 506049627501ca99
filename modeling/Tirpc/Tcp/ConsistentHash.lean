import Mathlib.Data.Nat.Basic
import Mathlib.Logic.Function.Basic
import Tirpc.Lib.SortedMap
import Tirpc.Lib.Text
import Tirpc.Lib.Transition
import Tirpc.Rpc.Data

/-!
# Consistent hashing (`load_balance.hpp`)

A result of `none` is an access behind the end of a digest, an empty ring, or an exception of `substr`.
-/

namespace Tirpc

open Lib

variable {A : Type}

/-- What the strategy uses from outside: the texts of addresses, the digest of a string, and `std::hash`. -/
structure HashEnv (A : Type) where
  toString : A → Bytes
  md5 : Bytes → Bytes
  stdHash : Bytes → Nat

/-- The value of a `size_t`. -/
def sizeT (n : Int) : Nat := (n % 18446744073709551616).toNat

/-- A ring of virtual nodes. -/
structure ConsistentHashSelector (A : Type) where
  virtualInvokers : SortedMap Nat A
  identityHashCode : Nat

namespace ConsistentHashSelector

/-- Four bytes of the digest as a number. -/
def hash (digest : Bytes) (number : Nat) : Option Nat :=
  digest[3 + number * 4]?.bind fun b3 =>
    digest[2 + number * 4]?.bind fun b2 =>
      digest[1 + number * 4]?.bind fun b1 =>
        digest[number * 4]?.map fun b0 =>
          ((b3.toNat &&& 0xFF) <<< 24 ||| (b2.toNat &&& 0xFF) <<< 16 ||| (b1.toNat &&& 0xFF) <<< 8 |||
            (b0.toNat &&& 0xFF)) &&& 0xFFFFFFFF

/-- The four virtual nodes of one digest. -/
def insertGroup (digest : Bytes) (invoker : A) (m : SortedMap Nat A) : Option (SortedMap Nat A) :=
  (List.range 4).foldlM (fun m h => (hash digest h).map fun p => m.insert p invoker) m

def insertInvoker (env : HashEnv A) (replicaNumber : Nat) (m : SortedMap Nat A) (invoker : A) :
    Option (SortedMap Nat A) :=
  (List.range (replicaNumber / 4)).foldlM
    (fun m (i : Nat) => insertGroup (env.md5 (env.toString invoker ++ decimal i)) invoker m) m

/-- The hash code is passed as an `int`, and stored as a `size_t` again. -/
def new (env : HashEnv A) (invokers : List A) (replicaNumber : Nat) (identityHashCode : Int) :
    Option (ConsistentHashSelector A) :=
  (invokers.foldlM (insertInvoker env replicaNumber) .empty).map fun virtualInvokers =>
    { virtualInvokers := virtualInvokers, identityHashCode := sizeT (wrap32 identityHashCode) }

def selectForKey (s : ConsistentHashSelector A) (hashCode : Nat) : Option A :=
  (s.virtualInvokers.successor hashCode).map Prod.snd

def select (env : HashEnv A) (s : ConsistentHashSelector A) (rpcServiceKey : Bytes) : Option A :=
  (hash (env.md5 rpcServiceKey) 0).bind s.selectForKey

end ConsistentHashSelector

/-- The selectors by the names of services. -/
structure ConsistentHashLoadBalanceStrategy (A : Type) where
  selectors : Bytes → Option (ConsistentHashSelector A) := fun _ => none

namespace ConsistentHashLoadBalanceStrategy

def hashCode (env : HashEnv A) (addrs : List A) : Nat :=
  addrs.foldl (fun result item => (31 * result + env.stdHash (env.toString item)) % 18446744073709551616) 1

/-- The selector of the service, where it is not out of date. -/
def cached (env : HashEnv A) (s : ConsistentHashLoadBalanceStrategy A) (addrs : List A) (serviceName : Bytes) :
    Option (ConsistentHashSelector A) :=
  (s.selectors serviceName).filter fun selector => selector.identityHashCode = hashCode env addrs

def select (env : HashEnv A) (s : ConsistentHashLoadBalanceStrategy A) (addrs : List A) (invocation : TinyPbStruct) :
    Option (A × ConsistentHashLoadBalanceStrategy A) :=
  (find (text ".") invocation.serviceFullName).bind fun index =>
    let serviceName := invocation.serviceFullName.take index
    let methodName := invocation.serviceFullName.drop index
    match s.cached env addrs serviceName with
    | some selector => (selector.select env (methodName ++ invocation.pbData)).map fun addr => (addr, s)
    | none =>
        (ConsistentHashSelector.new env addrs 160 (hashCode env addrs)).bind fun selector =>
          (selector.select env (methodName ++ invocation.pbData)).map fun addr =>
            (addr, { s with selectors := Function.update s.selectors serviceName (some selector) })

end ConsistentHashLoadBalanceStrategy

/-! ## Runs -/

/-- A call: its service and its list, the list that the selector of the service had been built from, whether this
selector was taken, and the list that the selector was built from that was. -/
structure CacheCall (A : Type) where
  serviceName : Bytes
  addrs : List A
  builtFrom : Option (List A)
  reused : Bool
  servedFrom : List A

/-- The strategy, with the lists that its selectors were built from and the calls that have returned. -/
structure CacheRun (A : Type) where
  strategy : ConsistentHashLoadBalanceStrategy A := {}
  built : Bytes → Option (List A) := fun _ => none
  calls : List (CacheCall A) := []

def calledService (invocation : TinyPbStruct) : Bytes :=
  invocation.serviceFullName.take ((find (text ".") invocation.serviceFullName).getD 0)

def cacheNext (env : HashEnv A) (s : CacheRun A) (l : List A × TinyPbStruct) : Option (CacheRun A) :=
  (s.strategy.select env l.1 l.2).map fun (_, strategy) =>
    let serviceName := calledService l.2
    let reused := (s.strategy.cached env l.1 serviceName).isSome
    let built := if reused then s.built else Function.update s.built serviceName (some l.1)
    { strategy := strategy
      built := built
      calls := s.calls ++
        [{ serviceName := serviceName
           addrs := l.1
           builtFrom := s.built serviceName
           reused := reused
           servedFrom := (built serviceName).getD [] }] }

def CacheStart (s : CacheRun A) : Prop := s = {}

end Tirpc
