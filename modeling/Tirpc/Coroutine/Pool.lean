import Tirpc.Coroutine.Memory
import Tirpc.Lib.Transition

/-!
# The pool of coroutines (`coroutine_pool.cpp`)

The coroutines of the fixed table live as long as the pool. When none of them is free, one is built on a block
of a further memory. Coroutines are numbered in the order in which they are built.
-/

namespace Tirpc

open Lib

structure Coroutine where
  /-- Its place in the table, or `-1`. -/
  index : Int := -1
  stackPtr : Nat
  isInCoFunc : Bool := false
  deriving DecidableEq, Repr

structure CoroutinePool where
  poolSize : Nat
  stackSize : Nat
  /-- With the flag that is set while the coroutine cannot be dispatched. -/
  freeCors : List (Nat × Bool) := []
  memoryPool : List Memory := []
  cors : List Coroutine := []
  deriving DecidableEq, Repr

namespace CoroutinePool

def cor (s : CoroutinePool) (cor : Nat) : Coroutine := s.cors.getD cor { stackPtr := 0 }

/-- A turn of the loop of the constructor. -/
def addFree (s : CoroutinePool) (i : Nat) : Option CoroutinePool :=
  match s.memoryPool with
  | [] => none
  | tmp :: rest =>
      tmp.getBlock.map fun (block, tmp) => { s with
        freeCors := s.freeCors ++ [(s.cors.length, false)]
        memoryPool := tmp :: rest
        cors := s.cors ++ [{ index := i, stackPtr := block }] }

/-- A size that does not fit in an `int` is undefined. -/
def new (poolSize stackSize start : Nat) : Option CoroutinePool :=
  if poolSize * stackSize < 2147483648 then
    (List.range poolSize).foldlM addFree
      { poolSize := poolSize, stackSize := stackSize, memoryPool := [.new stackSize poolSize start] }
  else none

/-- The first free block of some memories. -/
def getOverflow : List Memory → Option (Nat × List Memory)
  | [] => none
  | m :: ms =>
      match m.getBlock with
      | some (tmp, m') => some (tmp, m' :: ms)
      | none => (getOverflow ms).map fun (tmp, ms') => (tmp, m :: ms')

/-- A coroutine that is built on a block when the table has none. -/
def buildOn (s : CoroutinePool) (memoryPool : List Memory) (block : Nat) : Nat × CoroutinePool :=
  (s.cors.length, { s with memoryPool := memoryPool, cors := s.cors ++ [{ stackPtr := block }] })

/-- `start` is what `malloc` returns when a new memory is built. A null stack pointer ends the program. -/
def getCoroutineInstanse (s : CoroutinePool) (start : Nat) : Option (Nat × CoroutinePool) :=
  match s.freeCors.findIdx? fun e => !(s.cor e.1).isInCoFunc && !e.2 with
  | some i => s.freeCors[i]?.map fun e => (e.1, { s with freeCors := s.freeCors.set i (e.1, true) })
  | none =>
      match getOverflow (s.memoryPool.drop 1) with
      | some (tmp, ms) => some (s.buildOn (s.memoryPool.take 1 ++ ms) tmp)
      | none =>
          (Memory.new s.stackSize s.poolSize start).getBlock.map fun (tmp, m) =>
            s.buildOn (s.memoryPool ++ [m]) tmp

/-- The loop of `ReturnCoroutine` over some memories. -/
def backOverflow (block : Nat) (ms : List Memory) : List Memory :=
  ms.map fun m => if m.hasBlock block then m.backBlock block else m

def returnCoroutine (s : CoroutinePool) (cor : Nat) : CoroutinePool :=
  let c := s.cor cor
  if 0 ≤ c.index ∧ c.index < s.poolSize then
    { s with freeCors := s.freeCors.modify c.index.toNat fun e => (e.1, false) }
  else
    { s with memoryPool := s.memoryPool.take 1 ++ backOverflow c.stackPtr (s.memoryPool.drop 1) }

def setIsInCoFunc (s : CoroutinePool) (cor : Nat) (v : Bool) : CoroutinePool :=
  { s with cors := s.cors.modify cor fun c => { c with isInCoFunc := v } }

/-- What `malloc` may return: an area that no memory overlaps. -/
def Mallocs (s : CoroutinePool) (start : Nat) : Prop :=
  0 < start ∧ ∀ m ∈ s.memoryPool, start + s.stackSize * s.poolSize ≤ m.start ∨ m.start + m.size ≤ start

instance (s : CoroutinePool) (start : Nat) : Decidable (s.Mallocs start) := inferInstanceAs (Decidable (_ ∧ _))

end CoroutinePool

/-! ## Owners of coroutines -/

/-- `out` are the coroutines that are handed out and not yet returned. -/
structure CoroutineRun where
  pool : CoroutinePool
  out : List Nat := []
  deriving DecidableEq

inductive CoroutineStep where
  | getCoroutineInstanse (start : Nat)
  | returnCoroutine (cor : Nat)
  /-- A coroutine enters `CoFunction`, or leaves it. -/
  | setIsInCoFunc (cor : Nat) (v : Bool)
  deriving DecidableEq, Repr

/-- A hand-out is returned once, and coroutines enter and leave `CoFunction` at any time. -/
def coroutineNext (s : CoroutineRun) : CoroutineStep → Option CoroutineRun
  | .getCoroutineInstanse start =>
      if s.pool.Mallocs start then
        (s.pool.getCoroutineInstanse start).map fun (cor, pool) => { pool := pool, out := cor :: s.out }
      else none
  | .returnCoroutine cor =>
      if cor ∈ s.out then some { pool := s.pool.returnCoroutine cor, out := s.out.erase cor } else none
  | .setIsInCoFunc cor v =>
      if cor < s.pool.cors.length then some { s with pool := s.pool.setIsInCoFunc cor v } else none

def CoroutineStart (poolSize stackSize : Nat) (s : CoroutineRun) : Prop :=
  s.out = [] ∧ ∃ start, 0 < start ∧ CoroutinePool.new poolSize stackSize start = some s.pool

end Tirpc
