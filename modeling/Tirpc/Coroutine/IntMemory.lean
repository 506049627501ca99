import Tirpc.Coroutine.Memory
import Tirpc.Lib.Bytes
import Tirpc.Lib.Transition

/-!
# The memory of stacks in `int` arithmetic (`memory.cpp`, `coroutine_pool.cpp`)

Sizes and offsets are of type `int`, and taken modulo 2^32. Addresses are numbers.
-/

namespace Tirpc

open Lib

structure IntMemory where
  blockSize : Int
  blockCount : Int
  size : Int
  start : Int
  blocks : List Bool
  deriving DecidableEq, Repr

namespace IntMemory

def size_ (blockSize blockCount : Int) : Int := wrap32 (blockSize * blockCount)

/-- The bytes that `malloc` is asked for. -/
def mallocSize (size : Int) : Nat := (size % 18446744073709551616).toNat

/-- `start` is what `malloc` returns. The null pointer does not pass the assertion. -/
def new (blockSize blockCount : Int) (start : Option Nat) : Option IntMemory :=
  start.map fun (p : Nat) => {
    blockSize := blockSize
    blockCount := blockCount
    size := size_ blockSize blockCount
    start := p
    blocks := List.replicate blockCount.toNat false }

/-- What has been allocated. -/
def allocated (m : IntMemory) : Nat := mallocSize m.size

def end_ (m : IntMemory) : Int := m.start + m.size - 1

def getBlock (m : IntMemory) : Option (Int × IntMemory) :=
  (m.blocks.findIdx? fun b => !b).map fun (t : Nat) =>
    (m.start + wrap32 ((t : Int) * m.blockSize), { m with blocks := m.blocks.set t true })

/-- A division by zero and a place that `blocks_` does not have are undefined. -/
def backBlock (m : IntMemory) (block : Int) : Option IntMemory :=
  if block > m.end_ ∨ block < m.start then some m
  else if m.blockSize = 0 then none
  else
    let t := wrap32 ((block - m.start).tdiv m.blockSize)
    if 0 ≤ t ∧ t < m.blocks.length then some { m with blocks := m.blocks.set t.toNat false } else none

end IntMemory

inductive MemoryStep where
  | getBlock
  | backBlock (block : Int)
  deriving DecidableEq, Repr

def memoryNext (m : IntMemory) : MemoryStep → Option IntMemory
  | .getBlock => m.getBlock.map Prod.snd
  | .backBlock block => m.backBlock block

/-- `stack_size_` of the pool that `GetCoroutinePool` builds. -/
def poolStackSize (corStackSize : Int) : Int := wrap32 (corStackSize * 1024)

/-- A memory of this pool. `malloc` says what a call for a number of bytes may return. -/
def PoolMemory (malloc : Nat → Option Nat → Prop) (corStackSize corPoolSize : Int) (m : IntMemory) : Prop :=
  ∃ start, malloc (IntMemory.mallocSize (IntMemory.size_ (poolStackSize corStackSize) corPoolSize)) start ∧
    IntMemory.new (poolStackSize corStackSize) corPoolSize start = some m

end Tirpc
