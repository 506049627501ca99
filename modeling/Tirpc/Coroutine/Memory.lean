import Mathlib.Logic.Basic

/-!
# The memory of stacks (`memory.cpp`)

An area of memory is cut into blocks of one size, with a flag for each block. Addresses are numbers.
-/

namespace Tirpc

structure Memory where
  blockSize : Nat
  blockCount : Nat
  start : Nat
  /-- Whether a block is in use. -/
  blocks : List Bool
  deriving DecidableEq, Repr

namespace Memory

/-- `start` is what `malloc` returns. -/
def new (blockSize blockCount start : Nat) : Memory :=
  { blockSize := blockSize, blockCount := blockCount, start := start, blocks := List.replicate blockCount false }

def size (m : Memory) : Nat := m.blockSize * m.blockCount

def end_ (m : Memory) : Nat := m.start + m.size - 1

/-- The first free block, or none for the null pointer. -/
def getBlock (m : Memory) : Option (Nat × Memory) :=
  (m.blocks.findIdx? fun b => !b).map fun t =>
    (m.start + t * m.blockSize, { m with blocks := m.blocks.set t true })

def hasBlock (m : Memory) (block : Nat) : Bool := block ≥ m.start && block ≤ m.end_

def backBlock (m : Memory) (block : Nat) : Memory :=
  if block > m.end_ || block < m.start then m
  else { m with blocks := m.blocks.set ((block - m.start) / m.blockSize) false }

end Memory

end Tirpc
