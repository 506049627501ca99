import Tirpc.Coroutine.IntMemory
import Tirpc.Coroutine.Lemmas.Memory

/-!
# When stacks fit their memory

As long as no product leaves the range of an `int`, the memory is the one of exact arithmetic. A product that wraps
to a small size is allocated, and handed out in blocks behind its end.
-/

namespace Tirpc

open Lib

variable {malloc : Nat → Option Nat → Prop} {corStackSize corPoolSize : Int} {blockSize blockCount start : Nat}
  {m m' : IntMemory}

/-- What is allocated holds all blocks, and each block handed out is a whole one inside of it. -/
structure WholeBlocks (m : IntMemory) : Prop where
  allocated : m.blockCount * m.blockSize ≤ m.allocated
  blocks : ∀ m', Reachable memoryNext (· = m) anyStep m' → ∀ p m'', m'.getBlock = some (p, m'') →
    ∃ t, 0 ≤ t ∧ t < m.blockCount ∧ p = m.start + t * m.blockSize ∧ 0 ≤ m.blockSize ∧
      p + m.blockSize ≤ m.start + m.allocated

/-! ## Exact arithmetic -/

/-- The members of a memory whose size fits an `int`. -/
structure IntMemory.Exact (blockSize blockCount start : Nat) (m : IntMemory) : Prop where
  blockSize_eq : m.blockSize = blockSize
  blockCount_eq : m.blockCount = blockCount
  size_eq : m.size = (blockSize * blockCount : Nat)
  start_eq : m.start = start
  length_blocks : m.blocks.length = blockCount
  fits : blockSize * blockCount < 2147483648

namespace IntMemory

def toMemory (m : IntMemory) : Memory :=
  { blockSize := m.blockSize.toNat, blockCount := m.blockCount.toNat, start := m.start.toNat, blocks := m.blocks }

theorem Exact.set (h : m.Exact blockSize blockCount start) (t : Nat) (b : Bool) :
    Exact blockSize blockCount start { m with blocks := m.blocks.set t b } :=
  ⟨h.blockSize_eq, h.blockCount_eq, h.size_eq, h.start_eq, List.length_set.trans h.length_blocks, h.fits⟩

theorem Exact.cut (h : m.Exact blockSize blockCount start) : m.toMemory.Cut blockSize blockCount :=
  ⟨by rw [toMemory, h.blockSize_eq, Int.toNat_natCast], by rw [toMemory, h.blockCount_eq, Int.toNat_natCast],
    h.length_blocks⟩

theorem Exact.allocated_eq (h : m.Exact blockSize blockCount start) : m.allocated = blockSize * blockCount := by
  have hfits := h.fits
  rw [allocated, h.size_eq, mallocSize]
  omega

/-- A block is handed out as in exact arithmetic. -/
theorem Exact.getBlock_eq (h : m.Exact blockSize blockCount start) :
    m.getBlock.map (fun r => (r.1, r.2.toMemory)) = m.toMemory.getBlock.map fun r => ((r.1 : Int), r.2) := by
  have hblocks : m.toMemory.blocks = m.blocks := rfl
  rw [getBlock, Memory.getBlock, hblocks, Option.map_map, Option.map_map]
  refine Option.map_congr fun t ht => ?_
  have hlt : t < blockCount := by
    obtain ⟨hlt, -, -⟩ := List.findIdx?_eq_some_iff_getElem.mp ht
    rw [← h.length_blocks]
    exact hlt
  have hle : t * blockSize ≤ blockSize * blockCount := by
    rw [Nat.mul_comm blockSize]
    exact Nat.mul_le_mul_right blockSize (Nat.le_of_lt hlt)
  have hfits := h.fits
  have hoffset : wrap32 (t * (blockSize : Int)) = (t * blockSize : Nat) := by
    rw [← Int.natCast_mul]
    exact wrap32_eq ⟨by omega, by omega⟩
  simp only [Function.comp_apply, toMemory, h.start_eq, h.blockSize_eq, hoffset, Int.toNat_natCast, Int.natCast_add]

theorem Exact.step (h : m.Exact blockSize blockCount start) {l : MemoryStep} (hn : memoryNext m l = some m') :
    m'.Exact blockSize blockCount start := by
  cases l with
  | getBlock =>
      obtain ⟨⟨p, m₁⟩, hget, rfl⟩ := Option.map_eq_some_iff.mp hn
      obtain ⟨t, -, he⟩ := Option.map_eq_some_iff.mp hget
      cases he
      exact h.set t true
  | backBlock block =>
      simp only [memoryNext, backBlock] at hn
      split at hn
      · cases hn
        exact h
      · split at hn
        · cases hn
        · split at hn
          · cases hn
            exact h.set _ false
          · cases hn

/-- Whole blocks, in every state. -/
theorem Exact.wholeBlocks (h : m.Exact blockSize blockCount start) : WholeBlocks m := by
  have halloc := h.allocated_eq
  refine ⟨?_, fun m' hreach p m'' hget => ?_⟩
  · rw [halloc, h.blockCount_eq, h.blockSize_eq, Nat.mul_comm, Int.natCast_mul]
  · have h' : m'.Exact blockSize blockCount start := by
      refine hreach.invariant (fun m hm => hm ▸ h) fun m m' l hI _ hn => hI.step hn
    have hmem := h'.getBlock_eq
    rw [hget, Option.map_some] at hmem
    obtain ⟨⟨q, n⟩, hq, he⟩ := Option.map_eq_some_iff.mp hmem.symm
    obtain ⟨hp, -⟩ := Prod.mk.inj he
    obtain ⟨t, ht, rfl, -⟩ := Memory.getBlock_spec hq
    have hlt := h'.cut.lt ht
    have hnext : (t + 1) * blockSize ≤ blockCount * blockSize := Nat.mul_le_mul_right blockSize hlt
    rw [Nat.succ_mul, Nat.mul_comm blockCount] at hnext
    have hstart : m'.toMemory.start = start := by rw [toMemory, h'.start_eq, Int.toNat_natCast]
    have hptr : blockStart m'.toMemory.start m'.toMemory.blockSize t = start + t * blockSize := by
      rw [blockStart, hstart, h'.cut.blockSize_eq]
    dsimp only at hp
    rw [hptr] at hp
    rw [← hp, halloc, h.blockSize_eq, h.blockCount_eq, h.start_eq]
    refine ⟨t, by omega, by omega, by rw [Int.natCast_add, Int.natCast_mul], by omega, ?_⟩
    omega

/-! ## Wrapped sizes -/

theorem new_exact (hfits : blockSize * blockCount < 2147483648)
    (h : new blockSize blockCount (some start) = some m) : m.Exact blockSize blockCount start := by
  cases h
  refine ⟨rfl, rfl, ?_, rfl, ?_, hfits⟩
  · rw [size_, ← Int.natCast_mul]
    exact wrap32_eq ⟨by omega, by omega⟩
  · rw [List.length_replicate, Int.toNat_natCast]

/-- A product that does not fit is larger than what is allocated for it, unless `malloc` is asked for an absurd size. -/
theorem mallocSize_lt {n : Int} (hn : 2147483648 ≤ n) :
    9223372036854775808 ≤ mallocSize (wrap32 n) ∨ (mallocSize (wrap32 n) : Int) < n := by
  simp only [mallocSize, wrap32]
  omega

/-- A fresh memory hands out its first block. -/
theorem new_getBlock {blockSize : Int} {blockCount : Nat} {start : Option Nat} (hcount : 0 < (blockCount : Int))
    (h : new blockSize blockCount start = some m) : ∃ p m', m.getBlock = some (p, m') := by
  obtain ⟨p, rfl, rfl⟩ := Option.map_eq_some_iff.mp h
  obtain ⟨n, rfl⟩ : ∃ n, blockCount = n + 1 := ⟨blockCount - 1, by omega⟩
  have hfind : (List.replicate (n + 1) false).findIdx? (fun b => !b) = some 0 := by
    rw [List.replicate_succ, List.findIdx?_cons]
    rfl
  exact ⟨_, _, Option.map_eq_some_iff.mpr ⟨0, hfind, rfl⟩⟩

/-- Unless `malloc` has been asked for an absurd size, whole blocks tell that nothing has wrapped. -/
theorem wholeBlocks_new_iff {blockSize : Int} (hcount : 0 < (blockCount : Int))
    (hsize : mallocSize (size_ blockSize blockCount) < 9223372036854775808)
    (h : new blockSize blockCount (some start) = some m) :
    WholeBlocks m ↔ 0 ≤ blockSize ∧ blockSize * blockCount < 2147483648 := by
  constructor
  · intro hwhole
    -- a negative size of blocks shows at the first block
    have hpos : 0 ≤ blockSize := by
      obtain ⟨p, m', hget⟩ := new_getBlock hcount h
      obtain ⟨t, -, -, -, hpos, -⟩ := hwhole.blocks m (.start rfl) p m' hget
      cases h
      exact hpos
    refine ⟨hpos, Int.not_le.mp fun hover => ?_⟩
    have hless : (mallocSize (size_ blockSize blockCount) : Int) < blockSize * blockCount :=
      (mallocSize_lt hover).resolve_left (Nat.not_le.mpr hsize)
    cases h
    have halloc : blockCount * blockSize ≤ (mallocSize (size_ blockSize blockCount) : Int) := hwhole.allocated
    rw [Int.mul_comm] at halloc
    exact absurd halloc (Int.not_le.mpr hless)
  · rintro ⟨hpos, hlt⟩
    obtain ⟨blockSize, rfl⟩ := Int.eq_ofNat_of_zero_le hpos
    rw [← Int.natCast_mul] at hlt
    exact (new_exact (by omega) h).wholeBlocks

end IntMemory

/-- The memories of a pool have whole blocks, just when there are none or their size is what it should be. A size that
wraps to zero counts: all blocks are then at one address and have no bytes. -/
theorem pool_wholeBlocks_iff (hmalloc : ∀ size start, 9223372036854775808 ≤ size → ¬malloc size (some start))
    (hcount : 0 < corPoolSize) : (∀ m, PoolMemory malloc corStackSize corPoolSize m → WholeBlocks m) ↔
      (∀ start, ¬malloc (IntMemory.mallocSize (wrap32 (corStackSize * 1024 * corPoolSize))) (some start)) ∨
        0 ≤ wrap32 (corStackSize * 1024) ∧ wrap32 (corStackSize * 1024) * corPoolSize < 2147483648 := by
  have hsize : IntMemory.size_ (poolStackSize corStackSize) corPoolSize = wrap32 (corStackSize * 1024 * corPoolSize) :=
    wrap32_mul _ _
  rw [← hsize]
  obtain ⟨poolSize, rfl⟩ := Int.eq_ofNat_of_zero_le (Int.le_of_lt hcount)
  -- what `malloc` has answered decides for every memory alike
  have hiff : ∀ start m, malloc (IntMemory.mallocSize (IntMemory.size_ (poolStackSize corStackSize) poolSize))
      (some start) → IntMemory.new (poolStackSize corStackSize) poolSize (some start) = some m →
        (WholeBlocks m ↔
          0 ≤ wrap32 (corStackSize * 1024) ∧ wrap32 (corStackSize * 1024) * poolSize < 2147483648) :=
    fun start m hstart hnew =>
      IntMemory.wholeBlocks_new_iff hcount (Nat.not_le.mp fun habsurd => hmalloc _ start habsurd hstart) hnew
  constructor
  · intro hall
    refine or_iff_not_imp_left.mpr fun hsome => ?_
    obtain ⟨start, hstart⟩ := Classical.not_forall_not.mp hsome
    obtain ⟨m, hm⟩ : ∃ m, IntMemory.new (poolStackSize corStackSize) poolSize (some start) = some m := ⟨_, rfl⟩
    exact (hiff start m hstart hm).mp (hall m ⟨some start, hstart, hm⟩)
  · rintro hcond m ⟨start, hstart, hnew⟩
    obtain ⟨start, rfl, -⟩ := Option.map_eq_some_iff.mp hnew
    exact (hiff start m hstart hnew).mpr (hcond.resolve_left fun hnone => hnone start hstart)

/-- A `malloc` that has 2^40 bytes, at 4096. -/
def mallocAt4096 (size : Nat) (start : Option Nat) : Prop := start = if size < 1099511627776 then some 4096 else none

theorem mallocAt4096_refuses (size start : Nat) (h : 9223372036854775808 ≤ size) : ¬mallocAt4096 size (some start) := by
  intro hsome
  rw [mallocAt4096, if_neg (by omega)] at hsome
  cases hsome

/-- The pool of the default configuration. -/
theorem pool_wholeBlocks_default : ∃ m, PoolMemory mallocAt4096 256 1000 m ∧ WholeBlocks m := by
  obtain ⟨m, hm⟩ : ∃ m, IntMemory.new 262144 1000 (some 4096) = some m := ⟨_, rfl⟩
  have hpool : PoolMemory mallocAt4096 256 1000 m := ⟨some 4096, rfl, hm⟩
  exact ⟨m, hpool, (pool_wholeBlocks_iff mallocAt4096_refuses (by decide)).mpr (.inr (by decide)) m hpool⟩

/-- With 16385 stacks of the default size, 262144 bytes are allocated for all of them. -/
theorem pool_notWhole : ¬∀ m, PoolMemory mallocAt4096 256 16385 m → WholeBlocks m := by
  intro hall
  obtain ⟨m, hm⟩ : ∃ m, IntMemory.new 262144 16385 (some 4096) = some m := ⟨_, rfl⟩
  have halloc := (hall m ⟨some 4096, rfl, hm⟩).allocated
  cases hm
  exact absurd halloc (by decide)

end Tirpc
