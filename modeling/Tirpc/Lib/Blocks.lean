import Mathlib.Order.CompletePartialOrder
import Mathlib.Order.Interval.Set.Disjoint

/-!
# Blocks of one size

An area is cut into blocks of one size, and a block goes by its first address.
-/

namespace Lib

/-- The first address of block `t`. -/
def blockStart (start size t : Nat) : Nat := start + t * size

/-- The addresses of the block at `p`. -/
def block (size p : Nat) : Set Nat := Set.Ico p (p + size)

/-- The addresses of an area of `count` blocks. -/
def area (size count start : Nat) : Set Nat := Set.Ico start (start + size * count)

variable {start start' size count t t' : Nat}

theorem blockStart_inj (hsize : 0 < size) (h : blockStart start size t = blockStart start size t') : t = t' :=
  Nat.eq_of_mul_eq_mul_right hsize (Nat.add_left_cancel h)

theorem blockStart_index (hsize : 0 < size) : (blockStart start size t - start) / size = t := by
  rw [blockStart, Nat.add_sub_cancel_left, Nat.mul_div_cancel _ hsize]

theorem block_subset_area (ht : t < count) : block size (blockStart start size t) ⊆ area size count start := by
  intro a ha
  obtain ⟨hle, hlt⟩ := Set.mem_Ico.mp ha
  have hnext : (t + 1) * size ≤ count * size := Nat.mul_le_mul_right size ht
  rw [Nat.succ_mul, Nat.mul_comm count] at hnext
  rw [blockStart] at hle hlt
  exact Set.mem_Ico.mpr ⟨by omega, by omega⟩

theorem blockStart_mem_area (hsize : 0 < size) (ht : t < count) : blockStart start size t ∈ area size count start :=
  block_subset_area ht (Set.left_mem_Ico.mpr (Nat.lt_add_of_pos_right hsize))

/-- Blocks of one area do not overlap. -/
theorem block_disjoint (h : t ≠ t') :
    Disjoint (block size (blockStart start size t)) (block size (blockStart start size t')) := by
  rw [Set.disjoint_left]
  intro a ha ha'
  obtain ⟨hle, hlt⟩ := Set.mem_Ico.mp ha
  obtain ⟨hle', hlt'⟩ := Set.mem_Ico.mp ha'
  rw [blockStart] at hle hlt hle' hlt'
  rcases Nat.lt_or_gt_of_ne h with h | h
  · have hnext := Nat.mul_le_mul_right size h
    rw [Nat.succ_mul] at hnext
    omega
  · have hnext := Nat.mul_le_mul_right size h
    rw [Nat.succ_mul] at hnext
    omega

end Lib
