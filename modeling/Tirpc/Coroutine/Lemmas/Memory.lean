import Mathlib.Data.List.Nodup
import Mathlib.Data.List.Pairwise
import Tirpc.Coroutine.Pool
import Tirpc.Lib.Blocks

/-!
# The blocks in use

The flags of some memories stand for a set of addresses, those of the blocks in use. Taking a block adds a new
address to the set, and giving one back removes it.
-/

namespace Tirpc

open Lib

variable {blockSize blockCount p q start t : Nat} {m m' : Memory} {ms ms' pre post : List Memory}

/-- A block in use begins at `p`. -/
def Memory.Uses (m : Memory) (p : Nat) : Prop :=
  ∃ t, m.blocks[t]? = some true ∧ p = blockStart m.start m.blockSize t

def Used (ms : List Memory) (p : Nat) : Prop := ∃ m ∈ ms, m.Uses p

structure Memory.Cut (blockSize blockCount : Nat) (m : Memory) : Prop where
  blockSize_eq : m.blockSize = blockSize
  blockCount_eq : m.blockCount = blockCount
  length_blocks : m.blocks.length = blockCount

/-- Memories of one kind that do not overlap. -/
structure Laid (blockSize blockCount : Nat) (ms : List Memory) : Prop where
  cut : ∀ m ∈ ms, m.Cut blockSize blockCount
  apart : (ms.map Memory.start).Pairwise fun a b =>
    Disjoint (area blockSize blockCount a) (area blockSize blockCount b)

theorem Used.cons : Used (m :: ms) p ↔ m.Uses p ∨ Used ms p := by
  simp [Used]

theorem Used.append : Used (ms ++ ms') p ↔ Used ms p ∨ Used ms' p := by
  simp [Used, or_and_right, exists_or]

/-! ## One memory -/

namespace Memory

theorem new_cut : (Memory.new blockSize blockCount start).Cut blockSize blockCount :=
  ⟨rfl, rfl, List.length_replicate⟩

theorem Cut.set (h : m.Cut blockSize blockCount) (t : Nat) (b : Bool) :
    Memory.Cut blockSize blockCount { m with blocks := m.blocks.set t b } :=
  ⟨h.blockSize_eq, h.blockCount_eq, List.length_set.trans h.length_blocks⟩

theorem Cut.lt (h : m.Cut blockSize blockCount) {b : Bool} (ht : m.blocks[t]? = some b) : t < blockCount :=
  h.length_blocks ▸ (List.getElem?_eq_some_iff.mp ht).1

theorem Cut.subset_area (h : m.Cut blockSize blockCount) {b : Bool} (ht : m.blocks[t]? = some b) :
    block blockSize (blockStart m.start m.blockSize t) ⊆ area blockSize blockCount m.start := by
  rw [h.blockSize_eq]
  exact block_subset_area (h.lt ht)

theorem Cut.mem_area (h : m.Cut blockSize blockCount) (hsize : 0 < blockSize) {b : Bool} (ht : m.blocks[t]? = some b) :
    blockStart m.start m.blockSize t ∈ area blockSize blockCount m.start :=
  h.subset_area ht (Set.left_mem_Ico.mpr (Nat.lt_add_of_pos_right hsize))

theorem Cut.hasBlock_iff (h : m.Cut blockSize blockCount) (hsize : 0 < blockSize) (hcount : 0 < blockCount) :
    m.hasBlock p = true ↔ p ∈ area blockSize blockCount m.start := by
  have hpos := Nat.mul_pos hsize hcount
  simp only [hasBlock, end_, size, h.blockSize_eq, h.blockCount_eq, area, Set.mem_Ico, Bool.and_eq_true,
    decide_eq_true_eq, ge_iff_le]
  omega

/-- The first free block. -/
theorem getBlock_spec (h : m.getBlock = some (p, m')) : ∃ t, m.blocks[t]? = some false ∧
    p = blockStart m.start m.blockSize t ∧ m' = { m with blocks := m.blocks.set t true } := by
  obtain ⟨t, ht, he⟩ := Option.map_eq_some_iff.mp h
  cases he
  obtain ⟨hlt, hfree, -⟩ := List.findIdx?_eq_some_iff_getElem.mp ht
  refine ⟨t, ?_, rfl, rfl⟩
  rw [List.getElem?_eq_getElem hlt]
  simpa using hfree

theorem uses_set_true (ht : m.blocks[t]? = some false) :
    Memory.Uses { m with blocks := m.blocks.set t true } q ↔ m.Uses q ∨ q = blockStart m.start m.blockSize t := by
  have hlt := (List.getElem?_eq_some_iff.mp ht).1
  constructor
  · rintro ⟨t', ht', rfl⟩
    by_cases he : t = t'
    · exact .inr (he ▸ rfl)
    · exact .inl ⟨t', by rwa [List.getElem?_set_ne he] at ht', rfl⟩
  · rintro (⟨t', ht', rfl⟩ | rfl)
    · have hne : t ≠ t' := by
        rintro rfl
        cases ht.symm.trans ht'
      exact ⟨t', by rwa [List.getElem?_set_ne hne], rfl⟩
    · exact ⟨t, List.getElem?_set_self hlt, rfl⟩

theorem uses_set_false (hsize : 0 < m.blockSize) :
    Memory.Uses { m with blocks := m.blocks.set t false } q ↔
      m.Uses q ∧ q ≠ blockStart m.start m.blockSize t := by
  constructor
  · rintro ⟨t', ht', rfl⟩
    have hne : t ≠ t' := by
      rintro rfl
      rw [List.getElem?_set_self'] at ht'
      obtain ⟨b, -, hb⟩ := Option.map_eq_some_iff.mp ht'
      cases hb
    exact ⟨⟨t', by rwa [List.getElem?_set_ne hne] at ht', rfl⟩, fun he => hne (blockStart_inj hsize he.symm)⟩
  · rintro ⟨⟨t', ht', rfl⟩, hne⟩
    have ht : t ≠ t' := fun he => hne (he ▸ rfl)
    exact ⟨t', by rwa [List.getElem?_set_ne ht], rfl⟩

/-- The first block of a new memory. -/
theorem new_getBlock (blockSize start : Nat) (hcount : 0 < blockCount) :
    ∃ m', (Memory.new blockSize blockCount start).getBlock = some (start, m') ∧ m'.Cut blockSize blockCount ∧
      m'.start = start ∧ ∀ q, m'.Uses q ↔ q = start := by
  obtain ⟨n, rfl⟩ := Nat.exists_eq_add_of_le' hcount
  have hfirst : (Memory.new blockSize (n + 1) start).blocks[0]? = some false := rfl
  have hzero : blockStart (Memory.new blockSize (n + 1) start).start blockSize 0 = start := by
    rw [blockStart, Nat.zero_mul]
    rfl
  have hnone : ∀ q, ¬(Memory.new blockSize (n + 1) start).Uses q := by
    rintro q ⟨t, ht, -⟩
    have hmem := List.eq_of_mem_replicate (List.mem_of_getElem? ht)
    cases hmem
  refine ⟨{ Memory.new blockSize (n + 1) start with blocks := List.set (List.replicate (n + 1) false) 0 true }, ?_,
    new_cut.set 0 true, rfl, fun q => ?_⟩
  · simp [getBlock, new, List.replicate_succ, List.findIdx?_cons]
  · have huses := uses_set_true (q := q) hfirst
    exact huses.trans ⟨fun hq => (hq.resolve_left (hnone q)).trans hzero, fun hq => .inr (hq.trans hzero.symm)⟩

/-- What `ReturnCoroutine` does to one memory. -/
theorem backBlock_eq (h : m.Cut blockSize blockCount) (hsize : 0 < blockSize) (hcount : 0 < blockCount)
    (ht : t < blockCount) : m.backBlock (blockStart m.start m.blockSize t) =
      { m with blocks := m.blocks.set t false } := by
  have harea : blockStart m.start m.blockSize t ∈ area blockSize blockCount m.start := by
    rw [h.blockSize_eq]
    exact blockStart_mem_area hsize ht
  have hmem := (h.hasBlock_iff hsize hcount).mpr harea
  have hin : ¬(blockStart m.start m.blockSize t > m.end_ || blockStart m.start m.blockSize t < m.start) = true := by
    simp only [hasBlock, Bool.and_eq_true, decide_eq_true_eq, ge_iff_le] at hmem
    simp only [Bool.or_eq_true, decide_eq_true_eq]
    omega
  rw [backBlock, if_neg hin, blockStart_index (h.blockSize_eq ▸ hsize)]

end Memory

/-! ## All memories -/

namespace Laid

/-- Two areas that share an address belong to one memory. -/
theorem same (h : Laid blockSize blockCount ms) (hm : m ∈ ms) (hm' : m' ∈ ms)
    (hp : p ∈ area blockSize blockCount m.start) (hp' : p ∈ area blockSize blockCount m'.start) : m = m' := by
  by_contra hne
  have hpairs := (List.pairwise_map (f := Memory.start)).mp h.apart
  have hsymm : Std.Symm fun a b : Memory =>
      Disjoint (area blockSize blockCount a.start) (area blockSize blockCount b.start) := ⟨fun _ _ hd => hd.symm⟩
  exact Set.disjoint_left.mp (hpairs.forall hm hm' hne) hp hp'

theorem replace (h : Laid blockSize blockCount (pre ++ m :: post)) (hcut : m'.Cut blockSize blockCount)
    (hstart : m'.start = m.start) : Laid blockSize blockCount (pre ++ m' :: post) := by
  refine ⟨fun x hx => ?_, ?_⟩
  · rcases List.mem_append.mp hx with hx | hx
    · exact h.cut x (List.mem_append_left _ hx)
    · rcases List.mem_cons.mp hx with rfl | hx
      · exact hcut
      · exact h.cut x (List.mem_append_right _ (List.mem_cons_of_mem m hx))
  · have hapart := h.apart
    rw [List.map_append, List.map_cons] at hapart ⊢
    rwa [hstart]

/-- Blocks in use do not overlap. -/
theorem disjoint (h : Laid blockSize blockCount ms) (hp : Used ms p) (hq : Used ms q) (hne : p ≠ q) :
    Disjoint (block blockSize p) (block blockSize q) := by
  obtain ⟨m, hm, t, ht, rfl⟩ := hp
  obtain ⟨m', hm', t', ht', rfl⟩ := hq
  have hcut := h.cut m hm
  have hcut' := h.cut m' hm'
  by_cases hsame : m = m'
  · subst hsame
    have htt : t ≠ t' := fun he => hne (he ▸ rfl)
    rw [hcut.blockSize_eq]
    exact block_disjoint htt
  · refine Set.disjoint_left.mpr fun a ha ha' => hsame ?_
    exact h.same hm hm' (hcut.subset_area ht ha) (hcut'.subset_area ht' ha')

theorem not_used (h : Laid blockSize blockCount ms) (hsize : 0 < blockSize) (hm : m ∈ ms)
    (ht : m.blocks[t]? = some false) : ¬Used ms (blockStart m.start m.blockSize t) := by
  rintro ⟨m', hm', t', ht', he⟩
  have hcut := h.cut m hm
  have hin := (h.cut m' hm').mem_area hsize ht'
  have hsame := h.same hm hm' (hcut.mem_area hsize ht) (he ▸ hin)
  subst hsame
  have htt := blockStart_inj (hcut.blockSize_eq ▸ hsize) he
  subst htt
  cases ht.symm.trans ht'

/-- A block of a memory behind the first one is not in use in the first one. -/
theorem head_ne (h : Laid blockSize blockCount (m :: ms)) (hsize : 0 < blockSize) (hp : m.Uses p) (hq : Used ms q) :
    p ≠ q := by
  rintro rfl
  obtain ⟨t, ht, hpt⟩ := hp
  obtain ⟨m', hm', t', ht', hpt'⟩ := hq
  have hin := (h.cut m List.mem_cons_self).mem_area hsize ht
  have hin' := (h.cut m' (List.mem_cons_of_mem m hm')).mem_area hsize ht'
  have hapart := (List.pairwise_cons.mp h.apart).1 m'.start (List.mem_map_of_mem hm')
  exact Set.disjoint_left.mp hapart (hpt ▸ hin) (hpt' ▸ hin')

theorem fresh_not_used (h : Laid blockSize blockCount ms) (hsize : 0 < blockSize) (hcount : 0 < blockCount)
    (hfresh : ∀ m ∈ ms, Disjoint (area blockSize blockCount m.start) (area blockSize blockCount start)) :
    ¬Used ms start := by
  rintro ⟨m, hm, t, ht, he⟩
  have hin : start ∈ area blockSize blockCount start :=
    Set.left_mem_Ico.mpr (Nat.lt_add_of_pos_right (Nat.mul_pos hsize hcount))
  exact Set.disjoint_left.mp (hfresh m hm) (he ▸ (h.cut m hm).mem_area hsize ht) hin

theorem append_new (h : Laid blockSize blockCount ms)
    (hfresh : ∀ m ∈ ms, Disjoint (area blockSize blockCount m.start) (area blockSize blockCount start))
    (hcut : m.Cut blockSize blockCount) (hstart : m.start = start) : Laid blockSize blockCount (ms ++ [m]) := by
  refine ⟨fun x hx => ?_, ?_⟩
  · rcases List.mem_append.mp hx with hx | hx
    · exact h.cut x hx
    · exact List.mem_singleton.mp hx ▸ hcut
  · rw [List.map_append, List.map_singleton, List.pairwise_append]
    refine ⟨h.apart, List.pairwise_singleton _ _, fun a ha b hb => ?_⟩
    obtain ⟨m', hm', rfl⟩ := List.mem_map.mp ha
    rw [List.mem_singleton.mp hb, hstart]
    exact hfresh m' hm'

end Laid

/-! ## Taking a block and giving it back -/

theorem used_replace (h : ∀ q, m'.Uses q ↔ m.Uses q ∨ q = p) :
    Used (pre ++ m' :: post) q ↔ Used (pre ++ m :: post) q ∨ q = p := by
  rw [Used.append, Used.append, Used.cons, Used.cons, h]
  tauto

theorem getOverflow_spec (h : CoroutinePool.getOverflow ms = some (p, ms')) : ∃ pre m post t,
    ms = pre ++ m :: post ∧ ms' = pre ++ { m with blocks := m.blocks.set t true } :: post ∧
      m.blocks[t]? = some false ∧ p = blockStart m.start m.blockSize t := by
  induction ms generalizing ms' with
  | nil => cases h
  | cons m ms ih =>
      simp only [CoroutinePool.getOverflow] at h
      split at h
      · rename_i hblock
        cases h
        obtain ⟨t, ht, hp, hm'⟩ := Memory.getBlock_spec hblock
        exact ⟨[], m, ms, t, rfl, by rw [hm']; rfl, ht, hp⟩
      · obtain ⟨r, hr, he⟩ := Option.map_eq_some_iff.mp h
        cases he
        obtain ⟨pre, m₁, post, t, hms, hms', ht, hp⟩ := ih hr
        exact ⟨m :: pre, m₁, post, t, by rw [hms]; rfl, by rw [hms']; rfl, ht, hp⟩

/-- A block is taken from a memory behind the first one. -/
theorem getOverflow_used {m₀ : Memory} (h : CoroutinePool.getOverflow ms = some (p, ms'))
    (hlaid : Laid blockSize blockCount (m₀ :: ms)) (hsize : 0 < blockSize) :
    Laid blockSize blockCount (m₀ :: ms') ∧ ¬Used (m₀ :: ms) p ∧ ∀ q, Used ms' q ↔ Used ms q ∨ q = p := by
  obtain ⟨pre, m, post, t, rfl, rfl, ht, rfl⟩ := getOverflow_spec h
  have hm : m ∈ m₀ :: (pre ++ m :: post) := List.mem_cons_of_mem m₀ (List.mem_append_right pre List.mem_cons_self)
  have hcut := (hlaid.cut m hm).set t true
  rw [← List.cons_append] at hlaid ⊢
  exact ⟨hlaid.replace hcut rfl, hlaid.not_used hsize hm ht, fun q => used_replace fun q => Memory.uses_set_true ht⟩

/-- A block that is in use in one of the memories goes back to its own. -/
theorem backBlock_used (h : Laid blockSize blockCount ms) (hsize : 0 < blockSize) (hcount : 0 < blockCount)
    (hp : Used ms p) (hm : m ∈ ms) (hm' : m' = if m.hasBlock p then m.backBlock p else m) :
    m'.Cut blockSize blockCount ∧ m'.start = m.start ∧ ∀ q, m'.Uses q ↔ m.Uses q ∧ q ≠ p := by
  subst hm'
  have hcut := h.cut m hm
  obtain ⟨m₁, hm₁, t, ht, rfl⟩ := hp
  have hcut₁ := h.cut m₁ hm₁
  have hin := hcut₁.mem_area hsize ht
  by_cases hhas : m.hasBlock (blockStart m₁.start m₁.blockSize t) = true
  · have hsame := h.same hm₁ hm hin ((hcut.hasBlock_iff hsize hcount).mp hhas)
    subst hsame
    rw [if_pos hhas, Memory.backBlock_eq hcut hsize hcount (hcut.lt ht)]
    exact ⟨hcut.set t false, rfl, fun q => Memory.uses_set_false (hcut.blockSize_eq ▸ hsize)⟩
  · rw [if_neg hhas]
    refine ⟨hcut, rfl, fun q => ⟨fun hq => ⟨hq, ?_⟩, fun hq => hq.1⟩⟩
    rintro rfl
    obtain ⟨t', ht', he⟩ := hq
    exact hhas ((hcut.hasBlock_iff hsize hcount).mpr (he ▸ hcut.mem_area hsize ht'))

theorem backOverflow_used {m₀ : Memory} (hlaid : Laid blockSize blockCount (m₀ :: ms)) (hsize : 0 < blockSize)
    (hcount : 0 < blockCount) (hp : Used ms p) :
    Laid blockSize blockCount (m₀ :: CoroutinePool.backOverflow p ms) ∧
      ∀ q, Used (CoroutinePool.backOverflow p ms) q ↔ Used ms q ∧ q ≠ p := by
  have htail : Laid blockSize blockCount ms :=
    ⟨fun m hm => hlaid.cut m (List.mem_cons_of_mem m₀ hm), (List.pairwise_cons.mp hlaid.apart).2⟩
  have heach : ∀ m ∈ ms, _ := fun m hm => backBlock_used htail hsize hcount hp hm rfl
  refine ⟨⟨fun x hx => ?_, ?_⟩, fun q => ⟨?_, ?_⟩⟩
  · rcases List.mem_cons.mp hx with rfl | hx
    · exact hlaid.cut x List.mem_cons_self
    · obtain ⟨m, hm, rfl⟩ := List.mem_map.mp hx
      exact (heach m hm).1
  · have hstarts : (CoroutinePool.backOverflow p ms).map Memory.start = ms.map Memory.start := by
      rw [CoroutinePool.backOverflow, List.map_map]
      exact List.map_congr_left fun m hm => (heach m hm).2.1
    rw [List.map_cons, hstarts]
    exact hlaid.apart
  · rintro ⟨x, hx, hq⟩
    obtain ⟨m, hm, rfl⟩ := List.mem_map.mp hx
    obtain ⟨hq, hne⟩ := ((heach m hm).2.2 q).mp hq
    exact ⟨⟨m, hm, hq⟩, hne⟩
  · rintro ⟨⟨m, hm, hq⟩, hne⟩
    exact ⟨_, List.mem_map_of_mem hm, ((heach m hm).2.2 q).mpr ⟨hq, hne⟩⟩

end Tirpc
