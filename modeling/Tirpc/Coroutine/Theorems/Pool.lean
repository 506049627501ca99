import Tirpc.Coroutine.Lemmas.Memory
import Tirpc.Lib.Family

/-!
# Stacks that are handed out

The coroutines of the table have the blocks of the first memory, which are never given back. A further coroutine
has a block of one of the other memories, which stays in use until it is returned.
-/

namespace Tirpc

open Lib

variable {poolSize stackSize start k k' : Nat} {s s' : CoroutineRun} {m₀ : Memory} {ms : List Memory}

def CoroutinePool.stack (s : CoroutinePool) (cor : Nat) : Set Nat := block s.stackSize (s.cor cor).stackPtr

/-- The coroutines handed out are pairwise distinct, with stacks that do not overlap, in blocks that are in use;
and the next one can be handed out. -/
structure HandedOutApart (s : CoroutineRun) : Prop where
  distinct : s.out.Nodup
  apart : ∀ cor ∈ s.out, ∀ cor' ∈ s.out, cor ≠ cor' → Disjoint (s.pool.stack cor) (s.pool.stack cor')
  inUse : ∀ cor ∈ s.out, ∃ m ∈ s.pool.memoryPool, ∃ t, m.blocks[t]? = some true ∧
    s.pool.stack cor ⊆ block m.blockSize (blockStart m.start m.blockSize t)
  succeeds : ∀ start, s.pool.Mallocs start → ∃ cor pool, s.pool.getCoroutineInstanse start = some (cor, pool)

theorem cor_buildOn (pool : CoroutinePool) (ms : List Memory) (p k : Nat) :
    (pool.buildOn ms p).2.cor k = if k = pool.cors.length then { stackPtr := p } else pool.cor k := by
  simp only [CoroutinePool.cor, CoroutinePool.buildOn, List.getD_eq_getElem?_getD]
  split
  · rename_i hk
    rw [hk, List.getElem?_concat_length, Option.getD_some]
  · rename_i hk
    rcases Nat.lt_or_gt_of_ne hk with hlt | hgt
    · rw [List.getElem?_append_left hlt]
    · rw [List.getElem?_eq_none (Nat.le_of_lt hgt), List.getElem?_eq_none]
      rw [List.length_append, List.length_singleton]
      exact hgt

/-! ## The invariant -/

structure StacksKept (poolSize stackSize : Nat) (m₀ : Memory) (ms : List Memory) (s : CoroutineRun) : Prop where
  poolSize_eq : s.pool.poolSize = poolSize
  stackSize_eq : s.pool.stackSize = stackSize
  memory_eq : s.pool.memoryPool = m₀ :: ms
  laid : Laid stackSize poolSize (m₀ :: ms)
  full : ∀ i < poolSize, m₀.blocks[i]? = some true
  freeCors_eq : s.pool.freeCors = (List.range poolSize).map fun i => (i, decide (i ∈ s.out))
  built : poolSize ≤ s.pool.cors.length
  table : ∀ i < poolSize, (s.pool.cor i).index = i ∧ (s.pool.cor i).stackPtr = blockStart m₀.start stackSize i
  further : ∀ k, poolSize ≤ k → (s.pool.cor k).index = -1
  out_lt : ∀ k ∈ s.out, k < s.pool.cors.length
  nodup : s.out.Nodup
  overflow : ∀ k ∈ s.out, poolSize ≤ k → Used ms (s.pool.cor k).stackPtr
  once : ∀ k ∈ s.out, ∀ k' ∈ s.out, poolSize ≤ k → poolSize ≤ k' →
    (s.pool.cor k).stackPtr = (s.pool.cor k').stackPtr → k = k'

namespace StacksKept

/-- The coroutines with a stack of their own. -/
def Owns (poolSize : Nat) (s : CoroutineRun) (k : Nat) : Prop := k < poolSize ∨ k ∈ s.out

theorem table_uses (h : StacksKept poolSize stackSize m₀ ms s) (hk : k < poolSize) : m₀.Uses (s.pool.cor k).stackPtr := by
  refine ⟨k, h.full k hk, ?_⟩
  rw [(h.table k hk).2, (h.laid.cut m₀ List.mem_cons_self).blockSize_eq]

theorem used (h : StacksKept poolSize stackSize m₀ ms s) (hk : Owns poolSize s k) :
    Used (m₀ :: ms) (s.pool.cor k).stackPtr := by
  rw [Used.cons]
  by_cases hlt : k < poolSize
  · exact .inl (h.table_uses hlt)
  · exact .inr (h.overflow k (hk.resolve_left hlt) (Nat.le_of_not_lt hlt))

theorem stackPtr_inj (h : StacksKept poolSize stackSize m₀ ms s) (hsize : 0 < stackSize) (hk : Owns poolSize s k)
    (hk' : Owns poolSize s k') (he : (s.pool.cor k).stackPtr = (s.pool.cor k').stackPtr) : k = k' := by
  by_cases hlt : k < poolSize
  · by_cases hlt' : k' < poolSize
    · rw [(h.table k hlt).2, (h.table k' hlt').2] at he
      exact blockStart_inj hsize he
    · have hused := h.overflow k' (hk'.resolve_left hlt') (Nat.le_of_not_lt hlt')
      exact absurd he (h.laid.head_ne hsize (h.table_uses hlt) hused)
  · have hused := h.overflow k (hk.resolve_left hlt) (Nat.le_of_not_lt hlt)
    by_cases hlt' : k' < poolSize
    · exact absurd he.symm (h.laid.head_ne hsize (h.table_uses hlt') hused)
    · exact h.once k (hk.resolve_left hlt) k' (hk'.resolve_left hlt') (Nat.le_of_not_lt hlt) (Nat.le_of_not_lt hlt') he

/-! ## Handing out -/

theorem new_not_mem (h : StacksKept poolSize stackSize m₀ ms s) : s.pool.cors.length ∉ s.out :=
  fun hm => Nat.lt_irrefl _ (h.out_lt _ hm)

/-- A coroutine of the table is handed out. -/
theorem dispatch (h : StacksKept poolSize stackSize m₀ ms s) {i : Nat} (hi : i < poolSize) (hout : i ∉ s.out) :
    StacksKept poolSize stackSize m₀ ms
      { pool := { s.pool with freeCors := s.pool.freeCors.set i (i, true) }, out := i :: s.out } := by
  have hcons : ∀ k ∈ i :: s.out, poolSize ≤ k → k ∈ s.out := by
    intro k hk hle
    exact (List.mem_cons.mp hk).resolve_left fun he => Nat.not_lt.mpr hle (he ▸ hi)
  refine ⟨h.poolSize_eq, h.stackSize_eq, h.memory_eq, h.laid, h.full, ?_, h.built, h.table, h.further, fun k hk => ?_,
    List.nodup_cons.mpr ⟨hout, h.nodup⟩, fun k hk hle => h.overflow k (hcons k hk hle) hle,
    fun k hk k' hk' hle hle' he => h.once k (hcons k hk hle) k' (hcons k' hk' hle') hle hle' he⟩
  · simp only [h.freeCors_eq]
    refine set_map_range (g := fun k => (k, decide (k ∈ i :: s.out))) (by simp) fun j hj => ?_
    simp [hj]
  · rcases List.mem_cons.mp hk with rfl | hk
    · exact Nat.lt_of_lt_of_le hi h.built
    · exact h.out_lt k hk

/-- A coroutine is built on a block that was free. -/
theorem build (h : StacksKept poolSize stackSize m₀ ms s) {ms' : List Memory} {p : Nat}
    (hlaid : Laid stackSize poolSize (m₀ :: ms')) (hfree : ¬Used (m₀ :: ms) p)
    (hused : ∀ q, Used ms' q ↔ Used ms q ∨ q = p) :
    StacksKept poolSize stackSize m₀ ms'
      { pool := (s.pool.buildOn (m₀ :: ms') p).2, out := s.pool.cors.length :: s.out } := by
  have hold : ∀ k < s.pool.cors.length, (s.pool.buildOn (m₀ :: ms') p).2.cor k = s.pool.cor k := by
    intro k hk
    rw [cor_buildOn, if_neg (Nat.ne_of_lt hk)]
  have hnew : (s.pool.buildOn (m₀ :: ms') p).2.cor s.pool.cors.length = { stackPtr := p } := by
    rw [cor_buildOn, if_pos rfl]
  have hout : ∀ k ∈ s.out, (s.pool.buildOn (m₀ :: ms') p).2.cor k = s.pool.cor k := fun k hk => hold k (h.out_lt k hk)
  have hother : ∀ k ∈ s.out, poolSize ≤ k → (s.pool.cor k).stackPtr ≠ p := by
    intro k hk hle he
    exact hfree (Used.cons.mpr (.inr (he ▸ h.overflow k hk hle)))
  refine ⟨h.poolSize_eq, h.stackSize_eq, rfl, hlaid, h.full, ?_, ?_, fun i hi => ?_, fun k hk => ?_, fun k hk => ?_,
    List.nodup_cons.mpr ⟨h.new_not_mem, h.nodup⟩, fun k hk hle => ?_, fun k hk k' hk' hle hle' he => ?_⟩
  · have hflags : ∀ i ∈ List.range poolSize,
        (i, decide (i ∈ s.pool.cors.length :: s.out)) = (i, decide (i ∈ s.out)) := by
      intro i hi
      have hne : i ≠ s.pool.cors.length := Nat.ne_of_lt (Nat.lt_of_lt_of_le (List.mem_range.mp hi) h.built)
      simp [hne]
    rw [List.map_congr_left hflags]
    exact h.freeCors_eq
  · exact Nat.le_trans h.built (by simp [CoroutinePool.buildOn])
  · rw [hold i (Nat.lt_of_lt_of_le hi h.built)]
    exact h.table i hi
  · rw [cor_buildOn]
    split
    · rfl
    · exact h.further k hk
  · have hlen : (s.pool.buildOn (m₀ :: ms') p).2.cors.length = s.pool.cors.length + 1 := by
      simp [CoroutinePool.buildOn]
    rw [hlen]
    rcases List.mem_cons.mp hk with rfl | hk
    · exact Nat.lt_succ_self _
    · exact Nat.lt_succ_of_lt (h.out_lt k hk)
  · rcases List.mem_cons.mp hk with rfl | hk
    · exact (hused _).mpr (.inr (by rw [hnew]))
    · rw [hout k hk]
      exact (hused _).mpr (.inl (h.overflow k hk hle))
  · rcases List.mem_cons.mp hk with rfl | hk
    · rcases List.mem_cons.mp hk' with rfl | hk'
      · rfl
      · rw [hnew, hout k' hk'] at he
        exact absurd he.symm (hother k' hk' hle')
    · rw [hout k hk] at he
      rcases List.mem_cons.mp hk' with rfl | hk'
      · rw [hnew] at he
        exact absurd he (hother k hk hle)
      · rw [hout k' hk'] at he
        exact h.once k hk k' hk' hle hle' he

theorem mallocs_disjoint (h : StacksKept poolSize stackSize m₀ ms s) (hmalloc : s.pool.Mallocs start) :
    ∀ m ∈ m₀ :: ms, Disjoint (area stackSize poolSize m.start) (area stackSize poolSize start) := by
  intro m hm
  have hcut := h.laid.cut m hm
  have hapart := hmalloc.2 m (h.memory_eq ▸ hm)
  rw [Memory.size, hcut.blockSize_eq, hcut.blockCount_eq, h.stackSize_eq, h.poolSize_eq] at hapart
  rw [Set.disjoint_left]
  intro a ha ha'
  obtain ⟨hle, hlt⟩ := Set.mem_Ico.mp ha
  obtain ⟨hle', hlt'⟩ := Set.mem_Ico.mp ha'
  omega

/-- The table has a coroutine for the caller, or a further one is built. -/
theorem get (h : StacksKept poolSize stackSize m₀ ms s) (hsize : 0 < stackSize) (hcount : 0 < poolSize)
    (hmalloc : s.pool.Mallocs start) : ∃ cor pool ms', s.pool.getCoroutineInstanse start = some (cor, pool) ∧
      cor ∉ s.out ∧ StacksKept poolSize stackSize m₀ ms' { pool := pool, out := cor :: s.out } := by
  rw [CoroutinePool.getCoroutineInstanse]
  split
  · rename_i i hi
    obtain ⟨hlt, hfree, -⟩ := List.findIdx?_eq_some_iff_getElem.mp hi
    have hin : i < poolSize := by
      rw [h.freeCors_eq, List.length_map, List.length_range] at hlt
      exact hlt
    have hentry : s.pool.freeCors[i] = (i, decide (i ∈ s.out)) := by simp [h.freeCors_eq]
    have hout : i ∉ s.out := by
      rw [hentry] at hfree
      simp only [Bool.and_eq_true, Bool.not_eq_true', decide_eq_false_iff_not] at hfree
      exact hfree.2
    rw [List.getElem?_eq_getElem hlt, hentry]
    exact ⟨i, _, ms, rfl, hout, h.dispatch hin hout⟩
  · simp only [h.memory_eq, List.drop_one, List.tail_cons, List.take_succ_cons, List.take_zero]
    split
    · rename_i tmp ms' hget
      obtain ⟨hlaid, hfree, hused⟩ := getOverflow_used hget h.laid hsize
      exact ⟨s.pool.cors.length, _, ms', rfl, h.new_not_mem, h.build hlaid hfree hused⟩
    · obtain ⟨m, hblock, hcut, hstart, huses⟩ := Memory.new_getBlock stackSize start hcount
      have hfresh := h.mallocs_disjoint hmalloc
      have hlaid := h.laid.append_new hfresh hcut hstart
      rw [h.stackSize_eq, h.poolSize_eq, hblock]
      refine ⟨s.pool.cors.length, _, ms ++ [m], rfl, h.new_not_mem, h.build hlaid ?_ fun q => ?_⟩
      · exact h.laid.fresh_not_used hsize hcount hfresh
      · rw [Used.append, Used.cons, huses]
        simp [Used]

/-! ## Giving back -/

theorem table_index (h : StacksKept poolSize stackSize m₀ ms s) {k : Nat} :
    0 ≤ (s.pool.cor k).index ∧ (s.pool.cor k).index < s.pool.poolSize ↔ k < poolSize := by
  by_cases hk : k < poolSize
  · rw [(h.table k hk).1, h.poolSize_eq]
    exact ⟨fun _ => hk, fun _ => ⟨Int.natCast_nonneg k, Int.ofNat_lt.mpr hk⟩⟩
  · rw [h.further k (Nat.le_of_not_lt hk)]
    exact ⟨fun hn => absurd hn.1 (by decide), fun hlt => absurd hlt hk⟩

theorem ret (h : StacksKept poolSize stackSize m₀ ms s) (hsize : 0 < stackSize) (hcount : 0 < poolSize)
    (hk : k ∈ s.out) : ∃ ms', StacksKept poolSize stackSize m₀ ms'
      { pool := s.pool.returnCoroutine k, out := s.out.erase k } := by
  have hsub : ∀ j ∈ s.out.erase k, j ∈ s.out := fun j hj => List.mem_of_mem_erase hj
  have honce : ∀ j ∈ s.out.erase k, ∀ j' ∈ s.out.erase k, poolSize ≤ j → poolSize ≤ j' →
      (s.pool.cor j).stackPtr = (s.pool.cor j').stackPtr → j = j' :=
    fun j hj j' hj' => h.once j (hsub j hj) j' (hsub j' hj')
  have hmem : ∀ j, j ≠ k → (j ∈ s.out.erase k ↔ j ∈ s.out) := fun j hj => List.mem_erase_of_ne hj
  by_cases hlt : k < poolSize
  · refine ⟨ms, ?_⟩
    rw [CoroutinePool.returnCoroutine, if_pos (h.table_index.mpr hlt), (h.table k hlt).1, Int.toNat_natCast]
    refine ⟨h.poolSize_eq, h.stackSize_eq, h.memory_eq, h.laid, h.full, ?_, h.built, h.table, h.further,
      fun j hj => h.out_lt j (hsub j hj), h.nodup.erase k, fun j hj => h.overflow j (hsub j hj), honce⟩
    simp only [h.freeCors_eq]
    refine modify_map_range (g := fun j => (j, decide (j ∈ s.out.erase k))) ?_ fun j hj => ?_
    · simp [h.nodup.not_mem_erase]
    · simp [hmem j hj]
  · have hle := Nat.le_of_not_lt hlt
    obtain ⟨hlaid, hused⟩ := backOverflow_used h.laid hsize hcount (h.overflow k hk hle)
    refine ⟨CoroutinePool.backOverflow (s.pool.cor k).stackPtr ms, ?_⟩
    rw [CoroutinePool.returnCoroutine, if_neg (mt h.table_index.mp hlt)]
    refine ⟨h.poolSize_eq, h.stackSize_eq, ?_, hlaid, h.full, ?_, h.built, h.table, h.further,
      fun j hj => h.out_lt j (hsub j hj), h.nodup.erase k, fun j hj hjle => ?_, honce⟩
    · simp [h.memory_eq]
    · have hflags : ∀ i ∈ List.range poolSize, (i, decide (i ∈ s.out.erase k)) = (i, decide (i ∈ s.out)) := by
        intro i hi
        have hne : i ≠ k := fun he => hlt (he ▸ List.mem_range.mp hi)
        simp [hmem i hne]
      rw [List.map_congr_left hflags]
      exact h.freeCors_eq
    · have hne : j ≠ k := fun he => h.nodup.not_mem_erase (he ▸ hj)
      refine (hused _).mpr ⟨h.overflow j (hsub j hj) hjle, fun he => hne ?_⟩
      exact h.once j (hsub j hj) k hk hjle hle he

/-! ## In and out of `CoFunction` -/

theorem cor_setIsInCoFunc (pool : CoroutinePool) (j k : Nat) (v : Bool) :
    ((pool.setIsInCoFunc k v).cor j).index = (pool.cor j).index ∧
      ((pool.setIsInCoFunc k v).cor j).stackPtr = (pool.cor j).stackPtr := by
  simp only [CoroutinePool.cor, CoroutinePool.setIsInCoFunc, List.getD_eq_getElem?_getD, List.getElem?_modify]
  cases pool.cors[j]? with
  | none => exact ⟨rfl, rfl⟩
  | some c =>
      by_cases hj : k = j
      · simp [hj]
      · simp [hj]

theorem setIsInCoFunc (h : StacksKept poolSize stackSize m₀ ms s) (k : Nat) (v : Bool) :
    StacksKept poolSize stackSize m₀ ms { s with pool := s.pool.setIsInCoFunc k v } := by
  have hcor := fun j => cor_setIsInCoFunc s.pool j k v
  refine ⟨h.poolSize_eq, h.stackSize_eq, h.memory_eq, h.laid, h.full, h.freeCors_eq, ?_, fun i hi => ?_,
    fun i hi => ?_, fun i hi => ?_, h.nodup, fun i hi hle => ?_, fun i hi j hj hle hle' he => ?_⟩
  · simpa [CoroutinePool.setIsInCoFunc] using h.built
  · rw [(hcor i).1, (hcor i).2]
    exact h.table i hi
  · rw [(hcor i).1]
    exact h.further i hi
  · simpa [CoroutinePool.setIsInCoFunc] using h.out_lt i hi
  · rw [(hcor i).2]
    exact h.overflow i hi hle
  · rw [(hcor i).2, (hcor j).2] at he
    exact h.once i hi j hj hle hle' he

end StacksKept

/-! ## The constructor -/

/-- The first memory with `i` blocks in use. -/
def firstMemory (poolSize stackSize start i : Nat) : Memory :=
  { Memory.new stackSize poolSize start with blocks := (List.range poolSize).map fun j => decide (j < i) }

/-- The pool behind `i` turns of the loop of the constructor. -/
def poolBehind (poolSize stackSize start i : Nat) : CoroutinePool where
  poolSize := poolSize
  stackSize := stackSize
  freeCors := (List.range i).map fun j => (j, false)
  memoryPool := [firstMemory poolSize stackSize start i]
  cors := (List.range i).map fun j : Nat => { index := j, stackPtr := blockStart start stackSize j }

theorem firstMemory_getBlock {i : Nat} (stackSize start : Nat) (hi : i < poolSize) :
    (firstMemory poolSize stackSize start i).getBlock =
    some (blockStart start stackSize i, firstMemory poolSize stackSize start (i + 1)) := by
  have hfree : (firstMemory poolSize stackSize start i).blocks.findIdx? (fun b => !b) = some i := by
    rw [List.findIdx?_eq_some_iff_getElem]
    refine ⟨by simpa [firstMemory] using hi, by simp [firstMemory], fun j hj => ?_⟩
    simpa [firstMemory] using hj
  have hset : (firstMemory poolSize stackSize start i).blocks.set i true =
      (firstMemory poolSize stackSize start (i + 1)).blocks := by
    refine List.ext_getElem (by simp [firstMemory]) fun j hj hj' => ?_
    by_cases hij : i = j
    · simp [firstMemory, hij]
    · rw [List.getElem_set_ne hij]
      simp only [firstMemory, List.getElem_map, List.getElem_range, decide_eq_decide]
      omega
  rw [Memory.getBlock, hfree, Option.map_some, hset]
  rfl

theorem addFree_behind {i : Nat} (hi : i < poolSize) : (poolBehind poolSize stackSize start i).addFree i =
    some (poolBehind poolSize stackSize start (i + 1)) := by
  have hblock := firstMemory_getBlock stackSize start hi
  simp [CoroutinePool.addFree, poolBehind, hblock, List.range_succ]

theorem new_eq (hfits : poolSize * stackSize < 2147483648) :
    CoroutinePool.new poolSize stackSize start = some (poolBehind poolSize stackSize start poolSize) := by
  have hzero : ({ poolSize := poolSize, stackSize := stackSize, memoryPool := [.new stackSize poolSize start] } :
      CoroutinePool) = poolBehind poolSize stackSize start 0 := by
    simp [poolBehind, firstMemory, Memory.new]
  have hloop : ∀ i ≤ poolSize, (List.range i).foldlM CoroutinePool.addFree (poolBehind poolSize stackSize start 0) =
      some (poolBehind poolSize stackSize start i) := by
    intro i hi
    induction i with
    | zero => rfl
    | succ i ih =>
        rw [List.range_succ, List.foldlM_append, ih (Nat.le_of_succ_le hi)]
        simp [addFree_behind hi]
  rw [CoroutinePool.new, if_pos hfits, hzero, hloop poolSize (Nat.le_refl _)]

theorem stacksKept_start (h : CoroutineStart poolSize stackSize s) : ∃ m₀ ms, StacksKept poolSize stackSize m₀ ms s := by
  obtain ⟨hout, start, -, hnew⟩ := h
  obtain ⟨pool, out⟩ := s
  cases hout
  have hfits := (Option.ite_none_right_eq_some.mp hnew).1
  have hpool := Option.some.inj ((new_eq hfits).symm.trans hnew)
  subst hpool
  have hcor : ∀ i < poolSize, (poolBehind poolSize stackSize start poolSize).cor i =
      { index := i, stackPtr := blockStart start stackSize i } := by
    intro i hi
    simp [CoroutinePool.cor, poolBehind, hi]
  refine ⟨firstMemory poolSize stackSize start poolSize, [], rfl, rfl, rfl, ⟨fun m hm => ?_, List.pairwise_singleton _ _⟩,
    fun i hi => ?_, ?_, ?_, fun i hi => ?_, fun k hk => ?_, nofun, List.nodup_nil, nofun, nofun⟩
  · rw [List.mem_singleton.mp hm]
    exact ⟨rfl, rfl, by simp [firstMemory]⟩
  · simp [firstMemory, hi]
  · simp [poolBehind]
  · simp [poolBehind]
  · rw [hcor i hi]
    exact ⟨rfl, rfl⟩
  · simp [CoroutinePool.cor, poolBehind, hk]

/-! ## Every run -/

theorem coroutineStep_kept {l : CoroutineStep} (h : StacksKept poolSize stackSize m₀ ms s) (hsize : 0 < stackSize)
    (hcount : 0 < poolSize) (hn : coroutineNext s l = some s') : ∃ ms', StacksKept poolSize stackSize m₀ ms' s' := by
  cases l with
  | getCoroutineInstanse start =>
      obtain ⟨hmalloc, hn⟩ := Option.ite_none_right_eq_some.mp hn
      obtain ⟨cor, pool, ms', hget, -, hkept⟩ := h.get hsize hcount hmalloc
      rw [hget] at hn
      cases hn
      exact ⟨ms', hkept⟩
  | returnCoroutine cor =>
      obtain ⟨hout, hn⟩ := Option.ite_none_right_eq_some.mp hn
      cases hn
      exact h.ret hsize hcount hout
  | setIsInCoFunc cor v =>
      obtain ⟨-, hn⟩ := Option.ite_none_right_eq_some.mp hn
      cases hn
      exact ⟨ms, h.setIsInCoFunc cor v⟩

theorem StacksKept.handedOutApart (h : StacksKept poolSize stackSize m₀ ms s) (hsize : 0 < stackSize)
    (hcount : 0 < poolSize) : HandedOutApart s where
  distinct := h.nodup
  apart cor hcor cor' hcor' hne := by
    rw [CoroutinePool.stack, CoroutinePool.stack, h.stackSize_eq]
    refine h.laid.disjoint (h.used (.inr hcor)) (h.used (.inr hcor')) fun he => hne ?_
    exact h.stackPtr_inj hsize (.inr hcor) (.inr hcor') he
  inUse cor hcor := by
    obtain ⟨m, hm, t, ht, hptr⟩ := h.used (.inr hcor)
    refine ⟨m, h.memory_eq ▸ hm, t, ht, ?_⟩
    rw [CoroutinePool.stack, h.stackSize_eq, hptr, (h.laid.cut m hm).blockSize_eq]
  succeeds start hmalloc := by
    obtain ⟨cor, pool, -, hget, -⟩ := h.get hsize hcount hmalloc
    exact ⟨cor, pool, hget⟩

/-- For all sizes from one on whose product fits in an `int`, in every run in which a hand-out is returned at most
once: the coroutines handed out have stacks of their own, and another can be handed out. -/
theorem handed_out_apart (hcount : 1 ≤ poolSize) (hsize : 1 ≤ stackSize)
    (h : Reachable coroutineNext (CoroutineStart poolSize stackSize) anyStep s) : HandedOutApart s := by
  have hkept : ∃ m₀ ms, StacksKept poolSize stackSize m₀ ms s := by
    refine h.invariant (fun _ h0 => stacksKept_start h0) fun s s' l hI _ hn => ?_
    obtain ⟨m₀, ms, hI⟩ := hI
    exact ⟨m₀, coroutineStep_kept hI hsize hcount hn⟩
  obtain ⟨m₀, ms, hkept⟩ := hkept
  exact hkept.handedOutApart hsize hcount

/-- A pool of one coroutine with a stack of 16 bytes. -/
def onePool : CoroutineRun := { pool := poolBehind 1 16 4096 1 }

theorem onePool_start : CoroutineStart 1 16 onePool := ⟨rfl, 4096, by decide, new_eq (by decide)⟩

/-- The table is used up, and the block of a further coroutine is used again. -/
def usedAgain : List CoroutineStep :=
  [.getCoroutineInstanse 8192, .getCoroutineInstanse 8192, .returnCoroutine 1, .getCoroutineInstanse 12288]

theorem handed_out_apart_used_again : ∃ s : CoroutineRun, s.out = [2, 0] ∧ (s.pool.cor 2).stackPtr = 8192 ∧
    HandedOutApart s := by
  obtain ⟨s, hs, hout, hptr⟩ : ∃ s, runLabels coroutineNext onePool usedAgain = some s ∧ s.out = [2, 0] ∧
      (s.pool.cor 2).stackPtr = 8192 := ⟨_, rfl, by decide, by decide⟩
  exact ⟨s, hout, hptr, handed_out_apart (by decide) (by decide) ((Reachable.start onePool_start).of_run hs)⟩

end Tirpc
