import Tirpc.Coroutine.Theorems.Pool

/-!
# Stacks that are used again

A coroutine of the table is passed over while it is inside `CoFunction`. A further coroutine gives its block back
when it is returned, wherever it is, and the next one may be built on it.
-/

namespace Tirpc

open Lib

variable {poolSize stackSize start k k' : Nat} {s s' : CoroutineRun} {m₀ : Memory} {ms : List Memory}
  {pool pool' : CoroutinePool}

/-- What is handed out next does not have the stack of another coroutine that is inside `CoFunction`. -/
def HandsOutFree (s : CoroutineRun) : Prop :=
  ∀ start cor pool, s.pool.Mallocs start → s.pool.getCoroutineInstanse start = some (cor, pool) →
    ∀ cor', cor' ≠ cor → (pool.cor cor').isInCoFunc = true → (pool.cor cor').stackPtr ≠ (pool.cor cor).stackPtr

/-- A coroutine that is not from the table is out of `CoFunction` when it is returned, and enters it only while it
is handed out. -/
def LeavesFirst (s : CoroutineRun) : CoroutineStep → Prop
  | .returnCoroutine cor => (s.pool.cor cor).isInCoFunc = true → 0 ≤ (s.pool.cor cor).index
  | .setIsInCoFunc cor v => v = true → 0 ≤ (s.pool.cor cor).index ∨ cor ∈ s.out
  | .getCoroutineInstanse _ => True

instance (s : CoroutineRun) : (l : CoroutineStep) → Decidable (LeavesFirst s l)
  | .returnCoroutine cor =>
      inferInstanceAs (Decidable ((s.pool.cor cor).isInCoFunc = true → 0 ≤ (s.pool.cor cor).index))
  | .setIsInCoFunc cor v => inferInstanceAs (Decidable (v = true → 0 ≤ (s.pool.cor cor).index ∨ cor ∈ s.out))
  | .getCoroutineInstanse _ => inferInstanceAs (Decidable True)

/-! ## Who is inside `CoFunction` -/

/-- A coroutine of the table is handed out, or a further one is built. -/
theorem getCoroutineInstanse_cases (hget : pool.getCoroutineInstanse start = some (k', pool')) :
    (∃ freeCors, pool' = { pool with freeCors := freeCors }) ∨ ∃ ms block, pool' = (pool.buildOn ms block).2 := by
  rw [CoroutinePool.getCoroutineInstanse] at hget
  split at hget
  · obtain ⟨e, -, he⟩ := Option.map_eq_some_iff.mp hget
    cases he
    exact .inl ⟨_, rfl⟩
  · split at hget
    · exact .inr ⟨_, _, (congrArg Prod.snd (Option.some.inj hget)).symm⟩
    · obtain ⟨⟨block, m⟩, -, he⟩ := Option.map_eq_some_iff.mp hget
      exact .inr ⟨_, _, (congrArg Prod.snd he).symm⟩

/-- Handing a coroutine out puts none inside. -/
theorem get_inside (hget : pool.getCoroutineInstanse start = some (k', pool'))
    (h : (pool'.cor k).isInCoFunc = true) : (pool.cor k).isInCoFunc = true := by
  rcases getCoroutineInstanse_cases hget with ⟨freeCors, rfl⟩ | ⟨ms, block, rfl⟩
  · exact h
  · rw [cor_buildOn] at h
    split at h
    · cases h
    · exact h

theorem returnCoroutine_cor : (pool.returnCoroutine k').cor k = pool.cor k := by
  rw [CoroutinePool.returnCoroutine]
  split <;> rfl

theorem setIsInCoFunc_inside {v : Bool} (hk : k' < pool.cors.length) :
    ((pool.setIsInCoFunc k' v).cor k).isInCoFunc = if k' = k then v else (pool.cor k).isInCoFunc := by
  simp only [CoroutinePool.cor, CoroutinePool.setIsInCoFunc, List.getD_eq_getElem?_getD, List.getElem?_modify]
  split
  · rename_i he
    subst he
    rw [List.getElem?_eq_getElem hk]
    rfl
  · rw [Option.map_eq_map, Option.map_id']

/-! ## Every run -/

/-- Who is inside `CoFunction` is of the table, or handed out. -/
structure InsideOwns (poolSize stackSize : Nat) (m₀ : Memory) (ms : List Memory) (s : CoroutineRun) : Prop where
  kept : StacksKept poolSize stackSize m₀ ms s
  owns : ∀ k, (s.pool.cor k).isInCoFunc = true → StacksKept.Owns poolSize s k

theorem StacksKept.lt_of_index (h : StacksKept poolSize stackSize m₀ ms s) (hk : 0 ≤ (s.pool.cor k).index) :
    k < poolSize := by
  by_contra hle
  rw [h.further k (Nat.le_of_not_lt hle)] at hk
  exact absurd hk (by decide)

theorem coroutineStart_outside (h : CoroutineStart poolSize stackSize s) (k : Nat) :
    (s.pool.cor k).isInCoFunc = false := by
  obtain ⟨-, start, -, hnew⟩ := h
  have hpool := Option.some.inj ((new_eq (Option.ite_none_right_eq_some.mp hnew).1).symm.trans hnew)
  rw [← hpool]
  simp only [CoroutinePool.cor, poolBehind, List.getD_eq_getElem?_getD, List.getElem?_map]
  cases (List.range poolSize)[k]? <;> rfl

theorem InsideOwns.step {l : CoroutineStep} (h : InsideOwns poolSize stackSize m₀ ms s) (hsize : 0 < stackSize)
    (hcount : 0 < poolSize) (hok : LeavesFirst s l) (hn : coroutineNext s l = some s') :
    ∃ ms', InsideOwns poolSize stackSize m₀ ms' s' := by
  obtain ⟨ms', hkept⟩ := coroutineStep_kept h.kept hsize hcount hn
  refine ⟨ms', hkept, fun k hin => ?_⟩
  cases l with
  | getCoroutineInstanse start =>
      obtain ⟨-, hn⟩ := Option.ite_none_right_eq_some.mp hn
      obtain ⟨⟨cor, pool⟩, hget, he⟩ := Option.map_eq_some_iff.mp hn
      cases he
      exact (h.owns k (get_inside hget hin)).imp_right (List.mem_cons_of_mem cor)
  | returnCoroutine cor =>
      obtain ⟨-, hn⟩ := Option.ite_none_right_eq_some.mp hn
      cases hn
      rw [returnCoroutine_cor] at hin
      rcases h.owns k hin with hlt | hout
      · exact .inl hlt
      · by_cases hk : k = cor
        · subst hk
          exact .inl (h.kept.lt_of_index (hok hin))
        · exact .inr ((List.mem_erase_of_ne hk).mpr hout)
  | setIsInCoFunc cor v =>
      obtain ⟨hcor, hn⟩ := Option.ite_none_right_eq_some.mp hn
      cases hn
      rw [setIsInCoFunc_inside hcor] at hin
      split at hin
      · rename_i he
        exact he ▸ (hok hin).imp_left h.kept.lt_of_index
      · exact h.owns k hin

theorem InsideOwns.handsOutFree (h : InsideOwns poolSize stackSize m₀ ms s) (hsize : 0 < stackSize)
    (hcount : 0 < poolSize) : HandsOutFree s := by
  intro start cor pool hmalloc hget cor' hne hin he
  obtain ⟨cor₁, pool₁, ms', hget₁, -, hkept⟩ := h.kept.get hsize hcount hmalloc
  cases hget.symm.trans hget₁
  have howns : StacksKept.Owns poolSize { pool := pool, out := cor :: s.out } cor' :=
    (h.owns cor' (get_inside hget hin)).imp_right (List.mem_cons_of_mem cor)
  exact hne (hkept.stackPtr_inj hsize howns (.inr List.mem_cons_self) he)

/-- In every run in which the coroutines that are not from the table leave `CoFunction` before they are returned, no
stack is handed out that is in use. -/
theorem hands_out_free (hcount : 1 ≤ poolSize) (hsize : 1 ≤ stackSize)
    (h : Reachable coroutineNext (CoroutineStart poolSize stackSize) LeavesFirst s) : HandsOutFree s := by
  have hinside : ∃ m₀ ms, InsideOwns poolSize stackSize m₀ ms s := by
    refine h.invariant (I := fun s => ∃ m₀ ms, InsideOwns poolSize stackSize m₀ ms s) (fun s h0 => ?_)
      fun s s' l hI hok hn => ?_
    · obtain ⟨m₀, ms, hkept⟩ := stacksKept_start h0
      exact ⟨m₀, ms, hkept, fun k hin => absurd ((coroutineStart_outside h0 k).symm.trans hin) (by decide)⟩
    · obtain ⟨m₀, ms, hI⟩ := hI
      exact ⟨m₀, hI.step hsize hcount hok hn⟩
  obtain ⟨m₀, ms, hinside⟩ := hinside
  exact hinside.handsOutFree hsize hcount

/-- The further coroutine leaves `CoFunction`, and another is built on its block. -/
def leavesFirst : List CoroutineStep :=
  [.getCoroutineInstanse 8192, .getCoroutineInstanse 8192, .setIsInCoFunc 1 true, .setIsInCoFunc 1 false,
    .returnCoroutine 1]

theorem hands_out_free_leaves : ∃ s : CoroutineRun, s.out = [0] ∧ HandsOutFree s := by
  obtain ⟨s, hs, hout⟩ : ∃ s, runLabels coroutineNext onePool leavesFirst = some s ∧ s.out = [0] :=
    ⟨_, rfl, by decide⟩
  have hok : RunOk coroutineNext LeavesFirst onePool leavesFirst := by decide
  exact ⟨s, hout, hands_out_free (by decide) (by decide) ((Reachable.start onePool_start).of_runOk hok hs)⟩

/-- A further coroutine is returned while it is inside `CoFunction`. -/
def returnedInside : List CoroutineStep :=
  [.getCoroutineInstanse 8192, .getCoroutineInstanse 8192, .setIsInCoFunc 1 true, .returnCoroutine 1]

theorem stack_used_twice : ∃ s : CoroutineRun,
    Reachable coroutineNext (CoroutineStart 1 16) anyStep s ∧ ¬HandsOutFree s := by
  obtain ⟨s, hs, hfresh, hget⟩ : ∃ s, runLabels coroutineNext onePool returnedInside = some s ∧
      s.pool.Mallocs 12288 ∧ ∃ pool, s.pool.getCoroutineInstanse 12288 = some (2, pool) ∧
        (pool.cor 1).isInCoFunc = true ∧ (pool.cor 1).stackPtr = (pool.cor 2).stackPtr :=
    ⟨_, rfl, by decide, _, rfl, by decide, by decide⟩
  obtain ⟨pool, hget, hin, hptr⟩ := hget
  exact ⟨s, (Reachable.start onePool_start).of_run hs, fun h => h 12288 2 pool hfresh hget 1 (by decide) hin hptr⟩

end Tirpc
