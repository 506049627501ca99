import Tirpc.Common.Mutex

/-!
# Mutual exclusion and wake-ups

`Unlock` clears the flag when it hands the mutex over, and nothing sets it again for the sleeper that
is woken. So the mutex looks free from the hand-over until that sleeper unlocks: a newcomer walks in,
and the sleeper's own `Unlock`, which finds the flag clear, wakes nobody.
-/

namespace Tirpc

open Lib

variable {C R : Type} {s s' : CoroutineMutex C R}

theorem mutexNext_resume [DecidableEq C] [DecidableEq R] {reactor : R} (h : mutexNext s (.resume reactor) = some s') :
    ∃ cor, (reactor, cor) ∈ s.pendingTasks ∧ s' = { s with
      pendingTasks := s.pendingTasks.eraseP fun t => t.1 = reactor
      holders := cor :: s.holders
      acquired := s.acquired ++ [cor] } := by
  simp only [mutexNext] at h
  split at h
  · cases h
  · rename_i r cor hfind
    cases h
    obtain rfl : r = reactor := by simpa using List.find?_some hfind
    exact ⟨cor, List.mem_of_find?_eq_some hfind, rfl⟩

theorem mutexNext_lock [DecidableEq C] [DecidableEq R] {cor : C} (h : mutexNext s (.lock cor) = some s') :
    s' = s.Lock cor := by
  simp only [mutexNext] at h
  split at h
  · cases h
  · cases h
    rfl

theorem mutexNext_unlock [DecidableEq C] [DecidableEq R] {cor : C} {reactor : R}
    (h : mutexNext s (.unlock cor reactor) = some s') :
    cor ∈ s.holders ∧ s' = s.Unlock cor reactor := by
  simp only [mutexNext] at h
  split at h
  · rename_i hc
    cases h
    exact ⟨hc.1, rfl⟩
  · cases h

/-! ## Mutual exclusion -/

def MutualExclusion (s : CoroutineMutex C R) : Prop := ∀ c ∈ s.holders, ∀ c' ∈ s.holders, c = c'

/-- The flag is clear, but the mutex has been handed to a sleeper that has not unlocked it. -/
def HandOver (s : CoroutineMutex C R) : Prop := s.lock = false ∧ (s.pendingTasks ≠ [] ∨ s.holders ≠ [])

def NoNewcomer (s : CoroutineMutex C R) : MutexStep C R → Prop
  | .lock _ => ¬HandOver s
  | _ => True

/-- One coroutine at most has the mutex or is about to get it, and with the flag set it has it. -/
structure OneOwner (s : CoroutineMutex C R) : Prop where
  length_le : s.holders.length + s.pendingTasks.length ≤ 1
  tasks_nil : s.lock = true → s.pendingTasks = []

theorem OneOwner.mutualExclusion (h : OneOwner s) : MutualExclusion s := by
  have hlen := h.length_le
  intro c hc c' hc'
  match hs : s.holders with
  | [] => rw [hs] at hc; cases hc
  | [a] =>
      rw [hs] at hc hc'
      rw [List.mem_singleton.mp hc, List.mem_singleton.mp hc']
  | _ :: _ :: _ => rw [hs] at hlen; simp only [List.length_cons] at hlen; omega

theorem OneOwner.lock (h : OneOwner s) {cor : C} (hno : ¬HandOver s) : OneOwner (s.Lock cor) := by
  simp only [CoroutineMutex.Lock]
  cases hl : s.lock with
  | false =>
      obtain ⟨ht, hh⟩ : s.pendingTasks = [] ∧ s.holders = [] := by
        simpa [HandOver, hl] using hno
      exact ⟨by simp [ht, hh], fun _ => ht⟩
  | true => exact ⟨h.length_le, fun _ => h.tasks_nil hl⟩

theorem OneOwner.unlock [DecidableEq C] (h : OneOwner s) {cor : C} {reactor : R} (hc : cor ∈ s.holders) :
    OneOwner (s.Unlock cor reactor) := by
  have hlen := h.length_le
  have herase := List.length_erase_of_mem hc
  have hpos := List.length_pos_of_mem hc
  simp only [CoroutineMutex.Unlock]
  cases hl : s.lock with
  | false => exact ⟨by simp only [Bool.false_eq_true, ↓reduceIte]; omega, by simp⟩
  | true =>
      have ht := h.tasks_nil hl
      simp only [↓reduceIte]
      split
      · exact ⟨by simp only [ht, List.length_nil]; omega, by simp⟩
      · exact ⟨by simp only [ht, List.length_append, List.length_cons, List.length_nil]; omega, by simp⟩

theorem OneOwner.resume [DecidableEq C] [DecidableEq R] (h : OneOwner s) {reactor : R}
    (hn : mutexNext s (.resume reactor) = some s') :
    OneOwner s' := by
  obtain ⟨cor, hmem, rfl⟩ := mutexNext_resume hn
  have hlen := h.length_le
  have herase := List.length_eraseP_of_mem hmem (p := fun t => decide (t.1 = reactor)) (by simp)
  have hpos := List.length_pos_of_mem hmem
  refine ⟨by simp only [List.length_cons]; omega, fun hl => ?_⟩
  exact absurd (h.tasks_nil hl) (List.ne_nil_of_mem hmem)

/-- Coroutine 2 comes between the `Unlock` of 0 and the task that resumes 1. -/
def newcomer : List (MutexStep Nat Unit) := [.lock 0, .lock 1, .unlock 0 (), .lock 2, .resume ()]

/-- Nobody is inside and somebody sleeps: then a task will resume a sleeper. -/
def NoStrandedWaiter (s : CoroutineMutex C R) : Prop :=
  s.holders = [] → s.sleepCors ≠ [] → s.pendingTasks ≠ []

def InOrder (s : CoroutineMutex C R) : Prop := s.acquired <+: s.queued

/-- `Unlock` finds the flag set, or nobody sleeps; and tasks run in the order in which they were
scheduled, on whatever reactors. -/
def WakesNext (s : CoroutineMutex C R) : MutexStep C R → Prop
  | .lock _ => True
  | .unlock _ _ => s.lock = true ∨ s.sleepCors = []
  | .resume reactor => ∀ t ∈ s.pendingTasks.head?, t.1 = reactor

/-- The sleepers so far are those that have come out, those to be resumed, and those in the queue. -/
structure WakeOrder (s : CoroutineMutex C R) : Prop where
  held : s.lock = true → s.holders ≠ []
  woken : NoStrandedWaiter s
  order : s.queued = s.acquired ++ (s.pendingTasks.map Prod.snd ++ s.sleepCors)

theorem WakeOrder.lock (h : WakeOrder s) {cor : C} : WakeOrder (s.Lock cor) := by
  simp only [CoroutineMutex.Lock]
  cases hl : s.lock with
  | false => exact ⟨fun _ => List.cons_ne_nil _ _, fun hnil => absurd hnil (List.cons_ne_nil _ _), h.order⟩
  | true =>
      refine ⟨fun _ => h.held hl, fun hnil => absurd hnil (h.held hl), ?_⟩
      simp only [Bool.not_true, Bool.false_eq_true, ↓reduceIte, h.order, List.append_assoc]

theorem WakeOrder.unlock [DecidableEq C] (h : WakeOrder s) {cor : C} {reactor : R}
    (hok : s.lock = true ∨ s.sleepCors = []) : WakeOrder (s.Unlock cor reactor) := by
  simp only [CoroutineMutex.Unlock]
  cases hl : s.lock with
  | false =>
      have hnil : s.sleepCors = [] := hok.resolve_left (by simp [hl])
      exact ⟨by simp, fun _ hne => absurd hnil (by simpa using hne), by simpa using h.order⟩
  | true =>
      simp only [↓reduceIte]
      split
      · rename_i hnil
        exact ⟨by simp, fun _ hne => absurd hnil hne, h.order⟩
      · rename_i front rest hq
        refine ⟨by simp, fun _ _ => by simp, ?_⟩
        simp only [h.order, hq, List.map_append, List.map_cons, List.map_nil, List.append_assoc,
          List.cons_append, List.nil_append]

theorem WakeOrder.resume [DecidableEq C] [DecidableEq R] (h : WakeOrder s) {reactor : R}
    (hok : ∀ t ∈ s.pendingTasks.head?, t.1 = reactor)
    (hn : mutexNext s (.resume reactor) = some s') : WakeOrder s' := by
  cases hp : s.pendingTasks with
  | nil => simp [mutexNext, hp] at hn
  | cons t rest =>
      have ht : t.1 = reactor := hok t (by simp [hp])
      simp only [mutexNext, hp, List.find?_cons, ht, decide_true, List.eraseP_cons, cond_true,
        Option.some.injEq] at hn
      subst hn
      refine ⟨fun _ => List.cons_ne_nil _ _, fun hnil => absurd hnil (List.cons_ne_nil _ _), ?_⟩
      simp only [h.order, hp, List.map_cons, List.append_assoc, List.cons_append, List.nil_append]

/-- Coroutines 1 and 2 wait for 0. Coroutine 1 is woken, and its `Unlock` finds the flag clear. -/
def threeContenders : List (MutexStep Nat Unit) :=
  [.lock 0, .lock 1, .lock 2, .unlock 0 (), .resume (), .unlock 1 ()]

end Tirpc
