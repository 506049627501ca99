import Tirpc.Common.ThreadPool
import Tirpc.Lib.Exclusive

/-!
# Each task once

A worker reads the front of the queue inside the lock and removes it outside. When no worker reads while
another stands between the two, the front that is removed is the one that has been read, and a task is at any
time in the queue, with one worker, or among those that ran.
-/

namespace Tirpc

open Lib

variable {W : Type} {s s' : ThreadPool W} {worker : W} {cb : Nat}

/-- No task has run twice, and each removal took the task that its worker had read. -/
structure EachOnce (s : ThreadPool W) : Prop where
  ranOnce : (s.ran.map Prod.snd).Nodup
  removedRead : ∀ r ∈ s.removed, r.front = some r.read

def WorkerPlace.isPopping : WorkerPlace → Bool
  | .popping _ => true
  | _ => false

/-- The front is not read while a worker is about to remove it. -/
def ReadsAlone (s : ThreadPool W) : PoolStep W → Prop
  | .read _ => ∀ worker, (s.places worker).isPopping = false
  | _ => True

/-! ## Where the tasks are -/

inductive TaskHolder (W : Type) where
  | queue
  | worker (w : W)
  | ran
  deriving DecidableEq

def WorkerPlace.held : WorkerPlace → List Nat
  | .calling cb => [cb]
  | _ => []

def ThreadPool.held (s : ThreadPool W) : TaskHolder W → List Nat
  | .queue => s.tasks
  | .worker w => (s.places w).held
  | .ran => s.ran.map Prod.snd

structure TasksApart (s : ThreadPool W) : Prop where
  once : Exclusive s.held
  numbered : ∀ p, ∀ task ∈ s.held p, task < s.added
  popping : ∀ worker cb, s.places worker = .popping cb → s.tasks.head? = some cb
  alone : ∀ w w' cb cb', s.places w = .popping cb → s.places w' = .popping cb' → w = w'
  removedRead : ∀ r ∈ s.removed, r.front = some r.read

theorem ReadsAlone.not_popping (h : ReadsAlone s (.read worker)) (w : W) (cb : Nat) : s.places w ≠ .popping cb := by
  intro hp
  have hw := h w
  rw [hp] at hw
  cases hw

theorem TasksApart.eachOnce (h : TasksApart s) : EachOnce s := ⟨h.once.nodup .ran, h.removedRead⟩

variable [DecidableEq W]

theorem held_addTask : s.addTask.held = Function.update s.held .queue (s.tasks ++ [s.added]) := by
  funext p
  cases p <;> rfl

theorem TasksApart.addTask (h : TasksApart s) : TasksApart s.addTask where
  once := by
    rw [held_addTask]
    exact h.once.push fun p hm => Nat.lt_irrefl _ (h.numbered p _ hm)
  numbered p task hm := by
    rw [held_addTask] at hm
    rcases Exclusive.mem_push hm with ⟨-, rfl⟩ | hm
    · exact Nat.lt_succ_self _
    · exact Nat.lt_succ_of_lt (h.numbered p task hm)
  popping worker cb hp := by
    have hhead := h.popping worker cb hp
    rw [ThreadPool.addTask, List.head?_append, hhead]
    rfl
  alone := h.alone
  removedRead := h.removedRead

theorem places_goto {place place' : WorkerPlace} {w : W} (hp : (s.goto worker place).places w = place') :
    w = worker ∧ place' = place ∨ w ≠ worker ∧ s.places w = place' := by
  simp only [ThreadPool.goto] at hp
  by_cases hw : w = worker
  · rw [hw, Function.update_self] at hp
    exact .inl ⟨hw, hp.symm⟩
  · rw [Function.update_of_ne hw] at hp
    exact .inr ⟨hw, hp⟩

/-- A worker goes on to a place where it holds what it held. -/
theorem TasksApart.goto {place : WorkerPlace} (h : TasksApart s) (hheld : place.held = (s.places worker).held)
    (hplace : ∀ cb, place = .popping cb → s.tasks.head? = some cb ∧ ReadsAlone s (.read worker)) :
    TasksApart (s.goto worker place) := by
  have hsame : (s.goto worker place).held = s.held := by
    funext p
    cases p with
    | queue => rfl
    | ran => rfl
    | worker w =>
        by_cases hw : w = worker
        · simp [ThreadPool.held, ThreadPool.goto, hw, hheld]
        · simp [ThreadPool.held, ThreadPool.goto, hw]
  refine ⟨hsame ▸ h.once, hsame ▸ h.numbered, fun w cb hp => ?_, fun w w' cb cb' hp hp' => ?_, h.removedRead⟩
  · rcases places_goto hp with ⟨-, he⟩ | ⟨-, hp⟩
    · exact (hplace cb he.symm).1
    · exact h.popping w cb hp
  · rcases places_goto hp with ⟨rfl, he⟩ | ⟨-, hold⟩
    · rcases places_goto hp' with ⟨rfl, -⟩ | ⟨-, hold'⟩
      · rfl
      · exact absurd hold' ((hplace cb he.symm).2.not_popping w' cb')
    · rcases places_goto hp' with ⟨rfl, he⟩ | ⟨-, hold'⟩
      · exact absurd hold ((hplace cb' he.symm).2.not_popping w cb)
      · exact h.alone w w' cb cb' hold hold'

theorem held_pop {rest : List Nat} (hplace : s.places worker = .popping cb) (htasks : s.tasks = cb :: rest) :
    (s.pop worker cb).held =
      Function.update (Function.update s.held .queue rest) (.worker worker) (s.held (.worker worker) ++ [cb]) := by
  funext p
  cases p with
  | queue => simp [ThreadPool.held, ThreadPool.pop, ThreadPool.goto, htasks]
  | ran => simp [ThreadPool.held, ThreadPool.pop, ThreadPool.goto]
  | worker w =>
      by_cases hw : w = worker
      · simp [ThreadPool.held, ThreadPool.pop, ThreadPool.goto, WorkerPlace.held, hw, hplace]
      · simp [ThreadPool.held, ThreadPool.pop, ThreadPool.goto, hw]

theorem TasksApart.pop (h : TasksApart s) (hplace : s.places worker = .popping cb) :
    TasksApart (s.pop worker cb) := by
  obtain ⟨rest, htasks⟩ := List.head?_eq_some_iff.mp (h.popping worker cb hplace)
  have hqueue : s.held .queue = [cb] ++ rest := htasks
  have hne : TaskHolder.queue ≠ TaskHolder.worker worker := nofun
  have hother : ∀ w cb', (s.pop worker cb).places w ≠ .popping cb' := by
    intro w cb' hp
    rcases places_goto hp with ⟨-, he⟩ | ⟨hw, hp⟩
    · cases he
    · exact hw (h.alone w worker cb' cb hp hplace)
  refine ⟨?_, fun p task hm => ?_, fun w cb' hp => absurd hp (hother w cb'),
    fun w w' cb' _ hp _ => absurd hp (hother w cb'), fun r hr => ?_⟩
  · rw [held_pop hplace htasks]
    exact h.once.move hqueue hne
  · rw [held_pop hplace htasks] at hm
    rcases Exclusive.mem_move hqueue hne hm with ⟨hm, -⟩ | ⟨-, hm⟩
    · exact h.numbered p task hm
    · exact h.numbered .queue task (hqueue ▸ List.mem_append_left rest hm)
  · rcases List.mem_append.mp hr with hr | hr
    · exact h.removedRead r hr
    · rw [List.mem_singleton.mp hr]
      simp [htasks]

theorem held_call :
    (s.call worker cb).held =
      Function.update (Function.update s.held (.worker worker) []) .ran (s.held .ran ++ [cb]) := by
  funext p
  cases p with
  | queue => simp [ThreadPool.held, ThreadPool.call, ThreadPool.goto]
  | ran => simp [ThreadPool.held, ThreadPool.call, ThreadPool.goto]
  | worker w =>
      by_cases hw : w = worker
      · simp [ThreadPool.held, ThreadPool.call, ThreadPool.goto, WorkerPlace.held, hw]
      · simp [ThreadPool.held, ThreadPool.call, ThreadPool.goto, hw]

theorem TasksApart.call (h : TasksApart s) (hplace : s.places worker = .calling cb) :
    TasksApart (s.call worker cb) := by
  have hworker : s.held (.worker worker) = [cb] ++ [] := by simp [ThreadPool.held, WorkerPlace.held, hplace]
  have hne : TaskHolder.worker worker ≠ TaskHolder.ran := nofun
  have hpop : ∀ w cb', (s.call worker cb).places w = .popping cb' →
      s.places w = .popping cb' := by
    intro w cb' hp
    rcases places_goto hp with ⟨-, he⟩ | ⟨-, hp⟩
    · cases he
    · exact hp
  refine ⟨?_, fun p task hm => ?_, fun w cb' hp => h.popping w cb' (hpop w cb' hp),
    fun w w' cb' cb'' hp hp' => h.alone w w' cb' cb'' (hpop w cb' hp) (hpop w' cb'' hp'), h.removedRead⟩
  · rw [held_call]
    exact h.once.move hworker hne
  · rw [held_call] at hm
    rcases Exclusive.mem_move hworker hne hm with ⟨hm, -⟩ | ⟨-, hm⟩
    · exact h.numbered p task hm
    · exact h.numbered (.worker worker) task (hworker ▸ List.mem_append_left [] hm)

theorem poolStep_apart {l : PoolStep W} (h : TasksApart s) (hok : ReadsAlone s l) (hn : poolNext s l = some s') :
    TasksApart s' := by
  cases l with
  | addTask =>
      cases hn
      exact h.addTask
  | stop =>
      cases hn
      exact ⟨h.once, h.numbered, h.popping, h.alone, h.removedRead⟩
  | check worker =>
      simp only [poolNext] at hn
      split at hn
      · rename_i hplace
        cases hn
        refine h.goto ?_ fun cb hcb => ?_
        · rw [hplace]
          split <;> rfl
        · split at hcb <;> cases hcb
      · cases hn
  | read worker =>
      simp only [poolNext] at hn
      split at hn
      · rename_i cb rest hplace htasks
        cases hn
        refine h.goto (by rw [hplace]; rfl) fun cb' hcb => ⟨?_, hok⟩
        cases hcb
        rw [htasks]
        rfl
      · cases hn
  | pop worker =>
      simp only [poolNext] at hn
      split at hn
      · rename_i cb hplace
        cases hn
        exact h.pop hplace
      · cases hn
  | call worker =>
      simp only [poolNext] at hn
      split at hn
      · rename_i cb hplace
        cases hn
        exact h.call hplace
      · cases hn

/-- In every run in which the front is read alone, no task runs twice, and nothing else is removed than what
has been read. -/
theorem tasks_run_once (h : Reachable poolNext PoolStart ReadsAlone s) : EachOnce s := by
  refine (h.invariant (I := TasksApart) ?_ fun _ _ _ hI hok hn => poolStep_apart hI hok hn).eachOnce
  rintro s rfl
  refine ⟨?_, ?_, ?_, ?_, ?_⟩
  · have hnil : (({} : ThreadPool W).held) = fun _ => [] := by
      funext p
      cases p <;> rfl
    rw [hnil]
    exact Exclusive.nil
  · intro p task hm
    cases p <;> cases hm
  · intro worker cb hp
    cases hp
  · intro w w' cb cb' hp
    cases hp
  · intro r hr
    cases hr

/-- Two workers take two tasks, one after the other. -/
def inTurn : List (PoolStep Bool) :=
  [.addTask, .addTask, .check true, .check false, .read true, .pop true, .read false, .pop false, .call true,
    .call false]

instance (s : ThreadPool Bool) : (l : PoolStep Bool) → Decidable (ReadsAlone s l)
  | .read _ => inferInstanceAs (Decidable (∀ worker, (s.places worker).isPopping = false))
  | .addTask | .stop | .check _ | .pop _ | .call _ => inferInstanceAs (Decidable True)

theorem tasks_run_once_two : ∃ s : ThreadPool Bool, s.ran = [(true, 0), (false, 1)] ∧ EachOnce s := by
  obtain ⟨s, hs, hran⟩ : ∃ s, runLabels poolNext {} inTurn = some s ∧ s.ran = [(true, 0), (false, 1)] :=
    ⟨_, rfl, rfl⟩
  have hok : RunOk poolNext ReadsAlone ({} : ThreadPool Bool) inTurn := by decide
  exact ⟨s, hran, tasks_run_once ((Reachable.start poolStart_new).of_runOk hok hs)⟩

/-- Both workers read the only task before either removes it. -/
def bothRead : List (PoolStep Bool) :=
  [.addTask, .check true, .check false, .read true, .read false, .pop true, .pop false, .call true, .call false]

theorem task_runs_twice : ∃ s : ThreadPool Bool, Reachable poolNext PoolStart anyStep s ∧ ¬EachOnce s := by
  obtain ⟨s, hs, hran⟩ : ∃ s, runLabels poolNext {} bothRead = some s ∧ s.ran = [(true, 0), (false, 0)] :=
    ⟨_, rfl, rfl⟩
  refine ⟨s, (Reachable.start poolStart_new).of_run hs, fun h => ?_⟩
  have hnodup := h.ranOnce
  rw [hran] at hnodup
  exact absurd hnodup (by decide)

end Tirpc
