import Mathlib.Logic.Function.Basic
import Tirpc.Lib.Transition

/-!
# The thread pool (`thread_pool.cpp`)

A task is named by the number of the call of `AddTask` that added it. A step of a worker is what it does
inside the lock, or between two places where another thread can see the difference. Waking up is not
modelled: a worker that waits may go on when there is a task.
-/

namespace Tirpc

open Lib

/-- The place of a worker in `MainFunction`, with its local `cb`. -/
inductive WorkerPlace where
  | loop
  /-- Behind the check of `stop_`. -/
  | waiting
  /-- Behind `Unlock`. -/
  | popping (cb : Nat)
  | calling (cb : Nat)
  | ended
  deriving DecidableEq, Repr

/-- A call of `pop`: the worker, the task that it has read, and the front of the queue that it removes. -/
structure Removal (W : Type) where
  worker : W
  read : Nat
  front : Option Nat

/-- `removed` and `ran` record the calls of `pop` and the tasks that workers have called. -/
structure ThreadPool (W : Type) where
  tasks : List Nat := []
  added : Nat := 0
  stop : Bool := false
  places : W → WorkerPlace := fun _ => .loop
  removed : List (Removal W) := []
  ran : List (W × Nat) := []

inductive PoolStep (W : Type) where
  | addTask
  | stop
  | check (worker : W)
  /-- The locked section: the wait is over, and the front is read. -/
  | read (worker : W)
  | pop (worker : W)
  | call (worker : W)

namespace ThreadPool

variable {W : Type} [DecidableEq W]

def goto (s : ThreadPool W) (worker : W) (place : WorkerPlace) : ThreadPool W :=
  { s with places := Function.update s.places worker place }

def addTask (s : ThreadPool W) : ThreadPool W := { s with tasks := s.tasks ++ [s.added], added := s.added + 1 }

def pop (s : ThreadPool W) (worker : W) (cb : Nat) : ThreadPool W :=
  { s with
    tasks := s.tasks.tail
    removed := s.removed ++ [Removal.mk worker cb s.tasks.head?] }.goto worker (.calling cb)

def call (s : ThreadPool W) (worker : W) (cb : Nat) : ThreadPool W :=
  { s with ran := s.ran ++ [(worker, cb)] }.goto worker .loop

end ThreadPool

def poolNext {W : Type} [DecidableEq W] (s : ThreadPool W) : PoolStep W → Option (ThreadPool W)
  | .addTask => some s.addTask
  | .stop => some { s with stop := true }
  | .check worker =>
      match s.places worker with
      | .loop => some (s.goto worker (if s.stop then .ended else .waiting))
      | _ => none
  | .read worker =>
      match s.places worker, s.tasks with
      | .waiting, cb :: _ => some (s.goto worker (.popping cb))
      | _, _ => none
  | .pop worker =>
      match s.places worker with
      | .popping cb => some (s.pop worker cb)
      | _ => none
  | .call worker =>
      match s.places worker with
      | .calling cb => some (s.call worker cb)
      | _ => none

def PoolStart {W : Type} (s : ThreadPool W) : Prop := s = {}

theorem poolStart_new {W : Type} : PoolStart ({} : ThreadPool W) := rfl

end Tirpc
