import Tirpc.Lib.Transition

/-!
# The coroutine mutex (`mutex.cpp`)

Coroutines lock and unlock, and reactors run the tasks in which sleepers are resumed. `Lock` and
`Unlock` are one step each: they hold `mutex_` while they look at the flag and the queue. The main
coroutine, which the mutex turns away, is not among the coroutines.
-/

namespace Tirpc

open Lib

variable {C R : Type}

/-- The flag, the sleepers, and the tasks that will resume a sleeper, each on its reactor, in the order
in which they were scheduled. `holders` are the coroutines between the return of `Lock` and `Unlock`;
`queued` and `acquired` record who went to sleep and who has come out of it. -/
structure CoroutineMutex (C R : Type) where
  lock : Bool := false
  sleepCors : List C := []
  pendingTasks : List (R × C) := []
  holders : List C := []
  queued : List C := []
  acquired : List C := []
  deriving DecidableEq

inductive MutexStep (C R : Type) where
  | lock (cor : C)
  /-- `reactor` is the one on which `cor` runs. -/
  | unlock (cor : C) (reactor : R)
  /-- The reactor runs the first of its tasks. -/
  | resume (reactor : R)

namespace CoroutineMutex

/-- The coroutine is inside `Lock`, and can make no call. -/
def Asleep (s : CoroutineMutex C R) (cor : C) : Prop :=
  cor ∈ s.sleepCors ∨ cor ∈ s.pendingTasks.map Prod.snd

instance [DecidableEq C] (s : CoroutineMutex C R) (cor : C) : Decidable (s.Asleep cor) :=
  inferInstanceAs (Decidable (_ ∨ _))

def Lock (s : CoroutineMutex C R) (cor : C) : CoroutineMutex C R :=
  if !s.lock then { s with lock := true, holders := cor :: s.holders }
  else { s with sleepCors := s.sleepCors ++ [cor], queued := s.queued ++ [cor] }

def Unlock [DecidableEq C] (s : CoroutineMutex C R) (cor : C) (reactor : R) : CoroutineMutex C R :=
  let s := { s with holders := s.holders.erase cor }
  if s.lock then
    match s.sleepCors with
    | [] => { s with lock := false }
    | front :: rest =>
        { s with lock := false, sleepCors := rest, pendingTasks := s.pendingTasks ++ [(reactor, front)] }
  else s

end CoroutineMutex

/-- A sleeper that is resumed returns from `Lock`, with no further look at the flag. -/
def mutexNext [DecidableEq C] [DecidableEq R] (s : CoroutineMutex C R) :
    MutexStep C R → Option (CoroutineMutex C R)
  | .lock cor => if s.Asleep cor then none else some (s.Lock cor)
  | .unlock cor reactor =>
      if cor ∈ s.holders ∧ ¬s.Asleep cor then some (s.Unlock cor reactor) else none
  | .resume reactor =>
      match s.pendingTasks.find? fun t => t.1 = reactor with
      | none => none
      | some (_, cor) =>
          some { s with
            pendingTasks := s.pendingTasks.eraseP fun t => t.1 = reactor
            holders := cor :: s.holders
            acquired := s.acquired ++ [cor] }

def MutexStart (s : CoroutineMutex C R) : Prop := s = {}

theorem mutexStart_new : MutexStart ({} : CoroutineMutex C R) := rfl

end Tirpc
