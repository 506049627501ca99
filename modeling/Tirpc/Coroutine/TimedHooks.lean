import Mathlib.Logic.Function.Basic
import Tirpc.Base.Timer

/-!
# Calls that wait for the timer (`coroutine_hook.cpp`)

`sleep_hook` and `connect_hook` add an event to the timer of the reactor and yield. The callback of the event sets
`is_timeout` on the stack of the call and resumes the coroutine; an event of a descriptor may resume it as well.
-/

namespace Tirpc

open Lib

inductive TimedCallKind where
  /-- `since` is when the event was made. -/
  | sleep (seconds : UInt32) (since : Int)
  | connect
  deriving DecidableEq, Repr

/-- A call that has yielded. -/
structure TimedCall (E : Type) where
  event : E
  kind : TimedCallKind
  isTimeout : Bool := false
  deriving DecidableEq, Repr

/-- A `sleep` that has returned. -/
structure Slept where
  seconds : UInt32
  since : Int
  till : Int
  deriving DecidableEq, Repr

/-- The coroutines `C` of a thread, and the timer of its reactor. `owner` is what the callback of an event has captured,
and `late` are the callbacks that were run when their call had returned. -/
structure TimedHooks (C E : Type) where
  timer : TimerState E
  maxConnectTimeout : Int := 75
  calls : C → Option (TimedCall E) := fun _ => none
  owner : E → Option C := fun _ => none
  slept : List Slept := []
  late : List E := []

inductive TimedHookStep (C E : Type) where
  | sleep (cor : C) (seconds : UInt32) (event : E) (now : Int)
  /-- The system call has answered `EINPROGRESS`. -/
  | connect (cor : C) (event : E) (now : Int)
  /-- By an event of a descriptor. -/
  | resume (cor : C)
  | timer (step : TimerStep E)

namespace TimedHooks

variable {C E : Type} [DecidableEq C] [DecidableEq E]

def delTimerEvent (s : TimedHooks C E) (event : E) : TimedHooks C E :=
  { s with timer := { s.timer with timer := s.timer.timer.delTimerEvent event } }

def setCall (s : TimedHooks C E) (cor : C) (call : Option (TimedCall E)) : TimedHooks C E :=
  { s with calls := Function.update s.calls cor call }

/-- A new event of this interval, and `Yield`. -/
def wait (s : TimedHooks C E) (cor : C) (event : E) (interval now : Int) (kind : TimedCallKind) : TimedHooks C E :=
  let timer := s.timer.timer.update event fun _ => { arriveTime := now + interval, interval := interval }
  { s with
    timer := { timer := timer.addTimerEvent event true now, now := now }
    owner := Function.update s.owner event (some cor) }.setCall cor (some { event := event, kind := kind })

/-- Behind `Yield`. A `sleep` whose time is not over yields again. -/
def goOn (s : TimedHooks C E) (cor : C) (call : TimedCall E) : TimedHooks C E :=
  match call.kind with
  | .sleep seconds since =>
      if call.isTimeout then
        { s.setCall cor none with slept := s.slept ++ [{ seconds := seconds, since := since, till := s.timer.now }] }
      else s.setCall cor (some call)
  | .connect => (s.delTimerEvent call.event).setCall cor none

/-- The callback of an event of `cor`: the call that it was made for may be over. Then `is_timeout` is on a dead stack,
and what is written there is left out. -/
def timeoutCb (s : TimedHooks C E) (event : E) (cor : C) : TimedHooks C E :=
  match s.calls cor with
  | some call =>
      if call.event = event then s.goOn cor { call with isTimeout := true }
      else { s.goOn cor call with late := s.late ++ [event] }
  | none => { s with late := s.late ++ [event] }

def Fresh (s : TimedHooks C E) (event : E) : Prop :=
  s.owner event = none ∧ event ∉ s.timer.timer.pendingEvents.map Prod.snd ∧ event ∉ s.timer.timer.tasks

instance (s : TimedHooks C E) (event : E) : Decidable (s.Fresh event) := inferInstanceAs (Decidable (_ ∧ _ ∧ _))

/-- The events of the calls are known to no one else. -/
def timerStep (s : TimedHooks C E) (l : TimerStep E) : Option (TimedHooks C E) :=
  let next := (timerNext s.timer l).map fun timer => { s with timer := timer }
  match l with
  | .add event _ => if s.owner event = none then next else none
  | .del event => if s.owner event = none then next else none
  | .startTask =>
      match s.timer.timer.tasks with
      | [] => none
      | event :: _ => next.map fun s' => (s.owner event).elim s' (s'.timeoutCb event)
  | _ => next

end TimedHooks

variable {C E : Type} [DecidableEq C] [DecidableEq E]

def timedHookNext (s : TimedHooks C E) : TimedHookStep C E → Option (TimedHooks C E)
  | .sleep cor seconds event now =>
      if s.calls cor = none ∧ s.Fresh event ∧ s.timer.now ≤ now then
        some (s.wait cor event (1000 * seconds).toNat now (.sleep seconds now))
      else none
  | .connect cor event now =>
      if s.calls cor = none ∧ s.Fresh event ∧ s.timer.now ≤ now then
        some (s.wait cor event s.maxConnectTimeout now .connect)
      else none
  | .resume cor => (s.calls cor).map (s.goOn cor)
  | .timer step => s.timerStep step

def TimedHookStart (s : TimedHooks C E) : Prop :=
  TimerStart s.timer ∧ s.calls = (fun _ => none) ∧ s.owner = (fun _ => none) ∧ s.slept = [] ∧ s.late = []

end Tirpc
