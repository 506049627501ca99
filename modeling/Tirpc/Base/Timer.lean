import Mathlib.Logic.Function.Basic
import Tirpc.Lib.Transition

/-!
# The timer of a reactor (`timer.cpp`)

Times are milliseconds of one clock that does not go back: `GetNowMs` reads it, and the timerfd
expires by it. An event is shared by its owners, so its fields are a store under its identity.
-/

namespace Tirpc

open Lib

structure TimerEvent where
  arriveTime : Int
  interval : Int
  isRepeated : Bool := false
  isCanceled : Bool := false
  deriving DecidableEq, Repr

def TimerEvent.reset (e : TimerEvent) (now : Int) : TimerEvent :=
  { e with arriveTime := now + e.interval, isCanceled := false }

def TimerEvent.cancel (e : TimerEvent) : TimerEvent := { e with isCanceled := true }

def TimerEvent.cancelRepeated (e : TimerEvent) : TimerEvent := { e with isRepeated := false }

/-- The pending events in the order of the multimap, the expiry that the timerfd is set to, and the
tasks that `OnTimer` has collected and not started. -/
structure Timer (E : Type) where
  events : E → TimerEvent
  pendingEvents : List (Int × E) := []
  expiry : Option Int := none
  tasks : List E := []

namespace Timer

variable {E : Type}

/-- `multimap::emplace`: behind the entries with the same key. -/
def emplace (k : Int) (event : E) (l : List (Int × E)) : List (Int × E) :=
  l.takeWhile (fun p => p.1 ≤ k) ++ (k, event) :: l.dropWhile (fun p => p.1 ≤ k)

/-- The last entry decides. A distance of zero disarms the timerfd. -/
def resetArriveTime (s : Timer E) (now : Int) : Timer E :=
  match s.pendingEvents.getLast? with
  | none => s
  | some (k, _) =>
      if k < now then s
      else
        let interval := k - now
        { s with expiry := if interval = 0 then none else some (now + interval) }

def isReset (s : Timer E) (event : E) : Bool :=
  match s.pendingEvents with
  | [] => true
  | (_, front) :: _ => (s.events event).arriveTime < (s.events front).arriveTime

def addTimerEvent (s : Timer E) (event : E) (needReset : Bool) (now : Int) : Timer E :=
  let added := { s with pendingEvents := emplace (s.events event).arriveTime event s.pendingEvents }
  if s.isReset event && needReset then added.resetArriveTime now else added

def due (s : Timer E) (now : Int) (p : Int × E) : Bool := !(now < p.1 || (s.events p.2).isCanceled)

def repeatedTasks (s : Timer E) (now : Int) : List E :=
  ((s.pendingEvents.takeWhile (s.due now)).map Prod.snd).filter fun e => (s.events e).isRepeated

variable [DecidableEq E]

def update (s : Timer E) (event : E) (f : TimerEvent → TimerEvent) : Timer E :=
  { s with events := Function.update s.events event (f (s.events event)) }

/-- The entries from the lower to the upper bound are searched. Without a match the iterator stands on
the upper bound, and the entry there is erased. -/
def delTimerEvent (s : Timer E) (event : E) : Timer E :=
  let k := (s.events event).arriveTime
  let lower := s.pendingEvents.takeWhile fun p => p.1 < k
  let range := (s.pendingEvents.dropWhile fun p => p.1 < k).takeWhile fun p => p.1 ≤ k
  let upper := (s.pendingEvents.dropWhile fun p => p.1 < k).dropWhile fun p => p.1 ≤ k
  let kept := if ∃ p ∈ range, p.2 = event then range.eraseP (fun p => p.2 = event) ++ upper
    else range ++ upper.tail
  { s.update event (fun e => { e with isCanceled := true }) with pendingEvents := lower ++ kept }

/-- Each repeated event is reset, at its own reading of the clock, and added again. -/
def requeue (s : Timer E) : List (E × Int) → Timer E
  | [] => s
  | (event, now) :: rest => ((s.update event (·.reset now)).addTimerEvent event false now).requeue rest

/-- `OnTimer`, with its readings of the clock: at the start, at each reset, and when it sets the
timerfd. Reading the file descriptor disarms a timer that has expired. -/
def onTimer (s : Timer E) (now : Int) (resets : List Int) (last : Int) : Timer E :=
  let taken := { s with
    expiry := s.expiry.filter fun x => now < x
    pendingEvents := s.pendingEvents.dropWhile (s.due now)
    tasks := (s.pendingEvents.takeWhile (s.due now)).map Prod.snd }
  (taken.requeue ((s.repeatedTasks now).zip resets)).resetArriveTime last

end Timer

structure TimerState (E : Type) where
  timer : Timer E
  now : Int

inductive TimerStep (E : Type) where
  | add (event : E) (now : Int)
  | del (event : E)
  | onTimer (now : Int) (resets : List Int) (last : Int)
  | startTask
  | elapse (now : Int)

variable {E : Type}

/-- `OnTimer` has started all its tasks before the reactor calls it again; tasks may add and delete. -/
def timerNext [DecidableEq E] (s : TimerState E) : TimerStep E → Option (TimerState E)
  | .add event now =>
      if s.now ≤ now then some { timer := s.timer.addTimerEvent event true now, now := now } else none
  | .del event => some { s with timer := s.timer.delTimerEvent event }
  | .onTimer now resets last =>
      if s.timer.tasks = [] ∧ resets.length = (s.timer.repeatedTasks now).length ∧
          (s.now :: now :: (resets ++ [last])).Pairwise (· ≤ ·) then
        some { timer := s.timer.onTimer now resets last, now := last }
      else none
  | .startTask =>
      match s.timer.tasks with
      | [] => none
      | _ :: rest => some { s with timer := { s.timer with tasks := rest } }
  | .elapse now => if s.now ≤ now then some { s with now := now } else none

def TimerStart (s : TimerState E) : Prop :=
  s.timer.pendingEvents = [] ∧ s.timer.expiry = none ∧ s.timer.tasks = []

/-! ## Calls -/

/-- The functions that are called on a timer and on its events, each with its readings of the clock. -/
inductive TimerCall (E : Type) where
  | addTimerEvent (event : E) (needReset : Bool) (now : Int)
  | delTimerEvent (event : E)
  | cancel (event : E)
  | cancelRepeated (event : E)
  | onTimer (now : Int) (resets : List Int) (last : Int)

/-- `OnTimer` reads the clock once for each event that it resets. -/
def timerCall [DecidableEq E] (s : Timer E) : TimerCall E → Option (Timer E)
  | .addTimerEvent event needReset now => some (s.addTimerEvent event needReset now)
  | .delTimerEvent event => some (s.delTimerEvent event)
  | .cancel event => some (s.update event TimerEvent.cancel)
  | .cancelRepeated event => some (s.update event TimerEvent.cancelRepeated)
  | .onTimer now resets last =>
      if resets.length = (s.repeatedTasks now).length then some (s.onTimer now resets last) else none

/-- A timer that has no events yet. -/
def NewTimer (s : Timer E) : Prop := s.pendingEvents = []

/-- An event is not added while it is pending. -/
def AddsNotPending (s : Timer E) : TimerCall E → Prop
  | .addTimerEvent event _ _ => event ∉ s.pendingEvents.map Prod.snd
  | _ => True

instance [DecidableEq E] (s : Timer E) (l : TimerCall E) : Decidable (AddsNotPending s l) := by
  unfold AddsNotPending
  split <;> infer_instance

end Tirpc
