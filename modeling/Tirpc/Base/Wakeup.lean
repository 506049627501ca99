import Tirpc.Base.Reactor

/-!
# Tasks and wake-ups of a reactor (`reactor.cpp`)

The loop of one reactor, and any number of callers of `AddTask`, `AddEvent`, `DelEvent` and `Stop`. What is done under
`mutex_` is one step, and so is each look at a flag that is read without it. The coroutine tasks of a turn, and what
events do other than pushing callbacks, are left out.
-/

namespace Tirpc

open Lib

/-- What `Wakeup` is called for. -/
inductive WakeupCall where
  | task
  | fds
  | stop
  deriving DecidableEq, Repr

/-- The place of a thread in one of the calls. -/
inductive ReactorCaller where
  | idle
  /-- In `Stop`, behind its condition. -/
  | stopping
  /-- Before `Wakeup`, and in it before its condition. -/
  | wakeup (call : WakeupCall)
  /-- In `Wakeup`, behind its condition. -/
  | writing
  deriving DecidableEq, Repr

/-- In `Wakeup`, or before it. -/
def ReactorCaller.OnWay : ReactorCaller → Prop
  | .wakeup _ | .writing => True
  | .idle | .stopping => False

/-- The place of the loop, with the tasks that are left of `tmp_tasks`. `woken` tells that the event of `wakeup_fd_`
is among those that are left of `re_events`. -/
inductive ReactorPlace (K : Type) where
  | outside
  /-- Behind `is_looping_ = true`. -/
  | entered
  | condition
  | swapping
  | tasks (tmpTasks : List K)
  | polling
  | events (woken : Bool)
  /-- Behind the last turn. -/
  | ended
  deriving DecidableEq, Repr

/-- `wakeups` is the counter of `wakeup_fd_`. `added` and `executed` record the tasks in the order in which they came
and were run. -/
structure ReactorLoop (T K ε : Type) where
  reactor : Reactor ε := { fds := [], nodup := List.nodup_nil, interest := fun _ => none }
  pendingTasks : List K := []
  wakeups : Nat := 0
  isLooping : Bool := false
  stop : Bool := false
  place : ReactorPlace K := .outside
  callers : T → ReactorCaller := fun _ => .idle
  added : List K := []
  executed : List K := []

inductive ReactorStep (T K ε : Type) where
  /-- The loop goes on, where it does not wait for the kernel. -/
  | loop
  | epollWait (woken : Bool)
  | epollWaitFails
  /-- The turn of the loop over `re_events` that reads `wakeup_fd_` empty. -/
  | readWakeup
  /-- An event pushes a callback of its descriptor. -/
  | callback (task : K)
  | addTask (caller : T) (tasks : List K) (isWakeup : Bool)
  | addEvent (caller : T) (fd : Int) (event : ε) (isWakeup : Bool)
  | delEvent (caller : T) (fd : Int) (isWakeup : Bool)
  | stop (caller : T)
  /-- A caller goes on in its call. -/
  | caller (caller : T)

namespace ReactorLoop

variable {T K ε : Type} [DecidableEq T]

def goto (s : ReactorLoop T K ε) (place : ReactorPlace K) : ReactorLoop T K ε := { s with place := place }

def setCaller (s : ReactorLoop T K ε) (caller : T) (c : ReactorCaller) : ReactorLoop T K ε :=
  { s with callers := Function.update s.callers caller c }

def push (s : ReactorLoop T K ε) (tasks : List K) : ReactorLoop T K ε :=
  { s with pendingTasks := s.pendingTasks ++ tasks, added := s.added ++ tasks }

/-- `Loop`, statement by statement. -/
def loop (s : ReactorLoop T K ε) : Option (ReactorLoop T K ε) :=
  match s.place with
  | .outside => some { s with isLooping := true, place := .entered }
  | .entered => some { s with stop := false, place := .condition }
  | .condition => if s.stop then some (s.goto .ended) else some (s.goto .swapping)
  | .swapping => some { s with pendingTasks := [], place := .tasks s.pendingTasks }
  | .tasks (task :: tmpTasks) => some { s with executed := s.executed ++ [task], place := .tasks tmpTasks }
  | .tasks [] => some (s.goto .polling)
  | .polling => none
  | .events true => none
  | .events false => some { s with reactor := s.reactor.drain, place := .condition }
  | .ended => some { s with isLooping := false, place := .outside }

/-- The end of a call: it goes on to `Wakeup` if it is asked to. -/
def wake (s : ReactorLoop T K ε) (caller : T) (call : WakeupCall) (isWakeup : Bool) : ReactorLoop T K ε :=
  if isWakeup then s.setCaller caller (.wakeup call) else s

def addTask (s : ReactorLoop T K ε) (caller : T) (tasks : List K) (isWakeup : Bool) : ReactorLoop T K ε :=
  if tasks.isEmpty then s else (s.push tasks).wake caller .task isWakeup

def addEvent (s : ReactorLoop T K ε) (caller : T) (fd : Int) (event : ε) (isWakeup : Bool) : ReactorLoop T K ε :=
  if fd = -1 then s
  else ({ s with reactor := s.reactor.addEvent false fd event } : ReactorLoop T K ε).wake caller .fds isWakeup

def delEvent (s : ReactorLoop T K ε) (caller : T) (fd : Int) (isWakeup : Bool) : ReactorLoop T K ε :=
  if fd = -1 then s
  else ({ s with reactor := s.reactor.delEvent false fd } : ReactorLoop T K ε).wake caller .fds isWakeup

/-- The rest of `Stop` and of `Wakeup`. -/
def caller (s : ReactorLoop T K ε) (caller : T) : Option (ReactorLoop T K ε) :=
  match s.callers caller with
  | .idle => none
  | .stopping => some { s.setCaller caller (.wakeup .stop) with stop := true }
  | .wakeup _ => if s.isLooping then some (s.setCaller caller .writing) else some (s.setCaller caller .idle)
  | .writing => some { s.setCaller caller .idle with wakeups := s.wakeups + 1 }

/-- The event of `wakeup_fd_` is only reported while its counter is not zero. -/
def next (s : ReactorLoop T K ε) : ReactorStep T K ε → Option (ReactorLoop T K ε)
  | .loop => s.loop
  | .epollWait woken =>
      match s.place with
      | .polling => if woken && s.wakeups == 0 then none else some (s.goto (.events woken))
      | _ => none
  | .epollWaitFails =>
      match s.place with
      | .polling => some (s.goto .condition)
      | _ => none
  | .readWakeup =>
      match s.place with
      | .events true => some { s with wakeups := 0, place := .events false }
      | _ => none
  | .callback task =>
      match s.place with
      | .events _ => some (s.push [task])
      | _ => none
  | .addTask caller tasks isWakeup =>
      if s.callers caller = .idle then some (s.addTask caller tasks isWakeup) else none
  | .addEvent caller fd event isWakeup =>
      if s.callers caller = .idle then some (s.addEvent caller fd event isWakeup) else none
  | .delEvent caller fd isWakeup =>
      if s.callers caller = .idle then some (s.delEvent caller fd isWakeup) else none
  | .stop caller =>
      if s.callers caller = .idle then
        if !s.stop && s.isLooping then some (s.setCaller caller .stopping) else some s
      else none
  | .caller caller => s.caller caller

/-- A write to `wakeup_fd_` has been made and not yet been read, or a caller is on its way to one. -/
def Announced (s : ReactorLoop T K ε) : Prop := 0 < s.wakeups ∨ ∃ c, (s.callers c).OnWay

/-- Descriptors wait for the end of a turn. -/
def HasFds (s : ReactorLoop T K ε) : Prop := s.reactor.pendingAddFds.entries ≠ [] ∨ s.reactor.pendingDelFds ≠ []

/-- Who adds a task wakes the loop up. -/
def TasksWake (_ : ReactorLoop T K ε) : ReactorStep T K ε → Prop
  | .addTask _ _ isWakeup => isWakeup = true
  | _ => True

/-- `AddEvent` and `DelEvent` wake the loop up, and it is looping from their call to their look at `is_looping_`. -/
def WhileLooping (s : ReactorLoop T K ε) : ReactorStep T K ε → Prop
  | .addEvent _ _ _ isWakeup | .delEvent _ _ isWakeup => isWakeup = true ∧ s.isLooping = true
  | .caller c => s.callers c = .wakeup .fds → s.isLooping = true
  | _ => True

instance (s : ReactorLoop T K ε) (l : ReactorStep T K ε) : Decidable (s.TasksWake l) := by
  cases l <;> unfold TasksWake <;> infer_instance

instance (s : ReactorLoop T K ε) (l : ReactorStep T K ε) : Decidable (s.WhileLooping l) := by
  cases l <;> unfold WhileLooping <;> infer_instance

end ReactorLoop

/-- The tasks that the loop has taken and not yet run. -/
def ReactorPlace.tmpTasks {K : Type} : ReactorPlace K → List K
  | .tasks tmpTasks => tmpTasks
  | _ => []

variable {T K ε : Type}

def ReactorLoopStart (s : ReactorLoop T K ε) : Prop :=
  s.pendingTasks = [] ∧ s.isLooping = false ∧ s.place = .outside ∧ s.added = [] ∧ s.executed = [] ∧
    s.reactor.pendingAddFds.entries = [] ∧ s.reactor.pendingDelFds = []

end Tirpc
