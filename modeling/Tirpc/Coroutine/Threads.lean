import Tirpc.Base.Reactor
import Tirpc.Base.TaskQueue

/-!
# Threads and coroutines (`reactor.cpp`, `fd_event.cpp`, `coroutine.cpp`, `coroutine_hook.cpp`)

Each thread runs the loop of its reactor, and in it the coroutines that it resumes. A step is what a thread
does between two places where another thread can see the difference: a statement of `Loop`, a call of a hook,
`toEpoll`, `Yield`. A thread that runs a coroutine is at a place of its loop behind `Coroutine::Resume`.
-/

namespace Tirpc

open Lib

inductive IOEvent where
  | read
  | write
  deriving DecidableEq, Repr

/-- A mask of events. -/
structure IOEvents where
  read : Bool := false
  write : Bool := false
  deriving DecidableEq, Repr

namespace IOEvents

def has (m : IOEvents) : IOEvent → Bool
  | .read => m.read
  | .write => m.write

def set (m : IOEvents) (event : IOEvent) (b : Bool) : IOEvents :=
  match event with
  | .read => { m with read := b }
  | .write => { m with write := b }

end IOEvents

/-- The main thread has the main reactor, and each IO thread a sub reactor with its index. -/
inductive Thread (n : Nat) where
  | main
  | io (threadIdx : Fin n)
  deriving DecidableEq, Repr

/-- The reactors are named by their threads. -/
structure FdEvent (T C : Type) where
  reactor : Option T := none
  cor : Option C := none
  listenEvents : IOEvents := {}

/-- The place of a coroutine: in its own code (`body`) or in a hook. -/
inductive CorPlace (F : Type) where
  /-- It has not started, or its function has returned. -/
  | idle
  /-- `AddCoroutine` has been called for it. -/
  | scheduled
  | body
  /-- Before `toEpoll`. -/
  | hook (fd : F) (event : IOEvent)
  /-- Between `toEpoll` and `Yield`. -/
  | registered (fd : F) (event : IOEvent)
  /-- In `Yield`. -/
  | waiting (fd : F) (event : IOEvent)
  /-- Behind `Yield`. -/
  | resumed (fd : F) (event : IOEvent)
  deriving DecidableEq, Repr

/-- The place of `Loop`, with the local lists that it has there. -/
inductive LoopPlace (n : Nat) (C : Type) where
  | start
  | stealing (victims : List (Fin n)) (stealTasks : List Int)
  | popping
  /-- `popped` tells `PopSome` from `Steal`. -/
  | tasks (tasks : List Int) (popped : Bool)
  | pendingTasks (tmpTasks : List C)
  | polling
  | events (reEvents : List (Int × IOEvents))

/-- `currentCoroutine` is none for the main coroutine. Of the pending tasks, those of `AddCoroutine` resume. -/
structure LoopThread (n : Nat) (C : Type) where
  reactor : Reactor IOEvents := { fds := [], nodup := List.nodup_nil, interest := fun _ => none }
  pendingTasks : List C := []
  place : LoopPlace n C := .start
  currentCoroutine : Option C := none

structure Process (n : Nat) (C : Type) where
  threads : Thread n → LoopThread n C := fun _ => {}
  queue : CoroutineTaskQueue n Int := .new n Int
  fdEvents : Int → FdEvent (Thread n) C
  places : C → CorPlace Int := fun _ => .idle

inductive ProcessStep (n : Nat) (C : Type) where
  /-- Anyone calls `AddCoroutine` on the reactor of a thread. -/
  | addCoroutine (thread : Thread n) (cor : C)
  /-- A thread goes on in its loop. -/
  | loop (thread : Thread n)
  | epollWait (thread : Thread n) (reEvents : List (Int × IOEvents))
  | epollWaitFails (thread : Thread n)
  /-- The coroutine of a thread calls `recv_hook` or `send_hook`. -/
  | hook (thread : Thread n) (fd : Int) (event : IOEvent)
  /-- The system call returned at once. -/
  | hookReturns (thread : Thread n)
  | toEpoll (thread : Thread n)
  | yield (thread : Thread n)
  | afterYield (thread : Thread n)
  | unregister (thread : Thread n) (fd : Int)
  /-- The function of the coroutine returns, and it yields for the last time. -/
  | finish (thread : Thread n)

namespace Process

variable {n : Nat} {C : Type}

def setThread (s : Process n C) (t : Thread n) (thread : LoopThread n C) : Process n C :=
  { s with threads := Function.update s.threads t thread }

def goto (s : Process n C) (t : Thread n) (place : LoopPlace n C) : Process n C :=
  s.setThread t { s.threads t with place := place }

def withReactor (s : Process n C) (t : Thread n) (f : Reactor IOEvents → Reactor IOEvents) : Process n C :=
  s.setThread t { s.threads t with reactor := f (s.threads t).reactor }

def setFd (s : Process n C) (fd : Int) (e : FdEvent (Thread n) C) : Process n C :=
  { s with fdEvents := Function.update s.fdEvents fd e }

/-- `FdEvent::UpdateToReactor`. The calls of `FdEvent` are made by thread `t`. -/
def updateToReactor (s : Process n C) (t : Thread n) (fd : Int) : Process n C :=
  let e := s.fdEvents fd
  let r := e.reactor.getD t
  (s.setFd fd { e with reactor := some r }).withReactor r fun reactor =>
    reactor.addEvent (decide (r = t)) fd e.listenEvents

def addListenEvents (s : Process n C) (t : Thread n) (fd : Int) (event : IOEvent) : Process n C :=
  let e := s.fdEvents fd
  if e.listenEvents.has event then s
  else (s.setFd fd { e with listenEvents := e.listenEvents.set event true }).updateToReactor t fd

def delListenEvents (s : Process n C) (t : Thread n) (fd : Int) (event : IOEvent) : Process n C :=
  let e := s.fdEvents fd
  if e.listenEvents.has event then
    (s.setFd fd { e with listenEvents := e.listenEvents.set event false }).updateToReactor t fd
  else s

def unregisterFromReactor (s : Process n C) (t : Thread n) (fd : Int) : Process n C :=
  let e := s.fdEvents fd
  let r := e.reactor.getD t
  (s.setFd fd { e with reactor := some r, listenEvents := {} }).withReactor r fun reactor =>
    reactor.delEvent (decide (r = t)) fd

def toEpoll (s : Process n C) (t : Thread n) (cor : C) (fd : Int) (event : IOEvent) : Process n C :=
  (s.setFd fd { s.fdEvents fd with cor := some cor }).addListenEvents t fd event

/-- The pending tasks become the local list of `Loop`. -/
def takePendingTasks (s : Process n C) (t : Thread n) : Process n C :=
  s.setThread t { s.threads t with pendingTasks := [], place := .pendingTasks (s.threads t).pendingTasks }

variable [DecidableEq C]

def setCor (s : Process n C) (cor : C) (place : CorPlace Int) : Process n C :=
  { s with places := Function.update s.places cor place }

/-- `Coroutine::Resume`, called by the main coroutine of thread `t`. -/
def resume (s : Process n C) (t : Thread n) (cor : Option C) : Process n C :=
  match cor with
  | none => s
  | some cor =>
      let running := s.setThread t { s.threads t with currentCoroutine := some cor }
      match s.places cor with
      | .scheduled => running.setCor cor .body
      | .waiting fd event => running.setCor cor (.resumed fd event)
      | _ => running

/-- The turn for one of the events. A descriptor with no coroutine has its callbacks called. -/
def onEvent (s : Process n C) (t : Thread n) (fd : Int) (event : IOEvents) : Process n C :=
  if !event.read && !event.write then s.withReactor t fun reactor => reactor.delEventInLoopThread fd
  else
    match (s.fdEvents fd).cor, t with
    | none, _ => s
    | some cor, .main => s.resume .main (some cor)
    | some _, .io i =>
        let s := s.withReactor (.io i) fun reactor => reactor.delEventInLoopThread fd
        let s := s.setFd fd { s.fdEvents fd with reactor := none }
        { s with queue := s.queue.push i fd }

/-- One victim of `Steal`. -/
def steal (s : Process n C) (i victim : Fin n) (victims : List (Fin n)) (stealTasks : List Int) : Process n C :=
  if stealTasks.length = 16 then s.goto (.io i) (.tasks stealTasks false)
  else if victim = i then s.goto (.io i) (.stealing victims stealTasks)
  else
    let popped := s.queue.popSome victim (16 - stealTasks.length)
    { s with queue := popped.2 }.goto (.io i) (.stealing victims (stealTasks ++ popped.1))

def pop (s : Process n C) (i : Fin n) : Process n C :=
  let popped := s.queue.popSome i 16
  if popped.1.isEmpty then s.takePendingTasks (.io i)
  else { s with queue := popped.2 }.goto (.io i) (.tasks popped.1 true)

/-- The next statement of `Loop`; `epoll_wait` is a step of its own. -/
def loop (s : Process n C) (t : Thread n) : Option (Process n C) :=
  match (s.threads t).place, t with
  | .start, .main => some (s.takePendingTasks .main)
  | .start, .io i =>
      some (s.goto (.io i) (if s.queue.isEmpty i then .stealing (List.finRange n) [] else .popping))
  | .stealing (victim :: victims) stealTasks, .io i => some (s.steal i victim victims stealTasks)
  | .stealing _ stealTasks, _ => some (s.goto t (.tasks stealTasks false))
  | .popping, .io i => some (s.pop i)
  | .popping, .main => none
  | .tasks [] popped, _ => some (if popped then s.goto t .popping else s.takePendingTasks t)
  | .tasks (fd :: tasks) popped, _ =>
      let s := (s.goto t (.tasks tasks popped)).setFd fd { s.fdEvents fd with reactor := some t }
      some (s.resume t (s.fdEvents fd).cor)
  | .pendingTasks [], _ => some (s.goto t .polling)
  | .pendingTasks (cor :: tmpTasks), _ => some ((s.goto t (.pendingTasks tmpTasks)).resume t (some cor))
  | .polling, _ => none
  | .events [], _ => some ((s.withReactor t Reactor.drain).goto t .start)
  | .events ((fd, event) :: reEvents), _ => some ((s.goto t (.events reEvents)).onEvent t fd event)

/-- `epoll_wait` reports at most ten descriptors, each once, and of what was asked for; errors it may add. -/
def Reports (s : Process n C) (t : Thread n) (reEvents : List (Int × IOEvents)) : Prop :=
  reEvents.length ≤ 10 ∧ (reEvents.map Prod.fst).Nodup ∧ ∀ p ∈ reEvents,
    ((s.threads t).reactor.interest p.1).any fun mask => (!p.2.read || mask.read) && (!p.2.write || mask.write)

instance (s : Process n C) (t : Thread n) (reEvents : List (Int × IOEvents)) : Decidable (s.Reports t reEvents) :=
  inferInstanceAs (Decidable (_ ∧ _ ∧ _))

/-- What the coroutine that a thread runs does. -/
def corStep (s : Process n C) (t : Thread n) (cor : C) : ProcessStep n C → Option (Process n C)
  | .hook _ fd event =>
      if s.places cor = .body then
        let e := s.fdEvents fd
        some ((s.setFd fd { e with reactor := some (e.reactor.getD t) }).setCor cor (.hook fd event))
      else none
  | .hookReturns _ =>
      match s.places cor with
      | .hook _ _ => some (s.setCor cor .body)
      | _ => none
  | .toEpoll _ =>
      match s.places cor with
      | .hook fd event => some ((s.toEpoll t cor fd event).setCor cor (.registered fd event))
      | _ => none
  | .yield _ =>
      match s.places cor with
      | .registered fd event =>
          some ((s.setThread t { s.threads t with currentCoroutine := none }).setCor cor (.waiting fd event))
      | _ => none
  | .afterYield _ =>
      match s.places cor with
      | .resumed fd event =>
          let s := s.delListenEvents t fd event
          some ((s.setFd fd { s.fdEvents fd with cor := none }).setCor cor .body)
      | _ => none
  | .unregister _ fd => if s.places cor = .body then some (s.unregisterFromReactor t fd) else none
  | .finish _ =>
      if s.places cor = .body then
        some ((s.setThread t { s.threads t with currentCoroutine := none }).setCor cor .idle)
      else none
  | _ => none

end Process

/-- The thread that makes a step; none for a call of `AddCoroutine`. -/
def ProcessStep.thread {n : Nat} {C : Type} : ProcessStep n C → Option (Thread n)
  | .addCoroutine _ _ => none
  | .loop t | .epollWait t _ | .epollWaitFails t | .hook t _ _ | .hookReturns t | .toEpoll t | .yield t
  | .afterYield t | .unregister t _ | .finish t => some t

def processNext {n : Nat} {C : Type} [DecidableEq C] (s : Process n C) (l : ProcessStep n C) :
    Option (Process n C) :=
  match l, l.thread.map fun t => (t, (s.threads t).currentCoroutine) with
  | .addCoroutine t cor, _ =>
      if s.places cor = .idle then
        some ((s.setThread t { s.threads t with pendingTasks := (s.threads t).pendingTasks ++ [cor] }).setCor cor
          .scheduled)
      else none
  | .loop t, some (_, none) => s.loop t
  | .epollWait t reEvents, some (_, none) =>
      match (s.threads t).place with
      | .polling => if s.Reports t reEvents then some (s.goto t (.events reEvents)) else none
      | _ => none
  | .epollWaitFails t, some (_, none) =>
      match (s.threads t).place with
      | .polling => some (s.goto t .start)
      | _ => none
  | _, some (t, some cor) => s.corStep t cor l
  | _, _ => none

/-- Connections may have been built: their descriptors then have a reactor. -/
def ProcessStart {n : Nat} {C : Type} (s : Process n C) : Prop :=
  s = { fdEvents := s.fdEvents } ∧ ∀ fd, (s.fdEvents fd).cor = none ∧ (s.fdEvents fd).listenEvents = {}

end Tirpc
