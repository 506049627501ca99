import Mathlib.Logic.Function.Basic
import Tirpc.Lib.Transition

/-!
# The queues of woken descriptors (`reactor.cpp`)

Each IO thread has a queue with a lock of its own, so each operation on one queue is a step.
-/

namespace Tirpc

structure CoroutineTaskQueue (n : Nat) (F : Type) where
  tasks : Fin n → List F

namespace CoroutineTaskQueue

variable {n : Nat} {F : Type}

def new (n : Nat) (F : Type) : CoroutineTaskQueue n F := { tasks := fun _ => [] }

def push (q : CoroutineTaskQueue n F) (threadIdx : Fin n) (cor : F) : CoroutineTaskQueue n F :=
  { tasks := Function.update q.tasks threadIdx (q.tasks threadIdx ++ [cor]) }

def isEmpty (q : CoroutineTaskQueue n F) (threadIdx : Fin n) : Bool := (q.tasks threadIdx).isEmpty

/-- At most `popCnt` from the front. `Steal` takes from one victim in the same way. -/
def popSome (q : CoroutineTaskQueue n F) (threadIdx : Fin n) (popCnt : Nat) : List F × CoroutineTaskQueue n F :=
  ((q.tasks threadIdx).take popCnt,
    { tasks := Function.update q.tasks threadIdx ((q.tasks threadIdx).drop popCnt) })

end CoroutineTaskQueue

/-! ## Calls that take events -/

inductive TaskCallKind (n : Nat) where
  | popSome (threadIdx : Fin n) (popCnt : Nat)
  | steal (threadIdx : Fin n) (stealCnt : Nat)

/-- A call, with the queues that its loop has before it and the events that it has taken. It has returned when
no queue is left. -/
structure TaskCall (n : Nat) (F : Type) where
  kind : TaskCallKind n
  victims : List (Fin n) := []
  tasks : List F := []

/-- The calls so far, by their numbers. `pushed` and `taken` record what has been pushed to a queue, and what
has been taken from it by which call. -/
structure TaskQueueRun (n : Nat) (F : Type) where
  queue : CoroutineTaskQueue n F := .new n F
  calls : List (TaskCall n F) := []
  pushed : Fin n → List F := fun _ => []
  taken : Fin n → List (Nat × F) := fun _ => []

inductive TaskQueueStep (n : Nat) (F : Type) where
  | push (threadIdx : Fin n) (cor : F)
  | popSome (threadIdx : Fin n) (popCnt : Nat)
  /-- A call of `Steal` begins. -/
  | steal (threadIdx : Fin n) (stealCnt : Nat)
  /-- The next turn of a call of `Steal`. -/
  | turn (call : Nat)

namespace TaskQueueRun

variable {n : Nat} {F : Type}

def push (s : TaskQueueRun n F) (threadIdx : Fin n) (cor : F) : TaskQueueRun n F :=
  { s with
    queue := s.queue.push threadIdx cor
    pushed := Function.update s.pushed threadIdx (s.pushed threadIdx ++ [cor]) }

def begin (s : TaskQueueRun n F) (c : TaskCall n F) : TaskQueueRun n F := { s with calls := s.calls ++ [c] }

def setCall (s : TaskQueueRun n F) (call : Nat) (c : TaskCall n F) : TaskQueueRun n F :=
  { s with calls := s.calls.set call c }

/-- A call takes at most `cnt` events from the front of a queue. -/
def take (s : TaskQueueRun n F) (call : Nat) (c : TaskCall n F) (victim : Fin n) (cnt : Nat) : TaskQueueRun n F :=
  let popped := s.queue.popSome victim cnt
  { s.setCall call { c with tasks := c.tasks ++ popped.1 } with
    queue := popped.2
    taken := Function.update s.taken victim (s.taken victim ++ popped.1.map fun cor => (call, cor)) }

end TaskQueueRun

def taskQueueNext {n : Nat} {F : Type} (s : TaskQueueRun n F) : TaskQueueStep n F → Option (TaskQueueRun n F)
  | .push threadIdx cor => some (s.push threadIdx cor)
  | .popSome threadIdx popCnt =>
      let c : TaskCall n F := { kind := .popSome threadIdx popCnt }
      some ((s.begin c).take s.calls.length c threadIdx popCnt)
  | .steal threadIdx stealCnt =>
      some (s.begin { kind := .steal threadIdx stealCnt, victims := List.finRange n })
  | .turn call =>
      match s.calls[call]? with
      | some { kind := .steal threadIdx stealCnt, victims := victim :: victims, tasks := tasks } =>
          let c : TaskCall n F := { kind := .steal threadIdx stealCnt, victims := victims, tasks := tasks }
          if tasks.length = stealCnt then some (s.setCall call { c with victims := [] })
          else if victim = threadIdx then some (s.setCall call c)
          else some (s.take call c victim (stealCnt - tasks.length))
      | _ => none

def TaskQueueStart {n : Nat} {F : Type} (s : TaskQueueRun n F) : Prop := s = {}

theorem taskQueueStart_new {n : Nat} {F : Type} : TaskQueueStart ({} : TaskQueueRun n F) := rfl

end Tirpc
