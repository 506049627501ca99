import Tirpc.Lib.Shared
import Tirpc.Lib.Transition

/-!
# The time wheel (`tcp_connection_time_wheel.cpp`, `abstract_slot.hpp`)

A connection has one slot, held by shared references in the buckets and in queued tasks. The last of them to go
calls the callback, `ShutdownConnection`, if the connection still lives. A slot goes by the name of its
connection here.
-/

namespace Tirpc

open Lib

/-- The buckets, from the front of the queue. -/
structure TcpTimeWheel (C : Type) where
  wheel : List (List C)

namespace TcpTimeWheel

variable {C : Type}

def new (C : Type) (bucketCount : Nat) : TcpTimeWheel C := { wheel := List.replicate bucketCount [] }

def fresh (w : TcpTimeWheel C) (slot : C) : TcpTimeWheel C :=
  { wheel := w.wheel.dropLast ++ [w.wheel.getLastD [] ++ [slot]] }

/-- The bucket that goes, and the wheel behind it. -/
def loopFunc (w : TcpTimeWheel C) : List C × TcpTimeWheel C := (w.wheel.headD [], { wheel := w.wheel.tail ++ [[]] })

end TcpTimeWheel

inductive ConnectionLife where
  | notAccepted
  | live
  | deleted
  deriving DecidableEq, Repr

/-- `useCount` is the count of each slot. `ticks` counts the calls of `LoopFunc`; `executed` and `shutdowns` record,
with its number, the `Fresh` tasks that ran and the callbacks. -/
structure TimeWheelRun (C : Type) where
  wheel : TcpTimeWheel C
  pendingTasks : List C := []
  useCount : C → Nat := fun _ => 0
  life : C → ConnectionLife := fun _ => .notAccepted
  ticks : Nat := 0
  executed : List (C × Nat) := []
  shutdowns : List (C × Nat) := []

inductive TimeWheelStep (C : Type) where
  /-- A connection is accepted and registered. -/
  | initServer (conn : C)
  /-- `Input` has received bytes. -/
  | input (conn : C)
  /-- The main reactor runs the task at the head of its queue. -/
  | runTask
  | loopFunc
  /-- The last owner of the connection gives it up. -/
  | delete (conn : C)
  deriving DecidableEq

namespace TimeWheelRun

variable {C : Type} [DecidableEq C]

def freshTcpConnection (s : TimeWheelRun C) (slot : C) : TimeWheelRun C :=
  { s with pendingTasks := s.pendingTasks ++ [slot], useCount := addRef s.useCount slot }

/-- The slot is new, and the task holds the only reference that stays. -/
def registerToTimeWheel (s : TimeWheelRun C) (conn : C) : TimeWheelRun C :=
  { s.freshTcpConnection conn with life := Function.update s.life conn .live }

/-- The weak reference to a slot that is gone gives none. -/
def input (s : TimeWheelRun C) (conn : C) : TimeWheelRun C :=
  if s.useCount conn = 0 then s else s.freshTcpConnection conn

/-- The reference of the task moves into the last bucket. -/
def runTask (s : TimeWheelRun C) (slot : C) (rest : List C) : TimeWheelRun C :=
  { s with wheel := s.wheel.fresh slot, pendingTasks := rest, executed := s.executed ++ [(slot, s.ticks)] }

def loopFunc (s : TimeWheelRun C) : TimeWheelRun C :=
  let (bucket, wheel) := s.wheel.loopFunc
  let (useCount, gone) := dropRefs s.useCount bucket
  { s with
    wheel := wheel
    useCount := useCount
    ticks := s.ticks + 1
    shutdowns := s.shutdowns ++ (gone.filter fun conn => s.life conn = .live).map fun conn => (conn, s.ticks + 1) }

end TimeWheelRun

def timeWheelNext {C : Type} [DecidableEq C] (s : TimeWheelRun C) : TimeWheelStep C → Option (TimeWheelRun C)
  | .initServer conn => if s.life conn = .notAccepted then some (s.registerToTimeWheel conn) else none
  | .input conn => if s.life conn = .live then some (s.input conn) else none
  | .runTask =>
      match s.pendingTasks with
      | [] => none
      | slot :: rest => some (s.runTask slot rest)
  | .loopFunc => some s.loopFunc
  | .delete conn =>
      if s.life conn = .live then some { s with life := Function.update s.life conn .deleted } else none

def TimeWheelStart {C : Type} (bucketCount : Nat) (s : TimeWheelRun C) : Prop := s = { wheel := .new C bucketCount }

theorem timeWheelStart_new {C : Type} (bucketCount : Nat) :
    TimeWheelStart bucketCount { wheel := TcpTimeWheel.new C bucketCount } := rfl

end Tirpc
