import Mathlib.Logic.Function.Basic
import Tirpc.Lib.Bytes
import Tirpc.Lib.Transition

/-!
# The events of file descriptors (`FdEventContainer` in `fd_event.cpp`)

All events that have been made are named by their places in one list. Of an event it holds the descriptor that it
was made for. A section under a lock is one step, in which no other thread changes the table.
-/

namespace Tirpc

open Lib

structure FdEventContainer where
  /-- The descriptors of all events, also of those that are not in the table. -/
  made : List Int
  fds : List Nat := []
  deriving DecidableEq, Repr

namespace FdEventContainer

/-- `make_shared` outside of the table. -/
def makeShared (s : FdEventContainer) (fd : Int) : FdEventContainer := { s with made := s.made ++ [fd] }

def pushBack (s : FdEventContainer) (i : Int) : FdEventContainer :=
  { made := s.made ++ [i], fds := s.fds ++ [s.made.length] }

/-- The loop over `i`, with the number of rounds that it makes. -/
def pushFrom (s : FdEventContainer) (i : Int) : Nat → FdEventContainer
  | 0 => s
  | n + 1 => (s.pushBack i).pushFrom (i + 1) n

/-- The constructor, among events made before. -/
def new (made : List Int) (size : Int) : FdEventContainer := pushFrom { made := made } 0 size.toNat

def size (s : FdEventContainer) : Int := wrap32 s.fds.length

/-- `fds_[fd]`. An access outside of the vector is undefined. -/
def entry (s : FdEventContainer) (fd : Int) : Option Nat := if 0 ≤ fd then s.fds[fd.toNat]? else none

/-- `fd * 1.5`, without its fraction. A `double` holds the product of every `int`. -/
def enlarged (fd : Int) : Int := (fd * 3).tdiv 2

/-- The section under the write lock. The conversion of what is no `int` is undefined. -/
def writeSection (s : FdEventContainer) (fd : Int) : Option (Nat × FdEventContainer) :=
  let n := enlarged fd
  if IsInt32 n then
    let grown := s.pushFrom s.size (n - s.size).toNat
    (grown.entry fd).map fun p => (p, grown)
  else none

end FdEventContainer

/-- Where a thread is in `GetFdEvent`. -/
inductive GetFdEventPlace where
  | outside
  | reading (fd : Int)
  | writing (fd : Int)
  deriving DecidableEq, Repr

/-- What a call has returned. Without an event, it did something undefined. -/
structure GetFdEventReturn (T : Type) where
  thread : T
  fd : Int
  event : Option Nat
  deriving DecidableEq, Repr

/-- The threads that call `GetFdEvent`, and what their calls have returned. -/
structure FdEventThreads (T : Type) where
  container : FdEventContainer
  places : T → GetFdEventPlace := fun _ => .outside
  returned : List (GetFdEventReturn T) := []

inductive GetFdEventStep (T : Type) where
  | call (t : T) (fd : Int)
  | readSection (t : T)
  | writeSection (t : T)
  /-- Anyone makes an event of their own. -/
  | makeShared (fd : Int)

variable {T : Type}

namespace FdEventThreads

variable [DecidableEq T]

def goto (s : FdEventThreads T) (t : T) (place : GetFdEventPlace) : FdEventThreads T :=
  { s with places := Function.update s.places t place }

def return_ (s : FdEventThreads T) (t : T) (fd : Int) (event : Option Nat) : FdEventThreads T :=
  { s.goto t .outside with returned := s.returned ++ [⟨t, fd, event⟩] }

end FdEventThreads

def getFdEventNext [DecidableEq T] (s : FdEventThreads T) : GetFdEventStep T → Option (FdEventThreads T)
  | .call t fd => if s.places t = .outside then some (s.goto t (.reading fd)) else none
  | .readSection t =>
      match s.places t with
      | .reading fd =>
          if fd < s.container.size then some (s.return_ t fd (s.container.entry fd))
          else some (s.goto t (.writing fd))
      | _ => none
  | .writeSection t =>
      match s.places t with
      | .writing fd =>
          match s.container.writeSection fd with
          | some (p, grown) => some { s.return_ t fd (some p) with container := grown }
          | none => some (s.return_ t fd none)
      | _ => none
  | .makeShared fd => some { s with container := s.container.makeShared fd }

/-- The container is new, of a size of at least two, and no thread has called it. -/
def NewFdEvents (s : FdEventThreads T) : Prop :=
  (∃ made size, 2 ≤ size ∧ IsInt32 size ∧ s.container = .new made size) ∧
    (∀ t, s.places t = .outside) ∧ s.returned = []

/-- Calls are made with descriptors that are not negative, and whose enlargement fits an `int`. -/
def DescriptorsFit (_ : FdEventThreads T) : GetFdEventStep T → Prop
  | .call _ fd => 0 ≤ fd ∧ IsInt32 (FdEventContainer.enlarged fd)
  | _ => True

instance (s : FdEventThreads T) (l : GetFdEventStep T) : Decidable (DescriptorsFit s l) := by
  unfold DescriptorsFit
  split <;> infer_instance

end Tirpc
