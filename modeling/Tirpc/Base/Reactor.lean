import Mathlib.Data.List.Nodup
import Mathlib.Logic.Function.Basic
import Tirpc.Lib.Transition

/-!
# The descriptors of a reactor (`reactor.cpp`)

`epoll_ctl` succeeds whenever its precondition holds: a descriptor is added when the kernel does not watch
it, and modified or deleted when it does. `ε` is the type of `epoll_event`.
-/

namespace Tirpc

open Lib

variable {ε : Type}

/-- `std::map<int, epoll_event>`. -/
structure FdMap (ε : Type) where
  entries : List (Int × ε)
  sorted : entries.Pairwise fun a b => a.1 < b.1

/-- An entry with the same key stays as it is. -/
def insertFd (fd : Int) (event : ε) : List (Int × ε) → List (Int × ε)
  | [] => [(fd, event)]
  | p :: ps =>
      if fd < p.1 then (fd, event) :: p :: ps
      else if fd = p.1 then p :: ps
      else p :: insertFd fd event ps

theorem mem_insertFd {fd : Int} {event : ε} {ps : List (Int × ε)} {p : Int × ε}
    (h : p ∈ insertFd fd event ps) : p = (fd, event) ∨ p ∈ ps := by
  induction ps with
  | nil => exact .inl (List.mem_singleton.mp h)
  | cons a ps ih =>
      simp only [insertFd] at h
      split at h
      · exact List.mem_cons.mp h
      · split at h
        · exact .inr h
        · cases List.mem_cons.mp h with
          | inl h => exact .inr (h ▸ List.mem_cons_self)
          | inr h => exact (ih h).imp id (List.mem_cons_of_mem a)

theorem sorted_insertFd {fd : Int} {event : ε} {ps : List (Int × ε)}
    (h : ps.Pairwise fun a b => a.1 < b.1) : (insertFd fd event ps).Pairwise fun a b => a.1 < b.1 := by
  induction ps with
  | nil => exact List.pairwise_singleton _ _
  | cons a ps ih =>
      obtain ⟨ha, hps⟩ := List.pairwise_cons.mp h
      simp only [insertFd]
      split
      · rename_i hlt
        refine List.pairwise_cons.mpr ⟨fun p hp => ?_, h⟩
        cases List.mem_cons.mp hp with
        | inl hp => exact hp ▸ hlt
        | inr hp => exact Int.lt_trans hlt (ha p hp)
      · rename_i hlt
        split
        · exact h
        · rename_i hne
          refine List.pairwise_cons.mpr ⟨fun p hp => ?_, ih hps⟩
          cases mem_insertFd hp with
          | inl hp => subst hp; simp only; omega
          | inr hp => exact ha p hp

namespace FdMap

def empty : FdMap ε := { entries := [], sorted := List.Pairwise.nil }

def insert (m : FdMap ε) (fd : Int) (event : ε) : FdMap ε :=
  { entries := insertFd fd event m.entries, sorted := sorted_insertFd m.sorted }

end FdMap

/-- `fds` are the descriptors that the reactor takes to be watched; `interest` is what the kernel watches. -/
structure Reactor (ε : Type) where
  fds : List Int
  nodup : fds.Nodup
  interest : Int → Option ε
  pendingAddFds : FdMap ε := .empty
  pendingDelFds : List Int := []

namespace Reactor

/-- A refused `epoll_ctl` is logged, and the descriptor is left as it is. -/
def addEventInLoopThread (r : Reactor ε) (fd : Int) (event : ε) : Reactor ε :=
  if h : fd ∈ r.fds then
    match r.interest fd with
    | some _ => { r with interest := Function.update r.interest fd (some event) }
    | none => r
  else
    match r.interest fd with
    | some _ => r
    | none =>
        { r with
          fds := r.fds ++ [fd]
          nodup := List.Nodup.append r.nodup (List.nodup_singleton fd) (List.disjoint_singleton.mpr h)
          interest := Function.update r.interest fd (some event) }

/-- Here a refused `epoll_ctl` is logged, and the descriptor is erased all the same. -/
def delEventInLoopThread (r : Reactor ε) (fd : Int) : Reactor ε :=
  if fd ∈ r.fds then
    { r with
      fds := r.fds.erase fd
      nodup := r.nodup.erase fd
      interest := Function.update r.interest fd none }
  else r

def addEvent (r : Reactor ε) (isLoopThread : Bool) (fd : Int) (event : ε) : Reactor ε :=
  if fd = -1 then r
  else if isLoopThread then r.addEventInLoopThread fd event
  else { r with pendingAddFds := r.pendingAddFds.insert fd event }

def delEvent (r : Reactor ε) (isLoopThread : Bool) (fd : Int) : Reactor ε :=
  if fd = -1 then r
  else if isLoopThread then r.delEventInLoopThread fd
  else { r with pendingDelFds := r.pendingDelFds ++ [fd] }

/-- The end of a turn of `Loop`: the additions first, and then the deletions. -/
def drain (r : Reactor ε) : Reactor ε :=
  let tmpAdd := r.pendingAddFds.entries
  let tmpDel := r.pendingDelFds
  let r := { r with pendingAddFds := .empty, pendingDelFds := [] }
  tmpDel.foldl delEventInLoopThread (tmpAdd.foldl (fun r p => r.addEventInLoopThread p.1 p.2) r)

end Reactor

/-- A call that another thread makes. -/
inductive ReactorCall (ε : Type) where
  | add (fd : Int) (event : ε)
  | del (fd : Int)
  deriving DecidableEq, Repr

namespace Reactor

def perform (isLoopThread : Bool) (r : Reactor ε) : ReactorCall ε → Reactor ε
  | .add fd event => r.addEvent isLoopThread fd event
  | .del fd => r.delEvent isLoopThread fd

/-- The calls as other threads make them: they wait for the next drain. -/
def queued (r : Reactor ε) (calls : List (ReactorCall ε)) : Reactor ε := calls.foldl (perform false) r

/-- The calls, each performed at once. -/
def inOrder (r : Reactor ε) (calls : List (ReactorCall ε)) : Reactor ε := calls.foldl (perform true) r

end Reactor

end Tirpc
