import Mathlib.Data.Sum.Basic
import Tirpc.Coroutine.Lemmas.Whereabouts

/-!
# The threads and their whereabouts

What each update of the threads does to the whereabouts of the coroutines, and to what is said of one thread
alone.
-/

namespace Tirpc

open Lib

variable {n : Nat} {C : Type}

namespace LoopPlace

def starting : LoopPlace n C → List C
  | .pendingTasks tmpTasks => tmpTasks
  | _ => []

/-- The descriptors that have been taken from a queue. -/
def inHand : LoopPlace n C → List Int
  | .stealing _ stealTasks => stealTasks
  | .tasks fds _ => fds
  | _ => []

def eventFds : LoopPlace n C → List Int
  | .events reEvents => reEvents.map Prod.fst
  | _ => []

end LoopPlace

/-! ## The reactor -/

namespace Reactor

variable {ε : Type} {r : Reactor ε} {fd fd' : Int} {event : ε}

/-- Nothing waits to be added, and the reactor knows what it watches. -/
structure Tidy (r : Reactor ε) : Prop where
  adds : r.pendingAddFds = .empty
  known : ∀ fd, r.interest fd ≠ none → fd ∈ r.fds

theorem Tidy.addEventInLoopThread (h : r.Tidy) : (r.addEventInLoopThread fd event).Tidy ∧
    ∀ fd', (r.addEventInLoopThread fd event).interest fd' ≠ none → fd' = fd ∨ r.interest fd' ≠ none := by
  simp only [Reactor.addEventInLoopThread]
  split
  · rename_i hmem
    split
    · refine ⟨⟨h.adds, fun fd' hw => ?_⟩, fun fd' hw => ?_⟩
      · by_cases he : fd' = fd
        · exact he ▸ hmem
        · exact h.known fd' (by simpa [he] using hw)
      · by_cases he : fd' = fd
        · exact .inl he
        · exact .inr (by simpa [he] using hw)
    · exact ⟨h, fun fd' hw => .inr hw⟩
  · split
    · exact ⟨h, fun fd' hw => .inr hw⟩
    · refine ⟨⟨h.adds, fun fd' hw => ?_⟩, fun fd' hw => ?_⟩
      · by_cases he : fd' = fd
        · exact List.mem_append_right _ (List.mem_singleton.mpr he)
        · exact List.mem_append_left _ (h.known fd' (by simpa [he] using hw))
      · by_cases he : fd' = fd
        · exact .inl he
        · exact .inr (by simpa [he] using hw)

theorem Tidy.addEvent (h : r.Tidy) (fd : Int) (event : ε) : (r.addEvent true fd event).Tidy ∧
    ∀ fd', (r.addEvent true fd event).interest fd' ≠ none → fd' = fd ∨ r.interest fd' ≠ none := by
  simp only [Reactor.addEvent]
  split
  · exact ⟨h, fun fd' hw => .inr hw⟩
  · exact h.addEventInLoopThread

/-- A deletion takes the descriptor out, and leaves of the others what there was. -/
theorem Tidy.delEventInLoopThread (h : r.Tidy) (fd : Int) : (r.delEventInLoopThread fd).Tidy ∧
    (∀ fd', (r.delEventInLoopThread fd).interest fd' ≠ none → r.interest fd' ≠ none) ∧
    (r.delEventInLoopThread fd).interest fd = none := by
  simp only [Reactor.delEventInLoopThread]
  split
  · refine ⟨⟨h.adds, fun fd' hw => ?_⟩, fun fd' hw => ?_, Function.update_self _ _ _⟩
    · by_cases he : fd' = fd
      · simp [he] at hw
      · exact (List.mem_erase_of_ne he).mpr (h.known fd' (by simpa [he] using hw))
    · by_cases he : fd' = fd
      · simp [he] at hw
      · simpa [he] using hw
  · rename_i hmem
    refine ⟨h, fun fd' hw => hw, ?_⟩
    by_contra hw
    exact hmem (h.known fd hw)

theorem Tidy.delEvent (h : r.Tidy) {isLoopThread : Bool} : (r.delEvent isLoopThread fd).Tidy ∧
    ∀ fd', (r.delEvent isLoopThread fd).interest fd' ≠ none → r.interest fd' ≠ none := by
  simp only [Reactor.delEvent]
  split
  · exact ⟨h, fun fd' hw => hw⟩
  · split
    · exact ⟨(h.delEventInLoopThread fd).1, (h.delEventInLoopThread fd).2.1⟩
    · exact ⟨⟨h.adds, h.known⟩, fun fd' hw => hw⟩

theorem Tidy.delEvents (h : r.Tidy) (dels : List Int) : (dels.foldl Reactor.delEventInLoopThread r).Tidy ∧
    ∀ fd', (dels.foldl Reactor.delEventInLoopThread r).interest fd' ≠ none → r.interest fd' ≠ none := by
  induction dels generalizing r with
  | nil => exact ⟨h, fun fd' hw => hw⟩
  | cons fd dels ih =>
      obtain ⟨hdel, hsub, -⟩ := h.delEventInLoopThread fd
      obtain ⟨htidy, hrest⟩ := ih hdel
      exact ⟨htidy, fun fd' hw => hsub fd' (hrest fd' hw)⟩

/-- A drain with nothing to add. -/
theorem Tidy.drain (h : r.Tidy) : r.drain.Tidy ∧ ∀ fd', r.drain.interest fd' ≠ none → r.interest fd' ≠ none := by
  have htidy : ({ r with pendingAddFds := .empty, pendingDelFds := [] } : Reactor ε).Tidy := ⟨rfl, h.known⟩
  have hdrain : r.drain = r.pendingDelFds.foldl Reactor.delEventInLoopThread
      { r with pendingAddFds := .empty, pendingDelFds := [] } := by
    simp only [Reactor.drain, h.adds]
    rfl
  rw [hdrain]
  exact htidy.delEvents r.pendingDelFds

end Reactor

/-! ## One thread -/

namespace LoopThread

def Watches (th : LoopThread n C) (fd : Int) : Prop := th.reactor.interest fd ≠ none ∨ fd ∈ th.place.eventFds

structure Tidy (th : LoopThread n C) : Prop where
  reactor : th.reactor.Tidy
  events : th.place.eventFds.Nodup

end LoopThread

/-! ## All threads -/

namespace Process

def whereabouts (s : Process n C) : Whereabouts (Thread n) (Fin n ⊕ Thread n) Int C where
  running t := (s.threads t).currentCoroutine
  starts t := (s.threads t).place.starting ++ (s.threads t).pendingTasks
  held := Sum.elim s.queue.tasks fun t => (s.threads t).place.inHand
  watched t := (s.threads t).Watches
  reactor fd := (s.fdEvents fd).reactor
  cor fd := (s.fdEvents fd).cor
  place := s.places

structure Kept (s : Process n C) : Prop where
  apart : s.whereabouts.Apart
  tidy : ∀ t, (s.threads t).Tidy

variable {s : Process n C} {t : Thread n} {th : LoopThread n C} {fd : Int}

section

variable (s t th)

theorem running_setThread : (s.setThread t th).whereabouts.running =
    Function.update s.whereabouts.running t th.currentCoroutine :=
  funext fun t' => Function.apply_update (fun _ th => LoopThread.currentCoroutine th) s.threads t th t'

theorem starts_setThread : (s.setThread t th).whereabouts.starts =
    Function.update s.whereabouts.starts t (th.place.starting ++ th.pendingTasks) :=
  funext fun t' => Function.apply_update (fun _ (th : LoopThread n C) => th.place.starting ++ th.pendingTasks)
    s.threads t th t'

theorem held_setThread : (s.setThread t th).whereabouts.held =
    Function.update s.whereabouts.held (.inr t) th.place.inHand := by
  have hplaces := funext fun t' =>
    Function.apply_update (fun _ (th : LoopThread n C) => th.place.inHand) s.threads t th t'
  simp only [whereabouts, setThread, hplaces, Sum.update_elim_inr]

theorem watched_setThread : (s.setThread t th).whereabouts.watched =
    Function.update s.whereabouts.watched t th.Watches :=
  funext fun t' => Function.apply_update (fun _ th => LoopThread.Watches th) s.threads t th t'

theorem reactor_setFd (e : FdEvent (Thread n) C) : (s.setFd fd e).whereabouts.reactor =
    Function.update s.whereabouts.reactor fd e.reactor :=
  funext fun fd' => Function.apply_update (fun _ e => FdEvent.reactor e) s.fdEvents fd e fd'

theorem cor_setFd (e : FdEvent (Thread n) C) : (s.setFd fd e).whereabouts.cor =
    Function.update s.whereabouts.cor fd e.cor :=
  funext fun fd' => Function.apply_update (fun _ e => FdEvent.cor e) s.fdEvents fd e fd'

end

theorem tidy_setThread (h : ∀ t, (s.threads t).Tidy) (hth : th.Tidy) (t' : Thread n) :
    ((s.setThread t th).threads t').Tidy := by
  by_cases ht : t' = t
  · subst ht
    simpa [setThread] using hth
  · simpa [setThread, ht] using h t'

/-! ## What an update of one thread leaves as it is -/

section

variable (s t th)

theorem running_same (hrun : th.currentCoroutine = (s.threads t).currentCoroutine) :
    (s.setThread t th).whereabouts.running = s.whereabouts.running := by
  rw [running_setThread, hrun]
  exact Function.update_eq_self t s.whereabouts.running

theorem starts_same
    (hstarts : th.place.starting ++ th.pendingTasks = (s.threads t).place.starting ++ (s.threads t).pendingTasks) :
    (s.setThread t th).whereabouts.starts = s.whereabouts.starts := by
  rw [starts_setThread, hstarts]
  exact Function.update_eq_self t s.whereabouts.starts

theorem held_same (hhand : th.place.inHand = (s.threads t).place.inHand) :
    (s.setThread t th).whereabouts.held = s.whereabouts.held := by
  rw [held_setThread, hhand]
  exact Function.update_eq_self (Sum.inr t) s.whereabouts.held

theorem watched_of (hwatched : ∀ fd, th.Watches fd → (s.threads t).Watches fd) (t' : Thread n) (fd : Int)
    (hw : (s.setThread t th).whereabouts.watched t' fd) : s.whereabouts.watched t' fd := by
  rw [watched_setThread] at hw
  by_cases ht : t' = t
  · subst ht
    rw [Function.update_self] at hw
    exact hwatched fd hw
  · rwa [Function.update_of_ne ht] at hw

variable (e : FdEvent (Thread n) C)

theorem reactor_same (he : e.reactor = (s.fdEvents fd).reactor) :
    (s.setFd fd e).whereabouts.reactor = s.whereabouts.reactor := by
  rw [reactor_setFd, he]
  exact Function.update_eq_self fd s.whereabouts.reactor

theorem cor_same (he : e.cor = (s.fdEvents fd).cor) : (s.setFd fd e).whereabouts.cor = s.whereabouts.cor := by
  rw [cor_setFd, he]
  exact Function.update_eq_self fd s.whereabouts.cor

end

/-- A thread goes on, and changes none of the lists. -/
theorem Kept.setThread (h : s.Kept) (hth : th.Tidy) (hrun : th.currentCoroutine = (s.threads t).currentCoroutine)
    (hstarts : th.place.starting ++ th.pendingTasks = (s.threads t).place.starting ++ (s.threads t).pendingTasks)
    (hhand : th.place.inHand = (s.threads t).place.inHand)
    (hwatched : ∀ fd, th.Watches fd → (s.threads t).Watches fd) : (s.setThread t th).Kept :=
  ⟨h.apart.quiet (running_same s t th hrun) (starts_same s t th hstarts) (held_same s t th hhand) rfl rfl
    (watched_of s t th hwatched) fun _ _ hr => hr, tidy_setThread h.tidy hth⟩

/-! ## The queues -/

theorem held_push (i : Fin n) : ({ s with queue := s.queue.push i fd } : Process n C).whereabouts.held =
    Function.update s.whereabouts.held (.inl i) (s.whereabouts.held (.inl i) ++ [fd]) := by
  simp only [whereabouts, CoroutineTaskQueue.push, Sum.update_elim_inl, Sum.elim_inl]

theorem held_popSome (i : Fin n) (popCnt : Nat) :
    ({ s with queue := (s.queue.popSome i popCnt).2 } : Process n C).whereabouts.held =
      Function.update s.whereabouts.held (.inl i) ((s.queue.tasks i).drop popCnt) := by
  simp only [whereabouts, CoroutineTaskQueue.popSome, Sum.update_elim_inl]

/-- A thread takes descriptors from a queue. -/
theorem Kept.popSome (h : s.Kept) (i : Fin n) (popCnt : Nat) {place : LoopPlace n C}
    (hstarting : place.starting = (s.threads t).place.starting)
    (hhand : place.inHand = (s.threads t).place.inHand ++ (s.queue.popSome i popCnt).1)
    (hevents : place.eventFds = []) : ({ s with queue := (s.queue.popSome i popCnt).2 }.goto t place).Kept := by
  have hheld : s.whereabouts.held (.inl i) = (s.queue.popSome i popCnt).1 ++ (s.queue.tasks i).drop popCnt :=
    (List.take_append_drop popCnt (s.queue.tasks i)).symm
  have hw := h.apart.move hheld (q := .inr t) (by simp)
  refine ⟨hw.quiet (running_same _ t _ rfl) (starts_same _ t _ (by rw [hstarting])) ?_ rfl rfl
    (watched_of _ t _ fun fd hw => ?_) fun _ _ hr => hr, ?_⟩
  · refine (held_setThread _ t _).trans ?_
    rw [held_popSome, hhand]
    rfl
  · cases hw with
    | inl hw => exact .inl hw
    | inr hw =>
        rw [hevents] at hw
        cases hw
  · exact tidy_setThread (s := { s with queue := (s.queue.popSome i popCnt).2 }) h.tidy
      ⟨(h.tidy t).reactor, hevents ▸ List.nodup_nil⟩

/-! ## Some equations -/

@[simp] theorem setThread_setThread (th' : LoopThread n C) : (s.setThread t th).setThread t th' = s.setThread t th' := by
  simp [setThread]

@[simp] theorem threads_setThread : (s.setThread t th).threads t = th := Function.update_self _ _ _

@[simp] theorem setFd_setThread (e : FdEvent (Thread n) C) :
    (s.setThread t th).setFd fd e = (s.setFd fd e).setThread t th := rfl

@[simp] theorem fdEvents_setThread : (s.setThread t th).fdEvents = s.fdEvents := rfl

@[simp] theorem places_setThread : (s.setThread t th).places = s.places := rfl

variable [DecidableEq C] {cor : C} {event : IOEvent}

theorem resume_scheduled (h : s.places cor = .scheduled) : s.resume t (some cor) =
    (s.setThread t { s.threads t with currentCoroutine := some cor }).setCor cor .body := by
  simp only [resume, h]

theorem resume_waiting (h : s.places cor = .waiting fd event) : s.resume t (some cor) =
    (s.setThread t { s.threads t with currentCoroutine := some cor }).setCor cor (.resumed fd event) := by
  simp only [resume, h]

end Process

end Tirpc
