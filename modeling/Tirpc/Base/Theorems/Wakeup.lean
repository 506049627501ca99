import Mathlib.Tactic.Common
import Tirpc.Base.Wakeup

/-!
# No task is lost, and no wake-up
-/

namespace Tirpc

open Lib

variable {T K ε : Type} {s s' : ReactorLoop T K ε} {l : ReactorStep T K ε} {c : T} {x : ReactorCaller}
  {place : ReactorPlace K} {wakes : Prop} {call : WakeupCall}

/-! ## Places of the loop -/

namespace ReactorPlace

def Inside : ReactorPlace K → Prop
  | .outside => False
  | _ => True

/-- The loop has taken the pending tasks, and gets to `epoll_wait` next. -/
def Taken : ReactorPlace K → Prop
  | .tasks _ | .polling => True
  | _ => False

/-- The loop has looked at `stop_`, and gets to `epoll_wait` next. -/
def Past : ReactorPlace K → Prop
  | .swapping | .tasks _ | .polling => True
  | _ => False

theorem Taken.past (h : place.Taken) : place.Past := by
  cases place with
  | tasks _ => trivial
  | polling => trivial
  | _ => exact h.elim

theorem Past.inside (h : place.Past) : place.Inside := by
  cases place with
  | outside => exact h.elim
  | _ => trivial

end ReactorPlace

/-! ## The invariant -/

/-- What the loop will not see before `epoll_wait` is announced: that it is to stop, and the tasks if all who add them
wake it up. -/
structure Heard (wakes : Prop) (s : ReactorLoop T K ε) : Prop where
  looping : s.isLooping = true ↔ s.place.Inside
  order : s.added = s.executed ++ s.place.tmpTasks ++ s.pendingTasks
  tasks : wakes → s.place.Taken → s.pendingTasks ≠ [] → s.Announced
  stop : s.place.Past → s.stop = true → s.Announced

theorem reactorLoopStart_new : ReactorLoopStart ({} : ReactorLoop T K ε) := ⟨rfl, rfl, rfl, rfl, rfl, rfl, rfl⟩

theorem ReactorLoopStart.heard (h : ReactorLoopStart s) : Heard wakes s := by
  obtain ⟨hpending, hlooping, hplace, hadded, hexecuted, -⟩ := h
  refine ⟨?_, ?_, ?_, ?_⟩
  · rw [hlooping, hplace]
    exact ⟨fun hfalse => absurd hfalse Bool.false_ne_true, False.elim⟩
  · rw [hadded, hexecuted, hplace, hpending]
    rfl
  · rw [hplace]
    exact fun _ => False.elim
  · rw [hplace]
    exact False.elim

namespace Heard

theorem past_looping (h : Heard wakes s) (hp : s.place.Past) : s.isLooping = true := h.looping.mpr hp.inside

/-- Where the loop will look at the queue and at `stop_` before it waits, nothing need be announced. -/
theorem of_not_past (hin : s'.isLooping = true ↔ s'.place.Inside)
    (horder : s'.added = s'.executed ++ s'.place.tmpTasks ++ s'.pendingTasks) (hpast : ¬s'.place.Past) :
    Heard wakes s' :=
  ⟨hin, horder, fun _ ht => absurd ht.past hpast, fun hp => absurd hp hpast⟩

/-- The loop goes on to a place from which it looks again before it waits. -/
theorem looks_again (h : Heard wakes s) (hin : s.place.Inside) (hlooping : s'.isLooping = s.isLooping)
    (hin' : s'.place.Inside) (hadded : s'.added = s.added)
    (htasks : s'.executed ++ s'.place.tmpTasks ++ s'.pendingTasks = s.executed ++ s.place.tmpTasks ++ s.pendingTasks)
    (hpast : ¬s'.place.Past) : Heard wakes s' := by
  refine of_not_past ⟨fun _ => hin', fun _ => hlooping.trans (h.looping.mpr hin)⟩ ?_ hpast
  rw [hadded, htasks, h.order]

/-- What a caller does to the queue or to `stop_` comes with an announcement. -/
theorem of_announced (h : Heard wakes s) (hlooping : s'.isLooping = s.isLooping) (hplace : s'.place = s.place)
    (horder : s'.added = s'.executed ++ s.place.tmpTasks ++ s'.pendingTasks)
    (hannounced : s.place.Past → s'.Announced) : Heard wakes s' where
  looping := by
    rw [hlooping, hplace]
    exact h.looping
  order := by
    rw [hplace]
    exact horder
  tasks _ ht _ := hannounced (hplace ▸ ht).past
  stop hp _ := hannounced (hplace ▸ hp)

/-- Neither the queue nor `stop_` changes. -/
theorem of_eq (h : Heard wakes s) (hlooping : s'.isLooping = s.isLooping) (hplace : s'.place = s.place)
    (hadded : s'.added = s.added) (hexecuted : s'.executed = s.executed) (hpending : s'.pendingTasks = s.pendingTasks)
    (hstop : s'.stop = s.stop) (hannounced : s.place.Past → s.Announced → s'.Announced) : Heard wakes s' where
  looping := by
    rw [hlooping, hplace]
    exact h.looping
  order := by
    rw [hplace, hadded, hexecuted, hpending]
    exact h.order
  tasks hw ht hne := by
    rw [hplace] at ht
    rw [hpending] at hne
    exact hannounced ht.past (h.tasks hw ht hne)
  stop hp hs := by
    rw [hplace] at hp
    rw [hstop] at hs
    exact hannounced hp (h.stop hp hs)

theorem push_order (h : Heard wakes s) (tasks : List K) :
    (s.push tasks).added = (s.push tasks).executed ++ s.place.tmpTasks ++ (s.push tasks).pendingTasks := by
  simp only [ReactorLoop.push, h.order, List.append_assoc]

/-! ## The loop -/

theorem loop (h : Heard wakes s) (hn : s.loop = some s') : Heard wakes s' := by
  obtain ⟨hlooping, horder, htasks, hstop⟩ := h
  unfold ReactorLoop.loop at hn
  split at hn
  case h_1 hplace =>
    rw [hplace] at horder
    obtain rfl := Option.some.inj hn
    exact of_not_past ⟨fun _ => trivial, fun _ => rfl⟩ horder id
  case h_2 hplace =>
    rw [hplace] at horder hlooping
    obtain rfl := Option.some.inj hn
    exact of_not_past ⟨fun _ => trivial, fun _ => hlooping.mpr trivial⟩ horder id
  case h_3 hplace =>
    rw [hplace] at horder hlooping
    have hlooping' := hlooping.mpr trivial
    split at hn
    case isTrue hs =>
      obtain rfl := Option.some.inj hn
      exact of_not_past ⟨fun _ => trivial, fun _ => hlooping'⟩ horder id
    case isFalse hs =>
      obtain rfl := Option.some.inj hn
      exact ⟨⟨fun _ => trivial, fun _ => hlooping'⟩, horder, fun _ => False.elim, fun _ hs' => absurd hs' hs⟩
  case h_4 hplace =>
    rw [hplace] at horder hlooping hstop
    obtain rfl := Option.some.inj hn
    refine ⟨⟨fun _ => trivial, fun _ => hlooping.mpr trivial⟩, ?_, fun _ _ hne => absurd rfl hne,
      fun _ => hstop trivial⟩
    exact horder.trans (by simp [ReactorPlace.tmpTasks])
  case h_5 task tmpTasks hplace =>
    rw [hplace] at horder hlooping htasks hstop
    obtain rfl := Option.some.inj hn
    refine ⟨⟨fun _ => trivial, fun _ => hlooping.mpr trivial⟩, ?_, fun hw _ => htasks hw trivial,
      fun _ => hstop trivial⟩
    exact horder.trans (by simp [ReactorPlace.tmpTasks])
  case h_6 hplace =>
    rw [hplace] at horder hlooping htasks hstop
    obtain rfl := Option.some.inj hn
    exact ⟨⟨fun _ => trivial, fun _ => hlooping.mpr trivial⟩, horder, fun hw _ => htasks hw trivial,
      fun _ => hstop trivial⟩
  case h_7 => cases hn
  case h_8 => cases hn
  case h_9 hplace =>
    rw [hplace] at horder hlooping
    obtain rfl := Option.some.inj hn
    exact of_not_past ⟨fun _ => trivial, fun _ => hlooping.mpr trivial⟩ horder id
  case h_10 hplace =>
    rw [hplace] at horder
    obtain rfl := Option.some.inj hn
    exact of_not_past ⟨fun hfalse => absurd hfalse Bool.false_ne_true, False.elim⟩ horder id

end Heard

/-! ## Descriptors that wait -/

section Pending

variable {α : Type} {r r' : Reactor ε}

/-- The requests of other threads are the same. -/
def SamePending (r r' : Reactor ε) : Prop :=
  r'.pendingAddFds = r.pendingAddFds ∧ r'.pendingDelFds = r.pendingDelFds

theorem samePending_foldl {f : Reactor ε → α → Reactor ε} (hf : ∀ r a, SamePending r (f r a)) (l : List α)
    (r : Reactor ε) : SamePending r (l.foldl f r) := by
  induction l generalizing r with
  | nil => exact ⟨rfl, rfl⟩
  | cons a l ih => exact ⟨(ih _).1.trans (hf r a).1, (ih _).2.trans (hf r a).2⟩

theorem drain_pending (r : Reactor ε) : r.drain.pendingAddFds.entries = [] ∧ r.drain.pendingDelFds = [] := by
  have hadd : ∀ (r : Reactor ε) (p : Int × ε), SamePending r (r.addEventInLoopThread p.1 p.2) := fun r p => by
    unfold Reactor.addEventInLoopThread
    split <;> split <;> exact ⟨rfl, rfl⟩
  have hdel : ∀ (r : Reactor ε) (fd : Int), SamePending r (r.delEventInLoopThread fd) := fun r fd => by
    unfold Reactor.delEventInLoopThread
    split <;> exact ⟨rfl, rfl⟩
  rw [Reactor.drain, (samePending_foldl hdel _ _).1, (samePending_foldl hdel _ _).2, (samePending_foldl hadd _ _).1,
    (samePending_foldl hadd _ _).2]
  exact ⟨rfl, rfl⟩

end Pending

/-- In `Wakeup` behind its condition, or before it for descriptors that wait. -/
def ReactorCaller.OnWayForFds : ReactorCaller → Prop
  | .wakeup call => call = .fds
  | .writing => True
  | .idle | .stopping => False

theorem ReactorCaller.OnWayForFds.onWay (h : x.OnWayForFds) : x.OnWay := by
  cases x with
  | wakeup _ => trivial
  | writing => trivial
  | idle => exact h
  | stopping => exact h

/-- The end of the turn is announced where there are descriptors for it, unless it comes anyway. -/
def FdsHeard (s : ReactorLoop T K ε) : Prop :=
  (∀ woken, s.place ≠ .events woken) → s.HasFds → 0 < s.wakeups ∨ ∃ c, (s.callers c).OnWayForFds

theorem FdsHeard.loop (h : FdsHeard s) (hn : s.loop = some s') : FdsHeard s' := by
  unfold ReactorLoop.loop at hn
  split at hn
  case h_9 =>
    obtain rfl := Option.some.inj hn
    exact fun _ hfds => absurd hfds (not_or.mpr ⟨not_not.mpr (drain_pending _).1, not_not.mpr (drain_pending _).2⟩)
  case h_3 hplace =>
    have hevents : ∀ woken, s.place ≠ .events woken := fun woken he => by
      rw [hplace] at he
      cases he
    split at hn
    all_goals
      obtain rfl := Option.some.inj hn
      exact fun _ => h hevents
  case h_7 => cases hn
  case h_8 => cases hn
  all_goals
    rename_i hplace
    have hevents : ∀ woken, s.place ≠ .events woken := fun woken he => by
      rw [hplace] at he
      cases he
    obtain rfl := Option.some.inj hn
    exact fun _ => h hevents

theorem ReactorLoopStart.fdsHeard (hs : ReactorLoopStart s) : FdsHeard s := by
  obtain ⟨-, -, -, -, -, hadd, hdel⟩ := hs
  exact fun _ hfds => absurd hfds (not_or.mpr ⟨not_not.mpr hadd, not_not.mpr hdel⟩)

/-! ## The callers -/

variable [DecidableEq T]

namespace ReactorLoop

@[simp] theorem setCaller_callers_self : (s.setCaller c x).callers c = x := Function.update_self _ _ _

/-- Other callers stay on their way. -/
theorem exists_setCaller {P : ReactorCaller → Prop} (hc : ¬P (s.callers c)) (h : ∃ c', P (s.callers c')) :
    ∃ c', P ((s.setCaller c x).callers c') := by
  obtain ⟨c', hc'⟩ := h
  have hne : c' ≠ c := by
    rintro rfl
    exact hc hc'
  refine ⟨c', ?_⟩
  show P (Function.update s.callers c x c')
  rwa [Function.update_of_ne hne]

theorem announced_setCaller (hx : x.OnWay) : (s.setCaller c x).Announced :=
  .inr ⟨c, by rw [setCaller_callers_self]; exact hx⟩

/-- While the loop is looping, a caller on its way gets to its write. -/
theorem caller_announced (hlooping : s.isLooping = true) (hn : s.caller c = some s') : s'.Announced := by
  unfold ReactorLoop.caller at hn
  split at hn
  case h_1 => cases hn
  case h_2 =>
    obtain rfl := Option.some.inj hn
    exact announced_setCaller (s := s) (x := .wakeup .stop) trivial
  case h_3 =>
    rw [if_pos hlooping] at hn
    obtain rfl := Option.some.inj hn
    exact announced_setCaller (x := .writing) trivial
  case h_4 =>
    obtain rfl := Option.some.inj hn
    exact .inl (Nat.succ_pos _)

end ReactorLoop

namespace Heard

theorem wake (h : Heard wakes s) (isWakeup : Bool) : Heard wakes (s.wake c call isWakeup) := by
  cases isWakeup with
  | false => exact h
  | true => exact h.of_announced rfl rfl h.order fun _ => ReactorLoop.announced_setCaller (x := .wakeup call) trivial

/-- Tasks are added together with a wake-up, where that is asked. -/
theorem addTask {tasks : List K} {isWakeup : Bool} (h : Heard wakes s) (hok : wakes → isWakeup = true) :
    Heard wakes (s.addTask c tasks isWakeup) := by
  unfold ReactorLoop.addTask
  split
  · exact h
  · cases isWakeup with
    | false => exact ⟨h.looping, h.push_order tasks, fun hw => absurd (hok hw) Bool.false_ne_true, h.stop⟩
    | true =>
        exact h.of_announced rfl rfl (h.push_order tasks) fun _ =>
          ReactorLoop.announced_setCaller (x := .wakeup .task) trivial

theorem caller (h : Heard wakes s) (hn : s.caller c = some s') : Heard wakes s' := by
  have hannounced : s.place.Past → s'.Announced := fun hp => ReactorLoop.caller_announced (h.past_looping hp) hn
  unfold ReactorLoop.caller at hn
  split at hn
  case h_1 => cases hn
  case h_2 =>
    obtain rfl := Option.some.inj hn
    exact h.of_announced rfl rfl h.order hannounced
  case h_3 =>
    split at hn
    all_goals
      obtain rfl := Option.some.inj hn
      exact h.of_announced rfl rfl h.order hannounced
  case h_4 =>
    obtain rfl := Option.some.inj hn
    exact h.of_announced rfl rfl h.order hannounced

theorem step (h : Heard wakes s) (hok : wakes → s.TasksWake l) (hn : s.next l = some s') : Heard wakes s' := by
  cases l with
  | loop => exact h.loop hn
  | epollWait woken =>
      simp only [ReactorLoop.next] at hn
      split at hn
      case h_1 hplace =>
        obtain ⟨-, hn⟩ := Option.ite_none_left_eq_some.mp hn
        obtain rfl := Option.some.inj hn
        exact h.looks_again (hplace ▸ trivial) rfl trivial rfl (hplace ▸ rfl) id
      case h_2 => cases hn
  | epollWaitFails =>
      simp only [ReactorLoop.next] at hn
      split at hn
      case h_1 hplace =>
        obtain rfl := Option.some.inj hn
        exact h.looks_again (hplace ▸ trivial) rfl trivial rfl (hplace ▸ rfl) id
      case h_2 => cases hn
  | readWakeup =>
      simp only [ReactorLoop.next] at hn
      split at hn
      case h_1 hplace =>
        obtain rfl := Option.some.inj hn
        exact h.looks_again (hplace ▸ trivial) rfl trivial rfl (hplace ▸ rfl) id
      case h_2 => cases hn
  | callback task =>
      simp only [ReactorLoop.next] at hn
      split at hn
      case h_1 hplace =>
        obtain rfl := Option.some.inj hn
        exact h.of_announced rfl rfl (h.push_order [task]) fun hp => by rw [hplace] at hp; exact hp.elim
      case h_2 => cases hn
  | addTask c tasks isWakeup =>
      obtain ⟨-, hn⟩ := Option.ite_none_right_eq_some.mp hn
      obtain rfl := Option.some.inj hn
      exact h.addTask hok
  | addEvent c fd event isWakeup =>
      obtain ⟨-, hn⟩ := Option.ite_none_right_eq_some.mp hn
      obtain rfl := Option.some.inj hn
      unfold ReactorLoop.addEvent
      split
      · exact h
      · have hs : Heard wakes { s with reactor := s.reactor.addEvent false fd event } :=
          h.of_eq rfl rfl rfl rfl rfl rfl fun _ => id
        exact hs.wake isWakeup
  | delEvent c fd isWakeup =>
      obtain ⟨-, hn⟩ := Option.ite_none_right_eq_some.mp hn
      obtain rfl := Option.some.inj hn
      unfold ReactorLoop.delEvent
      split
      · exact h
      · have hs : Heard wakes { s with reactor := s.reactor.delEvent false fd } :=
          h.of_eq rfl rfl rfl rfl rfl rfl fun _ => id
        exact hs.wake isWakeup
  | stop c =>
      obtain ⟨hidle, hn⟩ := Option.ite_none_right_eq_some.mp hn
      split at hn
      · obtain rfl := Option.some.inj hn
        have hstays : ¬(s.callers c).OnWay := by
          rw [hidle]
          exact id
        exact h.of_eq rfl rfl rfl rfl rfl rfl fun _ ha => ha.imp id (ReactorLoop.exists_setCaller hstays)
      · obtain rfl := Option.some.inj hn
        exact h
  | caller c => exact h.caller hn

end Heard

namespace FdsHeard

/-- A caller that is not on its way for descriptors may go anywhere. -/
theorem setCaller (h : FdsHeard s) (hc : ¬(s.callers c).OnWayForFds) : FdsHeard (s.setCaller c x) := fun hevents hfds =>
  (h hevents hfds).imp id (ReactorLoop.exists_setCaller hc)

theorem addTask {tasks : List K} {isWakeup : Bool} (h : FdsHeard s) (hidle : s.callers c = .idle) :
    FdsHeard (s.addTask c tasks isWakeup) := by
  unfold ReactorLoop.addTask
  split
  · exact h
  · cases isWakeup with
    | false => exact h
    | true => exact setCaller (s := s.push tasks) h (by rw [show (s.push tasks).callers c = .idle from hidle]; exact id)

/-- Who asks for descriptors wakes the loop up. -/
theorem of_wake (s : ReactorLoop T K ε) (c : T) : FdsHeard (s.wake c .fds true) := fun _ _ =>
  .inr ⟨c, by rw [ReactorLoop.wake, if_pos rfl, ReactorLoop.setCaller_callers_self]; rfl⟩

theorem caller (h : FdsHeard s) (hok : s.callers c = .wakeup .fds → s.isLooping = true)
    (hn : s.caller c = some s') : FdsHeard s' := by
  unfold ReactorLoop.caller at hn
  split at hn
  case h_1 => cases hn
  case h_2 hc =>
    obtain rfl := Option.some.inj hn
    exact setCaller h (by rw [hc]; exact id)
  case h_3 call hc =>
    split at hn
    case isTrue =>
      obtain rfl := Option.some.inj hn
      exact fun _ _ => .inr ⟨c, by rw [ReactorLoop.setCaller_callers_self]; trivial⟩
    case isFalse hlooping =>
      obtain rfl := Option.some.inj hn
      refine setCaller h ?_
      rw [hc]
      rintro rfl
      exact hlooping (hok hc)
  case h_4 =>
    obtain rfl := Option.some.inj hn
    exact fun _ _ => .inl (Nat.succ_pos _)

theorem step (h : FdsHeard s) (hok : s.WhileLooping l) (hn : s.next l = some s') : FdsHeard s' := by
  cases l with
  | loop => exact h.loop hn
  | epollWait woken =>
      simp only [ReactorLoop.next] at hn
      split at hn
      case h_1 =>
        obtain ⟨-, hn⟩ := Option.ite_none_left_eq_some.mp hn
        obtain rfl := Option.some.inj hn
        exact fun hplace => absurd rfl (hplace woken)
      case h_2 => cases hn
  | epollWaitFails =>
      simp only [ReactorLoop.next] at hn
      split at hn
      case h_1 hplace =>
        have hevents : ∀ woken, s.place ≠ .events woken := fun woken he => by
          rw [hplace] at he
          cases he
        obtain rfl := Option.some.inj hn
        exact fun _ => h hevents
      case h_2 => cases hn
  | readWakeup =>
      simp only [ReactorLoop.next] at hn
      split at hn
      case h_1 =>
        obtain rfl := Option.some.inj hn
        exact fun hplace => absurd rfl (hplace false)
      case h_2 => cases hn
  | callback task =>
      simp only [ReactorLoop.next] at hn
      split at hn
      case h_1 woken hplace =>
        obtain rfl := Option.some.inj hn
        exact fun hevents => absurd hplace (hevents woken)
      case h_2 => cases hn
  | addTask c tasks isWakeup =>
      obtain ⟨hidle, hn⟩ := Option.ite_none_right_eq_some.mp hn
      obtain rfl := Option.some.inj hn
      exact h.addTask hidle
  | addEvent c fd event isWakeup =>
      obtain ⟨-, hn⟩ := Option.ite_none_right_eq_some.mp hn
      obtain rfl := Option.some.inj hn
      obtain ⟨rfl, -⟩ := hok
      unfold ReactorLoop.addEvent
      split
      · exact h
      · exact of_wake _ c
  | delEvent c fd isWakeup =>
      obtain ⟨-, hn⟩ := Option.ite_none_right_eq_some.mp hn
      obtain rfl := Option.some.inj hn
      obtain ⟨rfl, -⟩ := hok
      unfold ReactorLoop.delEvent
      split
      · exact h
      · exact of_wake _ c
  | stop c =>
      obtain ⟨hidle, hn⟩ := Option.ite_none_right_eq_some.mp hn
      split at hn
      · obtain rfl := Option.some.inj hn
        exact h.setCaller (by rw [hidle]; exact id)
      · obtain rfl := Option.some.inj hn
        exact h
  | caller c => exact h.caller hok hn

end FdsHeard

/-! ## Every run -/

theorem reachable_heard (h : Reachable ReactorLoop.next ReactorLoopStart anyStep s) : Heard False s :=
  h.invariant (fun _ hs => hs.heard) fun _ _ _ hI _ hn => hI.step False.elim hn

/-- The tasks are run in the order in which they were added, each of them once. -/
theorem tasks_in_order (h : Reachable ReactorLoop.next ReactorLoopStart anyStep s) :
    s.added = s.executed ++ s.place.tmpTasks ++ s.pendingTasks := (reachable_heard h).order

/-- From the call of `Loop` to `epoll_wait`, without tasks. -/
def toPolling : List (ReactorStep Unit Nat Unit) := List.replicate 5 .loop

theorem tasks_in_order_two : ∃ s : ReactorLoop Unit Nat Unit,
    runLabels ReactorLoop.next {} (.addTask () [1, 2] true :: toPolling) = some s ∧ s.executed = [1] ∧
      s.added = s.executed ++ s.place.tmpTasks ++ s.pendingTasks := by
  obtain ⟨s, hs, hexecuted⟩ : ∃ s : ReactorLoop Unit Nat Unit,
      runLabels ReactorLoop.next {} (.addTask () [1, 2] true :: toPolling) = some s ∧ s.executed = [1] := ⟨_, rfl, rfl⟩
  exact ⟨s, hs, hexecuted, tasks_in_order ((Reachable.start reactorLoopStart_new).of_run hs)⟩

/-- Where all who add tasks wake the loop up: when it is in `epoll_wait` while there are tasks for it, or while it is to
stop, `wakeup_fd_` is readable or some caller is on its way to write to it. -/
theorem no_lost_wakeup (h : Reachable ReactorLoop.next ReactorLoopStart ReactorLoop.TasksWake s)
    (hplace : s.place = .polling) (hwork : s.pendingTasks ≠ [] ∨ s.stop = true) : s.Announced := by
  have hheard : Heard True s := h.invariant (fun _ hs => hs.heard) fun _ _ _ hI hok hn => hI.step (fun _ => hok) hn
  have htasks := hheard.tasks trivial
  have hstop := hheard.stop
  rw [hplace] at htasks hstop
  exact hwork.elim (htasks trivial) (hstop trivial)

theorem no_lost_wakeup_task : ∃ s : ReactorLoop Unit Nat Unit,
    runLabels ReactorLoop.next {} (toPolling ++ [.addTask () [1] true]) = some s ∧ s.pendingTasks = [1] ∧
      s.Announced := by
  obtain ⟨s, hs, hplace, hpending⟩ : ∃ s : ReactorLoop Unit Nat Unit,
      runLabels ReactorLoop.next {} (toPolling ++ [.addTask () [1] true]) = some s ∧ s.place = .polling ∧
        s.pendingTasks = [1] := ⟨_, rfl, rfl, rfl⟩
  exact ⟨s, hs, hpending, no_lost_wakeup ((Reachable.start reactorLoopStart_new).of_runOk (by decide) hs) hplace
    (.inl (hpending ▸ List.cons_ne_nil 1 []))⟩

/-- A task that is added without a wake-up waits until the loop comes back for something else. -/
example : (runLabels ReactorLoop.next ({} : ReactorLoop Unit Nat Unit)
    (toPolling ++ [.addTask () [1] false])).map (fun s => (s.place, s.pendingTasks, s.wakeups, s.callers ())) =
      some (.polling, [1], 0, .idle) := rfl

/-- The same holds for the requests of `AddEvent` and `DelEvent` when these wake the loop up while it is looping. -/
theorem no_lost_event (h : Reachable ReactorLoop.next ReactorLoopStart ReactorLoop.WhileLooping s)
    (hplace : s.place = .polling) (hfds : s.HasFds) : s.Announced := by
  have hheard : FdsHeard s := h.invariant (fun _ hs => hs.fdsHeard) fun _ _ _ hI hok hn => hI.step hok hn
  have hevents : ∀ woken, s.place ≠ .events woken := fun woken he => by
    rw [hplace] at he
    cases he
  exact (hheard hevents hfds).imp id fun ⟨c, hc⟩ => ⟨c, hc.onWay⟩

/-- A task is added before the call of `Loop`, and an event while the loop waits. -/
def eventWhileLooping : List (ReactorStep Unit Nat Unit) :=
  [.addTask () [1] true, .caller ()] ++ List.replicate 6 .loop ++ [.addEvent () 5 () true]

theorem no_lost_event_one : ∃ s : ReactorLoop Unit Nat Unit,
    runLabels ReactorLoop.next {} eventWhileLooping = some s ∧ s.executed = [1] ∧ s.HasFds ∧ s.Announced := by
  obtain ⟨s, hs, hplace, hexecuted, hadd⟩ : ∃ s : ReactorLoop Unit Nat Unit,
      runLabels ReactorLoop.next {} eventWhileLooping = some s ∧ s.place = .polling ∧ s.executed = [1] ∧
        s.reactor.pendingAddFds.entries = [(5, ())] := ⟨_, rfl, rfl, rfl, rfl⟩
  have hfds : s.HasFds := .inl (hadd ▸ List.cons_ne_nil _ _)
  exact ⟨s, hs, hexecuted, hfds,
    no_lost_event ((Reachable.start reactorLoopStart_new).of_runOk (by decide) hs) hplace hfds⟩

/-- A request before the call of `Loop` is not announced. The loop waits for something else first. -/
example : (runLabels ReactorLoop.next ({} : ReactorLoop Unit Nat Unit)
    ([.addEvent () 5 () true, .caller ()] ++ toPolling)).map (fun s => (s.place, s.reactor.pendingAddFds.entries,
      s.wakeups, s.callers ())) = some (.polling, [(5, ())], 0, .idle) := rfl

/-! ## The next turn -/

theorem run_tasks (tmpTasks : List K) (hplace : s.place = .tasks tmpTasks) :
    runLabels ReactorLoop.next s (List.replicate tmpTasks.length .loop) =
      some { s with executed := s.executed ++ tmpTasks, place := .tasks [] } := by
  induction tmpTasks generalizing s with
  | nil => rw [List.append_nil, ← hplace]; rfl
  | cons task tmpTasks ih =>
      have hstep : s.next .loop = some { s with executed := s.executed ++ [task], place := .tasks tmpTasks } := by
        simp only [ReactorLoop.next, ReactorLoop.loop, hplace]
      rw [List.length_cons, List.replicate_succ, runLabels, hstep, Option.bind_some, ih rfl, List.append_assoc]
      rfl

/-- The steps of the loop from `epoll_wait`, woken, to the end of the tasks of the next turn. -/
def wokenTurn (tasks : Nat) : List (ReactorStep T K ε) :=
  [.epollWait true, .readWakeup, .loop, .loop, .loop] ++ List.replicate tasks .loop

/-- Once `wakeup_fd_` is readable, the loop comes back, serves the descriptors that wait, and runs every task that has
been added. -/
theorem woken_turn (h : Reachable ReactorLoop.next ReactorLoopStart anyStep s) (hplace : s.place = .polling)
    (hwakeups : 0 < s.wakeups) (hstop : s.stop = false) :
    ∃ s', runLabels ReactorLoop.next s (wokenTurn s.pendingTasks.length) = some s' ∧ s'.executed = s.added ∧
      s'.pendingTasks = [] ∧ ¬s'.HasFds := by
  have horder := (reachable_heard h).order
  rw [hplace] at horder
  have hcounter : (s.wakeups == 0) = false := beq_false_of_ne (Nat.ne_of_gt hwakeups)
  have hfirst : runLabels ReactorLoop.next s [.epollWait true, .readWakeup, .loop, .loop, .loop] =
      some { s with
        wakeups := 0
        reactor := s.reactor.drain
        pendingTasks := []
        place := .tasks s.pendingTasks } := by
    simp only [runLabels, ReactorLoop.next, ReactorLoop.loop, ReactorLoop.goto, hplace, hcounter, hstop,
      Bool.and_false, Bool.false_eq_true, if_false, Option.bind_some]
  refine ⟨_, by rw [wokenTurn, runLabels_append, hfirst, Option.bind_some, run_tasks _ rfl], ?_, rfl, ?_⟩
  · exact (horder.trans (congrArg (· ++ s.pendingTasks) (List.append_nil _))).symm
  · exact not_or.mpr ⟨not_not.mpr (drain_pending _).1, not_not.mpr (drain_pending _).2⟩

theorem woken_turn_two : ∃ s s' : ReactorLoop Unit Nat Unit,
    runLabels ReactorLoop.next {} (toPolling ++ [.addTask () [1, 2] true, .caller (), .caller ()]) = some s ∧
      runLabels ReactorLoop.next s (wokenTurn 2) = some s' ∧ s'.executed = [1, 2] := by
  obtain ⟨s, hs, hplace, hwakeups, hstop, hpending, hadded⟩ : ∃ s : ReactorLoop Unit Nat Unit,
      runLabels ReactorLoop.next {} (toPolling ++ [.addTask () [1, 2] true, .caller (), .caller ()]) = some s ∧
        s.place = .polling ∧ 0 < s.wakeups ∧ s.stop = false ∧ s.pendingTasks = [1, 2] ∧ s.added = [1, 2] :=
    ⟨_, rfl, rfl, by decide, rfl, rfl, rfl⟩
  obtain ⟨s', hs', hexecuted, -⟩ := woken_turn ((Reachable.start reactorLoopStart_new).of_run hs) hplace hwakeups hstop
  rw [hpending] at hs'
  exact ⟨s, s', hs, hs', hexecuted.trans hadded⟩

end Tirpc
