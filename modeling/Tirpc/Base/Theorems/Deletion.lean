import Tirpc.Base.Lemmas.Timer

/-!
# What a deletion stops

A deleted event stays cancelled until it is reset, and only `OnTimer` resets events, those that it has just
collected. So a deletion stops every later collection of the event; what has been collected before is started
all the same.
-/

namespace Tirpc

open Lib Timer

variable {E : Type} {s s' : TimerState E} {t : Timer E} {e event : E} {now : Int}

/-- Nobody adds the event. -/
def NotAdded (e : E) (_ : TimerState E) (l : TimerStep E) : Prop := ∀ now, l ≠ .add e now

theorem startTask_notAdded : NotAdded e s .startTask := by
  intro now h
  cases h

theorem not_collected_of_canceled (h : (t.events e).isCanceled = true) :
    e ∉ (t.pendingEvents.takeWhile (t.due now)).map Prod.snd := by
  intro he
  obtain ⟨p, hp, rfl⟩ := List.mem_map.mp he
  have hdue := List.mem_takeWhile_imp hp
  rw [not_due_of_canceled h] at hdue
  cases hdue

variable [DecidableEq E]

/-- In no run from here does the task of the event start before the event is added. -/
def StaysSilent (s : TimerState E) (e : E) : Prop :=
  ∀ s', Reachable timerNext (· = s) (NotAdded e) s' → s'.timer.tasks.head? ≠ some e

def afterDel (s : TimerState E) (event : E) : TimerState E := { s with timer := s.timer.delTimerEvent event }

/-! ## A cancelled event stays cancelled -/

structure Stopped (t : Timer E) (e : E) : Prop where
  canceled : (t.events e).isCanceled = true
  notCollected : e ∉ t.tasks

theorem requeue_events {l : List (E × Int)} (h : e ∉ l.map Prod.fst) : (t.requeue l).events e = t.events e :=
  (requeue_aside h).events_eq

theorem Stopped.del (h : Stopped t e) : Stopped (t.delTimerEvent event) e :=
  ⟨delTimerEvent_canceled (.inr h.canceled), h.notCollected⟩

theorem Stopped.onTimer {resets : List Int} {last : Int} (h : Stopped t e) :
    Stopped (t.onTimer now resets last) e := by
  have hnot : e ∉ (t.pendingEvents.takeWhile (t.due now)).map Prod.snd := not_collected_of_canceled h.canceled
  have hrepeated : e ∉ ((t.repeatedTasks now).zip resets).map Prod.fst := by
    intro he
    obtain ⟨a, ha, rfl⟩ := List.mem_map.mp he
    exact hnot (List.mem_filter.mp (List.of_mem_zip ha).1).1
  constructor
  · simp only [Timer.onTimer, resetArriveTime_events, requeue_events hrepeated]
    exact h.canceled
  · simp only [Timer.onTimer, resetArriveTime_tasks, requeue_tasks]
    exact hnot

theorem stopped_step {l : TimerStep E} (h : Stopped s.timer e) (hn : timerNext s l = some s') :
    Stopped s'.timer e := by
  cases l with
  | add event now =>
      obtain ⟨-, hn⟩ := Option.ite_none_right_eq_some.mp hn
      cases hn
      exact ⟨by rw [addTimerEvent_events]; exact h.canceled, by rw [addTimerEvent_tasks]; exact h.notCollected⟩
  | del event =>
      cases hn
      exact h.del
  | onTimer now resets last =>
      obtain ⟨-, hn⟩ := Option.ite_none_right_eq_some.mp hn
      cases hn
      exact h.onTimer
  | startTask =>
      simp only [timerNext] at hn
      split at hn
      · cases hn
      · rename_i event rest htasks
        cases hn
        have hnot := h.notCollected
        rw [htasks] at hnot
        exact ⟨h.canceled, fun he => hnot (List.mem_cons_of_mem event he)⟩
  | elapse now =>
      obtain ⟨-, hn⟩ := Option.ite_none_right_eq_some.mp hn
      cases hn
      exact h

theorem Stopped.staysSilent (h : Stopped s.timer e) : StaysSilent s e := by
  intro s' hs' hhead
  have hstopped : Stopped s'.timer e :=
    hs'.invariant (I := fun s => Stopped s.timer e) (fun _ he => he ▸ h) fun _ _ _ hI _ hn => stopped_step hI hn
  exact hstopped.notCollected (List.mem_of_head? hhead)

/-! ## What has been collected starts -/

/-- The tasks start one after another. -/
theorem collected_starts (hs : Reachable timerNext (· = s) (NotAdded e) s') (h : e ∈ s'.timer.tasks) :
    ∃ s'', Reachable timerNext (· = s) (NotAdded e) s'' ∧ s''.timer.tasks.head? = some e := by
  induction htasks : s'.timer.tasks generalizing s' with
  | nil =>
      rw [htasks] at h
      cases h
  | cons event rest ih =>
      by_cases he : event = e
      · exact ⟨s', hs, by rw [htasks, he]; rfl⟩
      · have hn : timerNext s' .startTask = some { s' with timer := { s'.timer with tasks := rest } } := by
          simp only [timerNext, htasks]
        rw [htasks] at h
        exact ih (hs.step .startTask startTask_notAdded hn) ((List.mem_cons.mp h).resolve_left (Ne.symm he)) rfl

/-- For every state of a timer and every event: a deletion silences the event exactly if no running `OnTimer`
has collected it and not started it. -/
theorem deleted_silent_iff (s : TimerState E) (event : E) :
    StaysSilent (afterDel s event) event ↔ event ∉ s.timer.tasks := by
  constructor
  · intro h he
    have hs : Reachable timerNext (· = afterDel s event) (NotAdded event) (afterDel s event) := .start rfl
    obtain ⟨s', hs', hhead⟩ := collected_starts hs he
    exact h s' hs' hhead
  · intro h
    have hstopped : Stopped (afterDel s event).timer event := ⟨delTimerEvent_canceled (.inl rfl), h⟩
    exact hstopped.staysSilent

/-! ## A task that deletes another of its batch -/

/-- Two events that are due at the same time. -/
def sameTime : TimerState Bool :=
  { timer := { events := fun _ => { arriveTime := 10, interval := 10 } }, now := 0 }

theorem sameTime_start : TimerStart sameTime := ⟨rfl, rfl, rfl⟩

/-- `OnTimer` has collected both, and the task of the first has started. -/
theorem deleted_event_fires : ∃ s : TimerState Bool,
    Reachable timerNext TimerStart anyStep s ∧ ¬StaysSilent (afterDel s true) true := by
  obtain ⟨s, hs, htasks⟩ : ∃ s, runLabels timerNext sameTime
      [.add false 0, .add true 0, .onTimer 10 [] 10, .startTask] = some s ∧ s.timer.tasks = [true] := ⟨_, rfl, rfl⟩
  refine ⟨s, (Reachable.start sameTime_start).of_run hs, fun h => ?_⟩
  exact h (afterDel s true) (.start rfl) (by simp [afterDel, delTimerEvent, update, htasks])

end Tirpc
