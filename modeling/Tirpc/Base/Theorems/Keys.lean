import Tirpc.Base.Lemmas.Timer
import Mathlib.Data.List.Nodup

/-!
# Entries under the times of their events

The key of an entry is a copy of the event's arrive time. `OnTimer` changes arrive times, but only of events whose
entries it has taken out before.
-/

namespace Tirpc

open Lib

variable {E : Type}

namespace Timer

/-- What the search of a deletion goes through. -/
def keyRange (k : Int) (l : List (Int × E)) : List (Int × E) :=
  (l.dropWhile fun p => p.1 < k).takeWhile fun p => p.1 ≤ k

/-- The entries are in order and under the arrive times of their events, and no event has two. -/
structure Keyed (s : Timer E) : Prop where
  ordered : Ordered s.pendingEvents
  keyed : ∀ p ∈ s.pendingEvents, p.1 = (s.events p.2).arriveTime
  once : (s.pendingEvents.map Prod.snd).Nodup

variable {s s' : Timer E} {event : E} {now last : Int} {resets : List Int}

namespace Keyed

theorem sublist (h : Keyed s) {l : List (Int × E)} (hl : l.Sublist s.pendingEvents) :
    Keyed { s with pendingEvents := l } :=
  ⟨h.ordered.sublist hl, fun p hp => h.keyed p (hl.subset hp), h.once.sublist (hl.map Prod.snd)⟩

theorem of_eq (h : Keyed s) (hp : s'.pendingEvents = s.pendingEvents) (he : s'.events = s.events) : Keyed s' :=
  ⟨hp ▸ h.ordered, hp ▸ he ▸ h.keyed, hp ▸ h.once⟩

theorem add (h : Keyed s) {needReset : Bool} (he : event ∉ s.pendingEvents.map Prod.snd) :
    Keyed (s.addTimerEvent event needReset now) := by
  have hperm := (emplace_perm (s.events event).arriveTime event s.pendingEvents).map Prod.snd
  refine ⟨?_, ?_, ?_⟩
  · rw [addTimerEvent_pendingEvents]
    exact emplace_ordered h.ordered
  · rw [addTimerEvent_pendingEvents, addTimerEvent_events]
    exact forall_mem_emplace rfl h.keyed
  · rw [addTimerEvent_pendingEvents, hperm.nodup_iff, List.map_cons]
    exact List.nodup_cons.mpr ⟨he, h.once⟩

end Keyed

variable [DecidableEq E]

/-- And so the deletion of a pending event finds its entry, and takes out this one only. -/
structure DeletesPending (s : Timer E) : Prop extends Keyed s where
  found : ∀ e ∈ s.pendingEvents.map Prod.snd, ∃ p ∈ keyRange (s.events e).arriveTime s.pendingEvents, p.2 = e
  removed : ∀ e ∈ s.pendingEvents.map Prod.snd,
    (s.delTimerEvent e).pendingEvents = s.pendingEvents.eraseP fun p => p.2 = e

namespace Keyed

/-- A change of an event's other fields. -/
theorem update (h : Keyed s) {f : TimerEvent → TimerEvent} (hf : ∀ e, (f e).arriveTime = e.arriveTime) :
    Keyed (s.update event f) := by
  refine ⟨h.ordered, fun p hp => ?_, h.once⟩
  rw [h.keyed p hp]
  by_cases he : p.2 = event
  · simp [Timer.update, he, hf]
  · simp [Timer.update, he]

/-- A change of an event that is not pending. -/
theorem update_other (h : Keyed s) {f : TimerEvent → TimerEvent} (he : event ∉ s.pendingEvents.map Prod.snd) :
    Keyed (s.update event f) := by
  refine ⟨h.ordered, fun p hp => ?_, h.once⟩
  have hne : p.2 ≠ event := fun heq => he (heq ▸ List.mem_map_of_mem hp)
  rw [h.keyed p hp]
  simp [Timer.update, hne]

theorem del (h : Keyed s) : Keyed (s.delTimerEvent event) := by
  have hsub : (s.delTimerEvent event).pendingEvents.Sublist s.pendingEvents := delTimerEvent_sublist
  have hcanceled : Keyed (s.update event fun e => { e with isCanceled := true }) := h.update fun _ => rfl
  exact hcanceled.sublist hsub

/-- Events that are not pending are reset and added one after another. -/
theorem requeue (h : Keyed s) {l : List (E × Int)} (hnodup : (l.map Prod.fst).Nodup)
    (hout : ∀ e ∈ l.map Prod.fst, e ∉ s.pendingEvents.map Prod.snd) : Keyed (s.requeue l) := by
  induction l generalizing s with
  | nil => exact h
  | cons a l ih =>
      obtain ⟨ha, hrest⟩ := List.nodup_cons.mp hnodup
      obtain ⟨haout, hout⟩ := List.forall_mem_cons.mp hout
      have hadd : Keyed ((s.update a.1 (·.reset a.2)).addTimerEvent a.1 false a.2) := (h.update_other haout).add haout
      refine ih hadd hrest fun e he hmem => ?_
      obtain ⟨p, hp, rfl⟩ := List.mem_map.mp hmem
      rw [addTimerEvent_pendingEvents] at hp
      rcases mem_emplace.mp hp with rfl | hp
      · exact ha he
      · exact hout _ he (List.mem_map_of_mem hp)

/-- The events that `OnTimer` resets have left the pending events. -/
theorem onTimer (h : Keyed s) (hlen : resets.length = (s.repeatedTasks now).length) :
    Keyed (s.onTimer now resets last) := by
  have hsplit := List.takeWhile_append_dropWhile (p := s.due now) (l := s.pendingEvents)
  have honce := h.once
  rw [← hsplit, List.map_append, List.nodup_append'] at honce
  obtain ⟨htaken, -, hdisj⟩ := honce
  have hfst : ((s.repeatedTasks now).zip resets).map Prod.fst = s.repeatedTasks now :=
    List.map_fst_zip (Nat.le_of_eq hlen.symm)
  have hleft : Keyed { s with
      expiry := s.expiry.filter fun x => now < x
      pendingEvents := s.pendingEvents.dropWhile (s.due now)
      tasks := (s.pendingEvents.takeWhile (s.due now)).map Prod.snd } :=
    (h.sublist (List.dropWhile_sublist _)).of_eq rfl rfl
  have hqueued := hleft.requeue (l := (s.repeatedTasks now).zip resets)
    (by rw [hfst]; exact htaken.sublist List.filter_sublist) (by
      rw [hfst]
      exact fun e he hmem => hdisj (List.mem_of_mem_filter he) hmem)
  exact hqueued.of_eq resetArriveTime_pendingEvents resetArriveTime_events

theorem step (h : Keyed s) {l : TimerCall E} (hok : AddsNotPending s l) (hn : timerCall s l = some s') : Keyed s' := by
  cases l with
  | addTimerEvent event needReset now =>
      cases hn
      exact h.add hok
  | delTimerEvent event =>
      cases hn
      exact h.del
  | cancel event =>
      cases hn
      exact h.update fun _ => rfl
  | cancelRepeated event =>
      cases hn
      exact h.update fun _ => rfl
  | onTimer now resets last =>
      obtain ⟨hlen, hn⟩ := Option.ite_none_right_eq_some.mp hn
      cases hn
      exact h.onTimer hlen

theorem deletes (h : Keyed s) : DeletesPending s where
  toKeyed := h
  found e he := by
    obtain ⟨⟨key, event⟩, hp, rfl⟩ := List.mem_map.mp he
    have hparts := Parts.of_ordered (s.events event).arriveTime h.ordered
    exact hparts.mem_range_iff.mp (h.keyed _ hp ▸ hp)
  removed e he := delTimerEvent_pending h.ordered (fun p hp hpe => hpe ▸ h.keyed p hp) he

end Keyed

/-- In every state of a timer to which no pending event has been added again, the entries are keyed by the times of
their events, and a deletion finds every pending event. -/
theorem timer_keyed (h : Reachable timerCall NewTimer AddsNotPending s) : DeletesPending s := by
  have hkeyed : Keyed s := by
    refine h.invariant (fun s hs => ?_) fun s s' l hI hok hn => hI.step hok hn
    have hnil : s.pendingEvents = [] := hs
    exact ⟨hnil ▸ List.Pairwise.nil, by rw [hnil]; exact fun p hp => absurd hp List.not_mem_nil, by rw [hnil]; simp⟩
  exact hkeyed.deletes

/-- Three events at one time, of which one is repeated, and a deletion after the timer has run. -/
theorem timer_keyed_equal_times : ∃ s : Timer (Fin 3), s.pendingEvents = [(10, 2), (20, 1)] ∧ DeletesPending s := by
  have hstart : Reachable timerCall NewTimer AddsNotPending
      ({ events := fun e => { arriveTime := 10, interval := 10, isRepeated := e = 1 } } : Timer (Fin 3)) := .start rfl
  have hok : RunOk timerCall AddsNotPending
      ({ events := fun e => { arriveTime := 10, interval := 10, isRepeated := e = 1 } } : Timer (Fin 3))
      [.addTimerEvent 0 true 0, .addTimerEvent 1 true 0, .onTimer 10 [10] 10, .addTimerEvent 0 true 10,
        .addTimerEvent 2 true 10, .delTimerEvent 0] := by decide
  obtain ⟨s, hs, hpending⟩ : ∃ s, runLabels timerCall
      ({ events := fun e => { arriveTime := 10, interval := 10, isRepeated := e = 1 } } : Timer (Fin 3))
      [.addTimerEvent 0 true 0, .addTimerEvent 1 true 0, .onTimer 10 [10] 10, .addTimerEvent 0 true 10,
        .addTimerEvent 2 true 10, .delTimerEvent 0] = some s ∧ s.pendingEvents = [(10, 2), (20, 1)] := ⟨_, rfl, rfl⟩
  exact ⟨s, hpending, timer_keyed (hstart.of_runOk hok hs)⟩

end Timer

end Tirpc
