import Tirpc.Base.Lemmas.Timer

/-!
# What one call of `OnTimer` fires

The scan takes the due entries up to the first cancelled one. That one stays at the head of the map, and no entry
behind it is fired before it goes.
-/

namespace Tirpc

open Lib

variable {E : Type}

namespace Timer

/-- What a call of `OnTimer` at the time `now` is for: the due events that are not cancelled start in the order of
their arrive times, the entries ahead of the clock stay, and the due repeated events are reset and queued again. -/
structure FiresDue (s : Timer E) (now : Int) (s' : Timer E) : Prop where
  started : ∃ l, l.Perm (s.pendingEvents.filter fun p => p.1 ≤ now && !(s.events p.2).isCanceled) ∧ Ordered l ∧
    s'.tasks = l.map Prod.snd
  pending : s'.pendingEvents.Perm (s.pendingEvents.filter (fun p => now < p.1) ++
    (s.pendingEvents.filter fun p => p.1 ≤ now && (s.events p.2).isRepeated).map fun p =>
      (now + (s.events p.2).interval, p.2))
  inPlace : (s.pendingEvents.filter fun p => now < p.1).Sublist s'.pendingEvents
  kept : ∀ e, (∀ p ∈ s.pendingEvents, p.2 = e → now < p.1) → s'.events e = s.events e
  requeued : ∀ p ∈ s.pendingEvents, p.1 ≤ now → (s.events p.2).isRepeated = true →
    s'.events p.2 = (s.events p.2).reset now

def NoDueCanceled (s : Timer E) (now : Int) : Prop :=
  ∀ p ∈ s.pendingEvents, p.1 ≤ now → (s.events p.2).isCanceled = false

variable {s : Timer E} {now : Int} {event e : E} {l : List (Int × E)}
variable {resets : List Int} {last : Int}

/-! ## The scan -/

theorem due_iff {p : Int × E} : s.due now p = true ↔ p.1 ≤ now ∧ (s.events p.2).isCanceled = false := by
  simp [due]

theorem due_eq (h : s.NoDueCanceled now) {p : Int × E} (hp : p ∈ s.pendingEvents) :
    s.due now p = decide (p.1 ≤ now) := by
  rw [Bool.eq_iff_iff, due_iff, decide_eq_true_iff]
  exact and_iff_left_of_imp (h p hp)

/-- In an ordered map the entries up to `now` stand in front of the others. -/
theorem span_eq_filter {f : Int × E → Bool} (ho : Ordered l) (hf : ∀ p ∈ l, f p = decide (p.1 ≤ now)) :
    l.takeWhile f = l.filter (fun p => p.1 ≤ now) ∧ l.dropWhile f = l.filter fun p => now < p.1 := by
  induction l with
  | nil => exact ⟨rfl, rfl⟩
  | cons a l ih =>
      obtain ⟨ha, hl⟩ := List.pairwise_cons.mp ho
      have hfa := hf a List.mem_cons_self
      obtain ⟨htake, hdrop⟩ := ih hl fun p hp => hf p (List.mem_cons_of_mem a hp)
      by_cases hle : a.1 ≤ now
      · have hnot : ¬now < a.1 := by omega
        simp only [List.takeWhile_cons, List.dropWhile_cons, List.filter_cons, hfa, hle, hnot, htake, hdrop,
          decide_true, decide_false, if_true, if_false, Bool.false_eq_true, and_self]
      · have hahead : ∀ p ∈ a :: l, now < p.1 := by
          intro p hp
          rcases List.mem_cons.mp hp with rfl | hp
          · omega
          · have := ha p hp
            omega
        have hneg : f a = false := by simpa using hfa.trans (decide_eq_false hle)
        rw [List.takeWhile_cons_of_neg (by simp [hneg]), List.dropWhile_cons_of_neg (by simp [hneg]), eq_comm,
          List.filter_eq_nil_iff, eq_comm, List.filter_eq_self]
        exact ⟨fun p hp => by simpa using hahead p hp, fun p hp => by simpa using hahead p hp⟩

theorem collected_eq (ho : Ordered s.pendingEvents) (h : s.NoDueCanceled now) :
    s.pendingEvents.takeWhile (s.due now) = s.pendingEvents.filter (fun p => p.1 ≤ now) ∧
      s.pendingEvents.dropWhile (s.due now) = s.pendingEvents.filter fun p => now < p.1 :=
  span_eq_filter ho fun _ hp => due_eq h hp

theorem mem_repeatedTasks : e ∈ s.repeatedTasks now ↔
    (∃ p ∈ s.pendingEvents.takeWhile (s.due now), p.2 = e) ∧ (s.events e).isRepeated = true := by
  simp only [repeatedTasks, List.mem_filter, List.mem_map]

/-- The entries that are queued again. -/
theorem requeued_eq (ho : Ordered s.pendingEvents) (h : s.NoDueCanceled now)
    (hlen : resets.length = (s.repeatedTasks now).length) (hnow : ∀ t ∈ resets, t = now) :
    ((s.repeatedTasks now).zip resets).map (fun a => (a.2 + (s.events a.1).interval, a.1)) =
      (s.pendingEvents.filter fun p => p.1 ≤ now && (s.events p.2).isRepeated).map fun p =>
        (now + (s.events p.2).interval, p.2) := by
  have hat : ((s.repeatedTasks now).zip resets).map (fun a => (a.2 + (s.events a.1).interval, a.1)) =
      (s.repeatedTasks now).map fun e => (now + (s.events e).interval, e) := by
    conv => rhs; rw [← List.map_fst_zip (Nat.le_of_eq hlen.symm), List.map_map]
    refine List.map_congr_left fun a ha => ?_
    rw [hnow _ (List.of_mem_zip ha).2]
    rfl
  rw [hat, repeatedTasks, (collected_eq ho h).1, List.filter_map, List.map_map, List.filter_filter]
  refine congrArg _ (List.filter_congr fun p _ => ?_)
  exact Bool.and_comm _ _

/-! ## Queueing again -/

theorem emplace_sublist (k : Int) (event : E) (l : List (Int × E)) : l.Sublist (emplace k event l) := by
  conv => lhs; rw [← List.takeWhile_append_dropWhile (p := fun p : Int × E => decide (p.1 ≤ k)) (l := l)]
  exact List.Sublist.append_left (List.sublist_cons_self _ _) _

variable [DecidableEq E] {tasks : List (E × Int)}

theorem requeue_sublist : s.pendingEvents.Sublist (s.requeue tasks).pendingEvents := by
  induction tasks generalizing s with
  | nil => exact .refl _
  | cons a tasks ih =>
      refine List.Sublist.trans ?_ ih
      rw [addTimerEvent_pendingEvents]
      exact emplace_sublist _ _ _

/-- Each event is queued again at its own reading of the clock. -/
theorem requeue_perm : (s.requeue tasks).pendingEvents.Perm
    (s.pendingEvents ++ tasks.map fun a => (a.2 + (s.events a.1).interval, a.1)) := by
  induction tasks generalizing s with
  | nil => simp [requeue]
  | cons a tasks ih =>
      have harrive : ((s.update a.1 (·.reset a.2)).events a.1).arriveTime = a.2 + (s.events a.1).interval := by
        simp [update, TimerEvent.reset]
      refine ih.trans ?_
      simp only [addTimerEvent_pendingEvents, addTimerEvent_events, update_reset_interval, harrive, List.map_cons]
      exact ((emplace_perm _ _ _).append_right _).trans List.perm_middle.symm

theorem reset_reset (ev : TimerEvent) (now : Int) : (ev.reset now).reset now = ev.reset now := rfl

theorem requeue_reset (hnow : ∀ a ∈ tasks, a.2 = now) (he : e ∈ tasks.map Prod.fst) :
    (s.requeue tasks).events e = (s.events e).reset now := by
  induction tasks generalizing s with
  | nil => cases he
  | cons a tasks ih =>
      have ha : a.2 = now := hnow a List.mem_cons_self
      have hrest : ∀ b ∈ tasks, b.2 = now := fun b hb => hnow b (List.mem_cons_of_mem a hb)
      have hself : (s.update e (·.reset now)).events e = (s.events e).reset now := Function.update_self _ _ _
      rw [requeue, ha]
      by_cases hm : e ∈ tasks.map Prod.fst
      · rw [ih hrest hm, addTimerEvent_events]
        by_cases hae : a.1 = e
        · rw [hae, hself, reset_reset]
        · have hother : (s.update a.1 (·.reset now)).events e = s.events e := Function.update_of_ne (Ne.symm hae) _ _
          rw [hother]
      · have hae : e = a.1 := (List.mem_cons.mp he).resolve_right hm
        rw [(requeue_aside hm).events_eq, addTimerEvent_events, ← hae, hself]

/-! ## One call -/

theorem onTimer_taken (s : Timer E) (now : Int) (resets : List Int) (last : Int) : ∃ taken : Timer E,
    taken.events = s.events ∧ taken.pendingEvents = s.pendingEvents.dropWhile (s.due now) ∧
    taken.tasks = (s.pendingEvents.takeWhile (s.due now)).map Prod.snd ∧
    s.onTimer now resets last = (taken.requeue ((s.repeatedTasks now).zip resets)).resetArriveTime last :=
  ⟨{ s with
      expiry := s.expiry.filter fun x => now < x
      pendingEvents := s.pendingEvents.dropWhile (s.due now)
      tasks := (s.pendingEvents.takeWhile (s.due now)).map Prod.snd }, rfl, rfl, rfl, rfl⟩

theorem onTimer_tasks : (s.onTimer now resets last).tasks = (s.pendingEvents.takeWhile (s.due now)).map Prod.snd := by
  obtain ⟨taken, -, -, htasks, heq⟩ := onTimer_taken s now resets last
  rw [heq, resetArriveTime_tasks, requeue_tasks, htasks]

theorem onTimer_perm : (s.onTimer now resets last).pendingEvents.Perm (s.pendingEvents.dropWhile (s.due now) ++
    ((s.repeatedTasks now).zip resets).map fun a => (a.2 + (s.events a.1).interval, a.1)) := by
  obtain ⟨taken, hevents, hpending, -, heq⟩ := onTimer_taken s now resets last
  rw [heq, resetArriveTime_pendingEvents, ← hpending, ← hevents]
  exact requeue_perm

theorem onTimer_keeps : (s.pendingEvents.dropWhile (s.due now)).Sublist (s.onTimer now resets last).pendingEvents := by
  obtain ⟨taken, -, hpending, -, heq⟩ := onTimer_taken s now resets last
  rw [heq, resetArriveTime_pendingEvents, ← hpending]
  exact requeue_sublist

theorem onTimer_events_of_not_mem (he : e ∉ s.repeatedTasks now) :
    (s.onTimer now resets last).events e = s.events e := by
  have hno : e ∉ ((s.repeatedTasks now).zip resets).map Prod.fst := by
    intro hm
    obtain ⟨a, ha, rfl⟩ := List.mem_map.mp hm
    exact he (List.of_mem_zip ha).1
  obtain ⟨taken, hevents, -, -, heq⟩ := onTimer_taken s now resets last
  rw [heq, resetArriveTime_events, (requeue_aside hno).events_eq, hevents]

theorem onTimer_events_of_mem (hlen : resets.length = (s.repeatedTasks now).length) (hnow : ∀ t ∈ resets, t = now)
    (he : e ∈ s.repeatedTasks now) : (s.onTimer now resets last).events e = (s.events e).reset now := by
  have hmem : e ∈ ((s.repeatedTasks now).zip resets).map Prod.fst := by
    rw [List.map_fst_zip (Nat.le_of_eq hlen.symm)]
    exact he
  obtain ⟨taken, hevents, -, -, heq⟩ := onTimer_taken s now resets last
  rw [heq, resetArriveTime_events, requeue_reset (fun a ha => hnow _ (List.of_mem_zip ha).2) hmem, hevents]

theorem FiresDue.of_noDueCanceled (ho : Ordered s.pendingEvents) (h : s.NoDueCanceled now)
    (hlen : resets.length = (s.repeatedTasks now).length) (hnow : ∀ t ∈ resets, t = now) :
    FiresDue s now (s.onTimer now resets last) := by
  obtain ⟨htake, hdrop⟩ := collected_eq ho h
  refine ⟨⟨s.pendingEvents.filter fun p => p.1 ≤ now, ?_, ho.sublist List.filter_sublist, ?_⟩, ?_, ?_, ?_, ?_⟩
  · refine .of_eq (List.filter_congr fun p hp => ?_)
    by_cases hle : p.1 ≤ now
    · simp [h p hp hle]
    · simp [hle]
  · rw [onTimer_tasks, htake]
  · rw [← requeued_eq ho h hlen hnow, ← hdrop]
    exact onTimer_perm
  · exact hdrop ▸ onTimer_keeps
  · intro e he
    refine onTimer_events_of_not_mem fun hm => ?_
    obtain ⟨⟨p, hp, rfl⟩, -⟩ := mem_repeatedTasks.mp hm
    rw [htake, List.mem_filter, decide_eq_true_iff] at hp
    exact absurd (he p hp.1 rfl) (Int.not_lt.mpr hp.2)
  · intro p hp hle hr
    refine onTimer_events_of_mem hlen hnow (mem_repeatedTasks.mpr ⟨⟨p, ?_, rfl⟩, hr⟩)
    rw [htake, List.mem_filter, decide_eq_true_iff]
    exact ⟨hp, hle⟩

/-- A cancelled event is not touched, so a due one is neither reset nor taken out. -/
theorem FiresDue.noDueCanceled (h : FiresDue s now (s.onTimer now resets last)) : s.NoDueCanceled now := by
  intro p hp hle
  by_contra hc
  have hc : (s.events p.2).isCanceled = true := by simpa using hc
  have hcollected : p.2 ∉ (s.pendingEvents.takeWhile (s.due now)).map Prod.snd := by
    intro hm
    obtain ⟨q, hq, hqp⟩ := List.mem_map.mp hm
    have hlive := (due_iff.mp (List.mem_takeWhile_imp hq)).2
    rw [hqp, hc] at hlive
    cases hlive
  have hevents : (s.onTimer now resets last).events p.2 = s.events p.2 :=
    onTimer_events_of_not_mem fun hm => hcollected (List.mem_map.mpr (mem_repeatedTasks.mp hm).1)
  by_cases hr : (s.events p.2).isRepeated = true
  · have hreset := congrArg TimerEvent.isCanceled (hevents.symm.trans (h.requeued p hp hle hr))
    rw [hc] at hreset
    cases hreset
  · have hleft : p ∈ s.pendingEvents.dropWhile (s.due now) := by
      rw [← List.takeWhile_append_dropWhile (p := s.due now) (l := s.pendingEvents), List.mem_append] at hp
      exact hp.resolve_left fun hm => hcollected (List.mem_map_of_mem hm)
    have hmem := h.pending.subset (onTimer_keeps.subset hleft)
    simp only [List.mem_append, List.mem_filter, decide_eq_true_eq, List.mem_map, Bool.and_eq_true] at hmem
    rcases hmem with ⟨-, hlt⟩ | ⟨q, ⟨-, -, hq⟩, rfl⟩
    · omega
    · exact hr hq

theorem FiresDue.clock (ho : Ordered s.pendingEvents) (hlen : resets.length = (s.repeatedTasks now).length)
    (h : FiresDue s now (s.onTimer now resets last)) : ∀ t ∈ resets, t = now := by
  intro t ht
  have hperm := onTimer_perm.symm.trans h.pending
  rw [(collected_eq ho h.noDueCanceled).2, List.perm_append_left_iff] at hperm
  rw [← List.map_snd_zip (Nat.le_of_eq hlen)] at ht
  obtain ⟨a, ha, rfl⟩ := List.mem_map.mp ht
  have hmem := hperm.subset (List.mem_map_of_mem ha)
  obtain ⟨p, -, hp⟩ := List.mem_map.mp hmem
  have he : p.2 = a.1 := congrArg Prod.snd hp
  have hk : now + (s.events p.2).interval = a.2 + (s.events a.1).interval := congrArg Prod.fst hp
  rw [he] at hk
  omega

/-- For every ordered list of pending events and every reading of the clock: `OnTimer` fires what is due, and
nothing else, exactly if no due event is cancelled and the clock has not moved on when the repeated events are
reset. -/
theorem onTimer_fires_due_iff (s : Timer E) (now : Int) (resets : List Int) (last : Int)
    (ho : Ordered s.pendingEvents) (hlen : resets.length = (s.repeatedTasks now).length) :
    FiresDue s now (s.onTimer now resets last) ↔ s.NoDueCanceled now ∧ ∀ t ∈ resets, t = now :=
  ⟨fun h => ⟨h.noDueCanceled, h.clock ho hlen⟩, fun h => .of_noDueCanceled ho h.1 hlen h.2⟩

/-- A repeated event, a one-shot event and one that is ahead of the clock. -/
def threeEvents : Timer Nat where
  events e := { arriveTime := if e = 0 then 5 else if e = 1 then 10 else 90, interval := 50, isRepeated := e = 0 }
  pendingEvents := [(5, 0), (10, 1), (90, 2)]

theorem threeEvents_fire : FiresDue threeEvents 20 (threeEvents.onTimer 20 [20] 20) ∧
    (threeEvents.onTimer 20 [20] 20).pendingEvents = [(70, 0), (90, 2)] := by
  have hordered : Ordered threeEvents.pendingEvents := by simp [Ordered, threeEvents]
  refine ⟨(onTimer_fires_due_iff threeEvents 20 [20] 20 hordered rfl).mpr ⟨?_, by simp⟩, rfl⟩
  exact fun _ _ _ => rfl

/-! ## A cancelled event at the head of the map -/

def canceledAhead : TimerState Bool :=
  { timer := { events := fun e => { arriveTime := if e then 5 else 10, interval := 10 } }, now := 0 }

theorem canceledAhead_start : TimerStart canceledAhead := ⟨rfl, rfl, rfl⟩

/-- An event that was deleted is added again: it stays cancelled, and the due event behind it does not start. -/
theorem canceled_blocks_due : ∃ s : TimerState Bool, Reachable timerNext TimerStart anyStep s ∧
    ¬FiresDue s.timer 20 (s.timer.onTimer 20 [] 20) := by
  obtain ⟨s, hs, hpending, hcanceled⟩ : ∃ s, runLabels timerNext canceledAhead
      [.add true 0, .del true, .add true 0, .add false 0] = some s ∧
        s.timer.pendingEvents = [(5, true), (10, false)] ∧ (s.timer.events true).isCanceled = true :=
    ⟨_, rfl, rfl, rfl⟩
  refine ⟨s, (Reachable.start canceledAhead_start).of_run hs, fun h => ?_⟩
  have hlive := h.noDueCanceled (5, true) (by simp [hpending]) (by decide)
  rw [hcanceled] at hlive
  cases hlive

end Timer

end Tirpc
