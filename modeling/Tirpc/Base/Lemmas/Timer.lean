import Mathlib.Data.List.TakeWhile
import Tirpc.Base.Timer

/-!
# What the operations of the timer do to the pending events
-/

namespace Tirpc

open Lib

variable {E : Type}

namespace Timer

/-- The order of a multimap. -/
def Ordered (l : List (Int × E)) : Prop := l.Pairwise fun p q => p.1 ≤ q.1

variable {s : Timer E} {now : Int} {event e : E}

/-! ## Adding -/

theorem emplace_perm (k : Int) (event : E) (l : List (Int × E)) : (emplace k event l).Perm ((k, event) :: l) := by
  have hl := List.takeWhile_append_dropWhile (p := fun p : Int × E => decide (p.1 ≤ k)) (l := l)
  conv => rhs; rw [← hl]
  exact List.perm_middle

theorem mem_emplace {k : Int} {l : List (Int × E)} {p : Int × E} :
    p ∈ emplace k event l ↔ p = (k, event) ∨ p ∈ l := by
  rw [(emplace_perm k event l).mem_iff, List.mem_cons]

theorem forall_mem_emplace {P : Int × E → Prop} {k : Int} {l : List (Int × E)} (hk : P (k, event))
    (hl : ∀ p ∈ l, P p) : ∀ p ∈ emplace k event l, P p := by
  intro p hp
  rcases mem_emplace.mp hp with rfl | hp
  · exact hk
  · exact hl p hp

@[simp] theorem resetArriveTime_pendingEvents : (s.resetArriveTime now).pendingEvents = s.pendingEvents := by
  simp only [resetArriveTime]
  split
  · rfl
  · split <;> rfl

@[simp] theorem resetArriveTime_events : (s.resetArriveTime now).events = s.events := by
  simp only [resetArriveTime]
  split
  · rfl
  · split <;> rfl

@[simp] theorem addTimerEvent_pendingEvents {needReset : Bool} :
    (s.addTimerEvent event needReset now).pendingEvents =
      emplace (s.events event).arriveTime event s.pendingEvents := by
  simp only [addTimerEvent]
  split <;> simp

@[simp] theorem addTimerEvent_events {needReset : Bool} :
    (s.addTimerEvent event needReset now).events = s.events := by
  simp only [addTimerEvent]
  split <;> simp

@[simp] theorem resetArriveTime_tasks : (s.resetArriveTime now).tasks = s.tasks := by
  simp only [resetArriveTime]
  split
  · rfl
  · split <;> rfl

@[simp] theorem addTimerEvent_tasks {needReset : Bool} : (s.addTimerEvent event needReset now).tasks = s.tasks := by
  simp only [addTimerEvent]
  split <;> simp

theorem ordered_dropWhile_lt {k : Int} {l : List (Int × E)} (h : Ordered l) {p : Int × E}
    (hp : p ∈ l.dropWhile fun p => p.1 ≤ k) : k < p.1 := by
  induction l with
  | nil => cases hp
  | cons a l ih =>
      obtain ⟨ha, hl⟩ := List.pairwise_cons.mp h
      simp only [List.dropWhile_cons] at hp
      split at hp
      · exact ih hl hp
      · rename_i hlt
        have hlt' : k < a.1 := by simpa using hlt
        rcases List.mem_cons.mp hp with rfl | hp
        · exact hlt'
        · exact Int.lt_of_lt_of_le hlt' (ha p hp)

theorem emplace_ordered {k : Int} {l : List (Int × E)} (h : Ordered l) : Ordered (emplace k event l) := by
  have htake : ∀ p ∈ l.takeWhile (fun p => p.1 ≤ k), p.1 ≤ k := by
    intro p hp
    simpa using List.mem_takeWhile_imp hp
  refine List.pairwise_append.mpr ⟨h.sublist (List.takeWhile_sublist _), ?_, ?_⟩
  · refine List.pairwise_cons.mpr ⟨fun p hp => ?_, h.sublist (List.dropWhile_sublist _)⟩
    exact Int.le_of_lt (ordered_dropWhile_lt h hp)
  · intro p hp q hq
    rcases List.mem_cons.mp hq with rfl | hq
    · exact htake p hp
    · exact Int.le_trans (htake p hp) (Int.le_of_lt (ordered_dropWhile_lt h hq))

/-! ## The three parts of an ordered map -/

/-- The entries below, at and above a key. -/
structure Parts (k : Int) (l lower range upper : List (Int × E)) : Prop where
  eq : l = lower ++ (range ++ upper)
  below : ∀ p ∈ lower, p.1 < k
  at_key : ∀ p ∈ range, p.1 = k
  above : ∀ p ∈ upper, k < p.1

theorem dropWhile_lt_not {k : Int} {l : List (Int × E)} (h : Ordered l) {p : Int × E}
    (hp : p ∈ l.dropWhile fun p => p.1 < k) : k ≤ p.1 := by
  have hlt : k - 1 < p.1 := by
    refine ordered_dropWhile_lt (k := k - 1) h ?_
    simpa only [Int.le_sub_one_iff] using hp
  omega

theorem parts_eq (k : Int) (l : List (Int × E)) : l = l.takeWhile (fun p => p.1 < k) ++
    ((l.dropWhile fun p => p.1 < k).takeWhile (fun p => p.1 ≤ k) ++
      (l.dropWhile fun p => p.1 < k).dropWhile fun p => p.1 ≤ k) := by
  rw [List.takeWhile_append_dropWhile, List.takeWhile_append_dropWhile]

theorem Parts.of_ordered (k : Int) {l : List (Int × E)} (h : Ordered l) :
    Parts k l (l.takeWhile fun p => p.1 < k) ((l.dropWhile fun p => p.1 < k).takeWhile fun p => p.1 ≤ k)
      ((l.dropWhile fun p => p.1 < k).dropWhile fun p => p.1 ≤ k) where
  eq := parts_eq k l
  below p hp := by simpa using List.mem_takeWhile_imp hp
  at_key p hp := by
    have hle : p.1 ≤ k := by simpa using List.mem_takeWhile_imp hp
    exact Int.le_antisymm hle (dropWhile_lt_not h (List.takeWhile_subset _ hp))
  above p hp := ordered_dropWhile_lt (h.sublist (List.dropWhile_sublist _)) hp

theorem Parts.mem_range_iff {k : Int} {l lower range upper : List (Int × E)} (h : Parts k l lower range upper) :
    (k, event) ∈ l ↔ ∃ p ∈ range, p.2 = event := by
  rw [h.eq, List.mem_append, List.mem_append]
  constructor
  · rintro (hm | hm | hm)
    · exact absurd (h.below _ hm) (Int.lt_irrefl _)
    · exact ⟨_, hm, rfl⟩
    · exact absurd (h.above _ hm) (Int.lt_irrefl _)
  · rintro ⟨⟨k', _⟩, hp, rfl⟩
    exact .inr (.inl (h.at_key _ hp ▸ hp))

/-! ## Deleting and firing -/

theorem not_due_of_canceled {p : Int × E} (h : (s.events p.2).isCanceled = true) : s.due now p = false := by
  simp [due, h]

theorem repeatedTasks_not_mem (h : (s.events e).isRepeated = false) : e ∉ s.repeatedTasks now := by
  intro hm
  have hr := (List.mem_filter.mp hm).2
  rw [h] at hr
  cases hr

variable [DecidableEq E]

theorem delTimerEvent_sublist : (s.delTimerEvent event).pendingEvents.Sublist s.pendingEvents := by
  conv => rhs; rw [parts_eq (s.events event).arriveTime s.pendingEvents]
  simp only [delTimerEvent]
  refine List.Sublist.append_left ?_ _
  split
  · exact List.Sublist.append_right List.eraseP_sublist _
  · exact List.Sublist.append_left (List.tail_sublist _) _

theorem mem_delTimerEvent {p : Int × E} (h : p ∈ (s.delTimerEvent event).pendingEvents) :
    p ∈ s.pendingEvents := delTimerEvent_sublist.subset h

theorem delTimerEvent_canceled (h : e = event ∨ (s.events e).isCanceled = true) :
    ((s.delTimerEvent event).events e).isCanceled = true := by
  by_cases he : e = event
  · simp [delTimerEvent, update, he]
  · simp [delTimerEvent, update, he, h.resolve_left he]

theorem update_reset_interval (e : E) : ((s.update event (·.reset now)).events e).interval = (s.events e).interval := by
  by_cases he : e = event
  · simp [update, he, TimerEvent.reset]
  · simp [update, he]

theorem mem_requeue {l : List (E × Int)} {p : Int × E} (h : p ∈ (s.requeue l).pendingEvents) :
    p ∈ s.pendingEvents ∨ ∃ a ∈ l, p.1 = a.2 + (s.events a.1).interval := by
  induction l generalizing s with
  | nil => exact .inl h
  | cons a l ih =>
      rw [requeue] at h
      rcases ih h with h | ⟨a', ha', hp⟩
      · rw [addTimerEvent_pendingEvents] at h
        rcases mem_emplace.mp h with rfl | h
        · exact .inr ⟨a, List.mem_cons_self, by simp [update, TimerEvent.reset]⟩
        · exact .inl h
      · refine .inr ⟨a', List.mem_cons_of_mem a ha', ?_⟩
        rw [hp, addTimerEvent_events, update_reset_interval]

theorem requeue_tasks {l : List (E × Int)} : (s.requeue l).tasks = s.tasks := by
  induction l generalizing s with
  | nil => rfl
  | cons a l ih =>
      rw [requeue, ih, addTimerEvent_tasks]
      rfl

/-- An event that is pending under its arrive time is found. -/
theorem delTimerEvent_pending (ho : Ordered s.pendingEvents)
    (hk : ∀ p ∈ s.pendingEvents, p.2 = event → p.1 = (s.events event).arriveTime)
    (hm : event ∈ s.pendingEvents.map Prod.snd) :
    (s.delTimerEvent event).pendingEvents = s.pendingEvents.eraseP fun p => p.2 = event := by
  have hparts := Parts.of_ordered (s.events event).arriveTime ho
  -- the entry stands between the bounds
  obtain ⟨p, hp, hpe⟩ : ∃ p ∈ (s.pendingEvents.dropWhile fun p => p.1 < (s.events event).arriveTime).takeWhile
      fun p => p.1 ≤ (s.events event).arriveTime, p.2 = event := by
    obtain ⟨⟨key, _⟩, hp, rfl⟩ := List.mem_map.mp hm
    exact hparts.mem_range_iff.mp (hk _ hp rfl ▸ hp)
  have hnot : ∀ q ∈ s.pendingEvents.takeWhile (fun p => p.1 < (s.events event).arriveTime),
      ¬decide (q.2 = event) = true := by
    intro q hq heq
    have hqk := hk q (List.takeWhile_subset _ hq) (of_decide_eq_true heq)
    have hlt := hparts.below q hq
    omega
  conv => rhs; rw [hparts.eq]
  rw [List.eraseP_append_right _ hnot, List.eraseP_append_left (by simpa using hpe) _ hp]
  simp only [delTimerEvent]
  rw [if_pos ⟨p, hp, hpe⟩]

/-! ## How often an event occurs -/

/-- The number of times that the event is pending, or has been collected and not started. -/
def occurrences (s : Timer E) (e : E) : Nat := (s.pendingEvents.map Prod.snd ++ s.tasks).count e

theorem occurrences_eq (s : Timer E) (e : E) :
    s.occurrences e = (s.pendingEvents.map Prod.snd).count e + s.tasks.count e := List.count_append

theorem addTimerEvent_occurrences {needReset : Bool} : (s.addTimerEvent event needReset now).occurrences e =
    s.occurrences e + if event = e then 1 else 0 := by
  have hperm := (emplace_perm (s.events event).arriveTime event s.pendingEvents).map Prod.snd
  rw [occurrences_eq, occurrences_eq, addTimerEvent_pendingEvents, addTimerEvent_tasks, hperm.count_eq,
    List.map_cons, List.count_cons]
  simp only [beq_iff_eq]
  omega

theorem delTimerEvent_occurrences_le : (s.delTimerEvent event).occurrences e ≤ s.occurrences e := by
  rw [occurrences_eq, occurrences_eq]
  exact Nat.add_le_add_right ((delTimerEvent_sublist.map Prod.snd).count_le e) _

/-- An event that occurs once and has not been collected is gone. -/
theorem delTimerEvent_gone (ho : Ordered s.pendingEvents)
    (hk : ∀ p ∈ s.pendingEvents, p.2 = event → p.1 = (s.events event).arriveTime)
    (hone : s.occurrences event ≤ 1) (htasks : event ∉ s.tasks) : (s.delTimerEvent event).occurrences event = 0 := by
  have hzero : s.tasks.count event = 0 := List.count_eq_zero_of_not_mem htasks
  by_cases hm : event ∈ s.pendingEvents.map Prod.snd
  · have hcount : ((s.delTimerEvent event).pendingEvents.map Prod.snd).count event =
        (s.pendingEvents.map Prod.snd).count event - 1 := by
      rw [delTimerEvent_pending ho hk hm]
      have herase : (s.pendingEvents.eraseP fun p => decide (p.2 = event)).map Prod.snd =
          (s.pendingEvents.map Prod.snd).erase event := by
        rw [List.erase_eq_eraseP, List.eraseP_map]
        simp only [Function.comp_def, beq_eq_decide, eq_comm]
      rw [herase, List.count_erase_self]
    rw [occurrences_eq] at hone ⊢
    rw [hcount]
    show _ + s.tasks.count event = 0
    omega
  · have hle : (s.delTimerEvent event).occurrences event ≤ s.occurrences event := delTimerEvent_occurrences_le
    rw [occurrences_eq s, List.count_eq_zero_of_not_mem hm, hzero] at hle
    exact Nat.le_zero.mp hle

/-! ## An event that is not repeated -/

/-- What a reset of other events leaves of the event. -/
structure Aside (s s' : Timer E) (e : E) : Prop where
  events_eq : s'.events e = s.events e
  occurs : s'.occurrences e = s.occurrences e
  pending : ∀ p ∈ s'.pendingEvents, p.2 = e → p ∈ s.pendingEvents

theorem Aside.trans {s₁ s₂ : Timer E} (h : Aside s s₁ e) (h' : Aside s₁ s₂ e) : Aside s s₂ e where
  events_eq := h'.events_eq.trans h.events_eq
  occurs := h'.occurs.trans h.occurs
  pending p hp he := h.pending p (h'.pending p hp he) he

theorem update_aside {f : TimerEvent → TimerEvent} (he : event ≠ e) : Aside s (s.update event f) e :=
  ⟨Function.update_of_ne (Ne.symm he) _ _, rfl, fun _ hp _ => hp⟩

theorem addTimerEvent_aside {needReset : Bool} (he : event ≠ e) : Aside s (s.addTimerEvent event needReset now) e := by
  refine ⟨by rw [addTimerEvent_events], ?_, fun p hp hpe => ?_⟩
  · rw [addTimerEvent_occurrences, if_neg he]
    rfl
  · rw [addTimerEvent_pendingEvents] at hp
    rcases mem_emplace.mp hp with rfl | hp
    · exact absurd hpe he
    · exact hp

theorem requeue_aside {l : List (E × Int)} (h : e ∉ l.map Prod.fst) : Aside s (s.requeue l) e := by
  induction l generalizing s with
  | nil => exact ⟨rfl, rfl, fun p hp _ => hp⟩
  | cons a l ih =>
      rw [List.map_cons, List.mem_cons, not_or] at h
      exact (update_aside (Ne.symm h.1)).trans ((addTimerEvent_aside (Ne.symm h.1)).trans (ih h.2))

theorem requeue_ordered {l : List (E × Int)} (h : Ordered s.pendingEvents) : Ordered (s.requeue l).pendingEvents := by
  induction l generalizing s with
  | nil => exact h
  | cons a l ih =>
      refine ih (s := (s.update a.1 (·.reset a.2)).addTimerEvent a.1 false a.2) ?_
      rw [addTimerEvent_pendingEvents]
      exact emplace_ordered h

variable {resets : List Int} {last : Int}

theorem onTimer_ordered (h : Ordered s.pendingEvents) : Ordered (s.onTimer now resets last).pendingEvents := by
  simp only [onTimer, resetArriveTime_pendingEvents]
  exact requeue_ordered (h.sublist (List.dropWhile_sublist _))

/-- `OnTimer` moves what is due from the pending events to the tasks. -/
theorem onTimer_aside (hr : (s.events e).isRepeated = false) (htasks : s.tasks = []) :
    Aside s (s.onTimer now resets last) e := by
  have hno : e ∉ ((s.repeatedTasks now).zip resets).map Prod.fst := by
    intro hm
    obtain ⟨a, ha, rfl⟩ := List.mem_map.mp hm
    exact repeatedTasks_not_mem hr (List.of_mem_zip ha).1
  obtain ⟨h1, h2, h3⟩ := requeue_aside (s := { s with
    expiry := s.expiry.filter fun x => now < x
    pendingEvents := s.pendingEvents.dropWhile (s.due now)
    tasks := (s.pendingEvents.takeWhile (s.due now)).map Prod.snd }) hno
  refine ⟨?_, ?_, fun p hp he => ?_⟩
  · simp only [onTimer, resetArriveTime_events]
    exact h1
  · simp only [onTimer, occurrences, resetArriveTime_pendingEvents, resetArriveTime_tasks] at h2 ⊢
    rw [h2, htasks, List.append_nil]
    conv => rhs; rw [← List.takeWhile_append_dropWhile (p := s.due now) (l := s.pendingEvents)]
    rw [List.map_append, List.count_append, List.count_append, Nat.add_comm]
  · simp only [onTimer, resetArriveTime_pendingEvents] at hp
    exact List.dropWhile_subset _ (h3 p hp he)

/-- The event is at most once in the timer, and under its arrive time. -/
structure Once (s : Timer E) (e : E) : Prop where
  occurs : s.occurrences e ≤ 1
  keyed : ∀ p ∈ s.pendingEvents, p.2 = e → p.1 = (s.events e).arriveTime
  oneShot : (s.events e).isRepeated = false

theorem Once.aside {s' : Timer E} (h : Once s e) (ha : Aside s s' e) : Once s' e where
  occurs := ha.occurs ▸ h.occurs
  keyed p hp he := ha.events_eq ▸ h.keyed p (ha.pending p hp he) he
  oneShot := ha.events_eq ▸ h.oneShot

/-- A new event. -/
theorem Once.added {ev : TimerEvent} {needReset : Bool} (hzero : s.occurrences event = 0)
    (hev : ev.isRepeated = false) : Once ((s.update event fun _ => ev).addTimerEvent event needReset now) event := by
  have hself : (s.update event fun _ => ev).events event = ev := Function.update_self _ _ _
  have hupdate : (s.update event fun _ => ev).occurrences event = s.occurrences event := rfl
  refine ⟨?_, fun p hp he => ?_, ?_⟩
  · rw [addTimerEvent_occurrences, if_pos rfl, hupdate, hzero]
  · rw [addTimerEvent_events]
    rw [addTimerEvent_pendingEvents] at hp
    rcases mem_emplace.mp hp with rfl | hp
    · rfl
    · rw [occurrences_eq] at hzero
      have hnot := List.count_eq_zero.mp (Nat.eq_zero_of_add_eq_zero_right hzero)
      exact absurd (List.mem_map.mpr ⟨p, hp, he⟩) hnot
  · rw [addTimerEvent_events, hself, hev]

theorem Once.del (h : Once s e) : Once (s.delTimerEvent event) e := by
  have harrive : ((s.delTimerEvent event).events e).arriveTime = (s.events e).arriveTime ∧
      ((s.delTimerEvent event).events e).isRepeated = (s.events e).isRepeated := by
    by_cases he : e = event
    · simp [delTimerEvent, update, he]
    · simp [delTimerEvent, update, he]
  refine ⟨Nat.le_trans delTimerEvent_occurrences_le h.occurs, fun p hp hpe => ?_, harrive.2.trans h.oneShot⟩
  rw [harrive.1]
  exact h.keyed p (delTimerEvent_sublist.subset hp) hpe

end Timer

end Tirpc
