import Tirpc.Coroutine.Theorems.TimedHooks

/-!
# Deletions that take the event of somebody else

`DelTimerEvent` erases the entry behind the time of an event that is not pending. When it is that of a `sleep`, its
coroutine is lost.
-/

namespace Tirpc

open Lib Timer

variable {C E : Type} [DecidableEq C] [DecidableEq E] {s s' : TimedHooks C E} {t : TimerState E} {u : Timer E}
  {e event : E} {cor : C} {call : TimedCall E}

/-! ## Entries of others -/

/-- A deletion that finds its own entry, or nothing at all, leaves the other events alone. -/
theorem Timer.FindsOwn.others (h : FindsOwn u event) (ho : Ordered u.pendingEvents) (he : e ≠ event) :
    (u.delTimerEvent event).occurrences e = u.occurrences e := by
  have hparts := Parts.of_ordered (u.events event).arriveTime ho
  have hupper := hparts.firstBehind_eq
  have hcount : ((u.delTimerEvent event).pendingEvents.map Prod.snd).count e =
      (u.pendingEvents.map Prod.snd).count e := by
    simp only [FindsOwn, hparts.mem_range_iff, hupper] at h
    simp only [delTimerEvent]
    conv => rhs; rw [hparts.eq]
    simp only [List.map_append, List.count_append]
    by_cases hfound : ∃ p ∈ (u.pendingEvents.dropWhile fun p => p.1 < (u.events event).arriveTime).takeWhile
        fun p => p.1 ≤ (u.events event).arriveTime, p.2 = event
    · rw [if_pos hfound, List.map_append, List.count_append]
      have herase (l : List (Int × E)) : (l.eraseP fun p => decide (p.2 = event)).map Prod.snd =
          (l.map Prod.snd).erase event := by
        rw [List.erase_eq_eraseP, List.eraseP_map]
        simp only [Function.comp_def, beq_eq_decide, eq_comm]
      rw [herase, List.count_erase_of_ne he]
    · rw [if_neg hfound, List.map_append, List.count_append]
      have hbehind := h.resolve_left hfound
      cases hu : (u.pendingEvents.dropWhile fun p => p.1 < (u.events event).arriveTime).dropWhile
          fun p => p.1 ≤ (u.events event).arriveTime with
      | nil => rfl
      | cons p upper =>
          rw [hu] at hbehind
          have hp : p.2 = event := hbehind
          rw [List.tail_cons, List.map_cons, List.count_cons_of_ne (by rw [hp]; exact Ne.symm he)]
  rw [occurrences_eq, occurrences_eq, hcount]
  rfl

namespace TimedHooks

theorem goOn_calls_other {cor' : C} (h : cor ≠ cor') : (s.goOn cor' call).calls cor = s.calls cor := by
  unfold goOn
  split
  case h_1 => split <;> exact Function.update_of_ne h _ _
  case h_2 => exact Function.update_of_ne h _ _

theorem goOn_occurrences_le : (s.goOn cor call).timer.timer.occurrences e ≤ s.timer.timer.occurrences e := by
  unfold goOn
  split
  case h_1 => split <;> exact Nat.le_refl _
  case h_2 => exact delTimerEvent_occurrences_le

theorem goOn_asleep (hc : s.calls cor = some call) (hrunning : call.isTimeout = false) (hkind : call.kind ≠ .connect) :
    s.goOn cor call = s := by
  obtain ⟨event, kind, running⟩ := call
  obtain rfl : running = false := hrunning
  cases kind with
  | sleep seconds since =>
      simp only [goOn, Bool.false_eq_true, if_false, setCall]
      rw [← hc, Function.update_eq_self]
  | connect => exact absurd rfl hkind

end TimedHooks

/-- The call sleeps, and its event is not in the timer any more. -/
structure Stranded (s : TimedHooks C E) (cor : C) (call : TimedCall E) : Prop where
  asleep : s.calls cor = some call
  kind : call.kind ≠ .connect
  gone : s.timer.timer.occurrences call.event = 0

namespace Stranded

/-- Somebody else goes on. -/
theorem goOn_other {cor' : C} {call' : TimedCall E} (h : Stranded s cor call) (hne : cor ≠ cor') :
    Stranded (s.goOn cor' call') cor call where
  asleep := (TimedHooks.goOn_calls_other hne).trans h.asleep
  kind := h.kind
  gone := Nat.le_zero.mp (h.gone ▸ TimedHooks.goOn_occurrences_le)

theorem wait (h : Stranded s cor call) (hkept : TimedHooksKept s) {cor' : C} (hfree : s.calls cor' = none)
    (hfresh : s.Fresh event) {interval now : Int} {kind : TimedCallKind} :
    Stranded (s.wait cor' event interval now kind) cor call := by
  have hne : cor ≠ cor' := by
    rintro rfl
    cases h.asleep.symm.trans hfree
  have hevent : event ≠ call.event := by
    rintro rfl
    cases (hkept.waits cor call h.asleep).owner.symm.trans hfresh.1
  have haside : Aside s.timer.timer (s.wait cor' event interval now kind).timer.timer call.event :=
    (update_aside hevent).trans (addTimerEvent_aside hevent)
  exact ⟨(Function.update_of_ne hne _ _).trans h.asleep, h.kind, haside.occurs.trans h.gone⟩

omit [DecidableEq C] in
theorem timerNext (h : Stranded s cor call) (hkept : TimedHooksKept s) {l : TimerStep E}
    (hn : timerNext s.timer l = some t) (hadd : ∀ now, l ≠ .add call.event now) :
    Stranded { s with timer := t } cor call := by
  have hexp := hkept.expected _ _ (hkept.waits cor call h.asleep).owner
  have hle := (hexp.step hadd hn).occurs
  exact ⟨h.asleep, h.kind, Nat.le_zero.mp (h.gone ▸ hle)⟩

theorem timerStep (h : Stranded s cor call) (hkept : TimedHooksKept s) {l : TimerStep E}
    (hn : s.timerStep l = some s') : Stranded s' cor call := by
  have hwaits := hkept.waits cor call h.asleep
  obtain ⟨t, ht, hadd, hcases⟩ := TimedHooks.timerStep_cases hn
  have hnext := h.timerNext hkept ht (hadd _ cor hwaits.owner)
  obtain rfl | ⟨event, rest, cor', rfl, htasks, howner, rfl⟩ := hcases
  · exact hnext
  -- the event that starts is not that of the call
  have hne : call.event ≠ event := by
    intro he
    have hgone := h.gone
    rw [occurrences_eq, htasks, he, List.count_cons_self] at hgone
    omega
  by_cases hcor : cor = cor'
  · subst hcor
    simp only [TimedHooks.timeoutCb, h.asleep, if_neg hne]
    rw [TimedHooks.goOn_asleep hnext.asleep hwaits.running h.kind]
    exact ⟨hnext.asleep, hnext.kind, hnext.gone⟩
  · cases hc : s.calls cor' with
    | none =>
        simp only [TimedHooks.timeoutCb, hc]
        exact ⟨hnext.asleep, hnext.kind, hnext.gone⟩
    | some other =>
        simp only [TimedHooks.timeoutCb, hc]
        split
        case isTrue => exact hnext.goOn_other hcor
        case isFalse =>
          have hother : Stranded (TimedHooks.goOn { s with timer := t } cor' other) cor call := hnext.goOn_other hcor
          exact ⟨hother.asleep, hother.kind, hother.gone⟩

theorem step {l : TimedHookStep C E} (h : Stranded s cor call) (hkept : TimedHooksKept s)
    (hn : timedHookNext s l = some s') : Stranded s' cor call := by
  cases l with
  | sleep cor' seconds event now =>
      obtain ⟨⟨hfree, hfresh, -⟩, hn⟩ := Option.ite_none_right_eq_some.mp hn
      cases hn
      exact h.wait hkept hfree hfresh
  | connect cor' event now =>
      obtain ⟨⟨hfree, hfresh, -⟩, hn⟩ := Option.ite_none_right_eq_some.mp hn
      cases hn
      exact h.wait hkept hfree hfresh
  | resume cor' =>
      obtain ⟨call', hc, rfl⟩ := Option.map_eq_some_iff.mp hn
      by_cases hcor : cor = cor'
      · subst hcor
        obtain rfl : call = call' := Option.some.inj (h.asleep.symm.trans hc)
        rw [TimedHooks.goOn_asleep hc (hkept.waits cor call hc).running h.kind]
        exact h
      · exact h.goOn_other hcor
  | timer step => exact h.timerStep hkept hn

/-- In no run does the call go on. -/
theorem forever (h : Stranded s cor call) (hkept : TimedHooksKept s)
    (hs : Reachable timedHookNext (· = s) anyStep s') : s'.calls cor = some call := by
  have hboth : Stranded s' cor call ∧ TimedHooksKept s' := by
    refine hs.invariant (I := fun s => Stranded s cor call ∧ TimedHooksKept s) ?_ fun _ _ _ hI _ hn => ?_
    · rintro _ rfl
      exact ⟨h, hkept⟩
    · exact ⟨hI.1.step hI.2 hn, hI.2.step hn⟩
  exact hboth.1.asleep

end Stranded

/-! ## Which runs keep the events -/

/-- A connection that is established, or refused, finds its event pending; and where an event of `connect` or of another
user of the timer is deleted, it is pending, or no entry stands behind it. -/
def DeletesOwn (s : TimedHooks C E) : TimedHookStep C E → Prop
  | .resume cor =>
      ∀ call ∈ s.calls cor, call.kind = .connect → call.event ∈ s.timer.timer.pendingEvents.map Prod.snd
  | .timer (.del event) => FindsOwn s.timer.timer event
  | .timer .startTask =>
      ∀ event ∈ s.timer.timer.tasks.head?, ∀ cor ∈ s.owner event, ∀ call ∈ s.calls cor, call.kind = .connect →
        FindsOwn s.timer.timer call.event
  | _ => True

instance (u : Timer E) (event : E) : Decidable (FindsOwn u event) := by
  unfold FindsOwn
  cases firstBehind (u.events event).arriveTime u.pendingEvents <;> infer_instance

instance (s : TimedHooks C E) : (l : TimedHookStep C E) → Decidable (DeletesOwn s l)
  | .resume cor => inferInstanceAs (Decidable (∀ call ∈ s.calls cor, _ → _))
  | .timer (.del event) => inferInstanceAs (Decidable (FindsOwn s.timer.timer event))
  | .timer .startTask =>
      inferInstanceAs (Decidable (∀ event ∈ s.timer.timer.tasks.head?, ∀ cor ∈ s.owner event, ∀ call ∈ s.calls cor,
        _ → _))
  | .timer (.add ..) | .timer (.onTimer ..) | .timer (.elapse _) => inferInstanceAs (Decidable True)
  | .sleep .. | .connect .. => inferInstanceAs (Decidable True)

/-- An event is in the timer, once, as long as its call waits; and no callback has been too late. -/
structure EventsInTimer (s : TimedHooks C E) : Prop where
  waiting : ∀ cor call, s.calls cor = some call → s.timer.timer.occurrences call.event = 1
  ended : ∀ e cor, s.owner e = some cor → (∀ call, s.calls cor = some call → call.event ≠ e) →
    s.timer.timer.occurrences e = 0
  late : s.late = []

namespace EventsInTimer

omit [DecidableEq C] in
/-- The timer keeps the events of the calls. -/
theorem withTimer (h : EventsInTimer s) (hkept : TimedHooksKept s)
    (hsame : ∀ e cor, s.owner e = some cor → t.timer.occurrences e = s.timer.timer.occurrences e) :
    EventsInTimer { s with timer := t } where
  waiting cor call hc := (hsame _ cor (hkept.waits cor call hc).owner).trans (h.waiting cor call hc)
  ended e cor he hover := (hsame e cor he).trans (h.ended e cor he hover)
  late := h.late

/-- A call returns, and its event is gone. -/
theorem leave (h : EventsInTimer s) (hkept : TimedHooksKept s) (hc : s.calls cor = some call)
    (howner : s'.owner = s.owner) (hcalls : s'.calls = Function.update s.calls cor none) (hlate : s'.late = s.late)
    (hgone : s'.timer.timer.occurrences call.event = 0)
    (hothers : ∀ e cor, s.owner e = some cor → e ≠ call.event →
      s'.timer.timer.occurrences e = s.timer.timer.occurrences e) : EventsInTimer s' := by
  have hown := (hkept.waits cor call hc).owner
  refine ⟨fun cor' call' hc' => ?_, fun e cor' he hover => ?_, hlate.trans h.late⟩
  · have hcor : cor' ≠ cor := by
      rintro rfl
      rw [hcalls, Function.update_self] at hc'
      cases hc'
    rw [hcalls, Function.update_of_ne hcor] at hc'
    have hown' := (hkept.waits cor' call' hc').owner
    have hev : call'.event ≠ call.event := fun heq => hcor (Option.some.inj (hown'.symm.trans (heq ▸ hown)))
    exact (hothers _ cor' hown' hev).trans (h.waiting cor' call' hc')
  · rw [howner] at he
    by_cases hev : e = call.event
    · rw [hev, hgone]
    · rw [hothers e cor' he hev]
      refine h.ended e cor' he fun call' hc' => ?_
      by_cases hcor : cor' = cor
      · subst hcor
        obtain rfl : call = call' := Option.some.inj (hc.symm.trans hc')
        exact Ne.symm hev
      · exact hover call' (by rw [hcalls, Function.update_of_ne hcor, hc'])

theorem wait (h : EventsInTimer s) (hkept : TimedHooksKept s) (hfree : s.calls cor = none) (hfresh : s.Fresh event)
    {interval now : Int} {kind : TimedCallKind} : EventsInTimer (s.wait cor event interval now kind) := by
  obtain ⟨hnone, hpending, htasks⟩ := hfresh
  have hzero : s.timer.timer.occurrences event = 0 := by
    rw [occurrences_eq, List.count_eq_zero_of_not_mem hpending, List.count_eq_zero_of_not_mem htasks]
  have hoccurs : ∀ e, (s.wait cor event interval now kind).timer.timer.occurrences e =
      s.timer.timer.occurrences e + if event = e then 1 else 0 := by
    intro e
    simp only [TimedHooks.wait, TimedHooks.setCall, addTimerEvent_occurrences]
    rfl
  refine ⟨fun cor' call hc => ?_, fun e cor' he hover => ?_, h.late⟩
  · by_cases hcor : cor' = cor
    · subst hcor
      simp only [TimedHooks.wait, TimedHooks.setCall, Function.update_self, Option.some.injEq] at hc
      subst hc
      rw [hoccurs, if_pos rfl, hzero]
    · simp only [TimedHooks.wait, TimedHooks.setCall, Function.update_of_ne hcor] at hc
      have hev : event ≠ call.event := fun heq => by
        cases (hkept.waits cor' call hc).owner.symm.trans (heq ▸ hnone)
      rw [hoccurs, if_neg hev]
      exact h.waiting cor' call hc
  · have hev : event ≠ e := by
      rintro rfl
      obtain rfl : cor = cor' := by
        simpa only [TimedHooks.wait, TimedHooks.setCall, Function.update_self, Option.some.injEq] using he
      exact hover _ (Function.update_self _ _ _) rfl
    simp only [TimedHooks.wait, TimedHooks.setCall, Function.update_of_ne (Ne.symm hev)] at he
    rw [hoccurs, if_neg hev]
    refine h.ended e cor' he fun call hc => ?_
    by_cases hcor : cor' = cor
    · subst hcor
      cases hfree.symm.trans hc
    · exact hover call ((Function.update_of_ne hcor _ _).trans hc)

/-- A call of `connect` goes on and deletes its event. -/
theorem connected (h : EventsInTimer s) (hkept : TimedHooksKept s) (hc : s.calls cor = some call)
    (hkind : call.kind = .connect) (htasks : call.event ∉ s.timer.timer.tasks)
    (hown : FindsOwn s.timer.timer call.event) : EventsInTimer (s.goOn cor call) := by
  have honce := (hkept.expected _ cor (hkept.waits cor call hc).owner).once
  have hgoOn : s.goOn cor call = (s.delTimerEvent call.event).setCall cor none := by
    simp only [TimedHooks.goOn, hkind]
  rw [hgoOn]
  refine h.leave hkept hc rfl rfl rfl ?_ fun e cor' _ he => hown.others hkept.ordered he
  exact delTimerEvent_gone hkept.ordered honce.keyed honce.occurs htasks

omit [DecidableEq C] in
theorem popped_occurrences {rest : List E} (htasks : u.tasks = event :: rest) (he : e ≠ event) :
    ({ u with tasks := rest } : Timer E).occurrences e = u.occurrences e := by
  rw [occurrences_eq, occurrences_eq, htasks, List.count_cons_of_ne (Ne.symm he)]

/-- The event that starts is that of the call, which goes on. -/
theorem started (h : EventsInTimer s) (hkept : TimedHooksKept s) {rest : List E}
    (htasks : s.timer.timer.tasks = event :: rest) (howner : s.owner event = some cor)
    (hown : ∀ call ∈ s.calls cor, call.kind = .connect → FindsOwn s.timer.timer call.event) :
    EventsInTimer (TimedHooks.timeoutCb
      { s with timer := { s.timer with timer := { s.timer.timer with tasks := rest } } } event cor) := by
  obtain ⟨call, hc, rfl⟩ : ∃ call, s.calls cor = some call ∧ call.event = event := by
    by_contra hnot
    have hzero := h.ended event cor howner fun call hc he => hnot ⟨call, hc, he⟩
    rw [occurrences_eq, htasks, List.count_cons_self] at hzero
    omega
  have hgone : ({ s.timer.timer with tasks := rest } : Timer E).occurrences call.event = 0 := by
    have hone := h.waiting cor call hc
    rw [occurrences_eq, htasks, List.count_cons_self] at hone
    rw [occurrences_eq]
    show (s.timer.timer.pendingEvents.map Prod.snd).count call.event + rest.count call.event = 0
    omega
  have hothers : ∀ e, e ≠ call.event →
      ({ s.timer.timer with tasks := rest } : Timer E).occurrences e = s.timer.timer.occurrences e :=
    fun e he => popped_occurrences htasks he
  simp only [TimedHooks.timeoutCb, hc, if_true]
  obtain ⟨event, kind, running⟩ := call
  cases kind with
  | sleep seconds since =>
      simp only [TimedHooks.goOn, if_true]
      exact h.leave hkept hc rfl rfl rfl hgone fun e _ _ he => hothers e he
  | connect =>
      have hfinds : FindsOwn ({ s.timer.timer with tasks := rest } : Timer E) event := hown _ hc rfl
      simp only [TimedHooks.goOn]
      refine h.leave hkept hc rfl rfl rfl ?_ fun e _ _ he => ?_
      · exact Nat.le_zero.mp (hgone ▸ delTimerEvent_occurrences_le)
      · exact (hfinds.others hkept.ordered he).trans (hothers e he)

theorem timerStep (h : EventsInTimer s) (hkept : TimedHooksKept s) {l : TimerStep E} (hok : DeletesOwn s (.timer l))
    (hn : s.timerStep l = some s') : EventsInTimer s' := by
  have hunowned : ∀ e cor, s.owner e = some cor → ∀ event, s.owner event = none → event ≠ e := by
    rintro e cor he event hnone rfl
    cases he.symm.trans hnone
  cases l with
  | add event now =>
      obtain ⟨hnone, hn⟩ := Option.ite_none_right_eq_some.mp hn
      obtain ⟨t, ht, rfl⟩ := Option.map_eq_some_iff.mp hn
      obtain ⟨-, ht⟩ := Option.ite_none_right_eq_some.mp ht
      cases ht
      exact h.withTimer hkept fun e cor he => (addTimerEvent_aside (hunowned e cor he event hnone)).occurs
  | del event =>
      obtain ⟨hnone, hn⟩ := Option.ite_none_right_eq_some.mp hn
      cases hn
      exact h.withTimer hkept fun e cor he =>
        hok.others hkept.ordered (Ne.symm (hunowned e cor he event hnone))
  | onTimer now resets last =>
      obtain ⟨t, ht, rfl⟩ := Option.map_eq_some_iff.mp hn
      obtain ⟨⟨hnil, -, -⟩, ht⟩ := Option.ite_none_right_eq_some.mp ht
      cases ht
      exact h.withTimer hkept fun e cor he => (onTimer_aside (hkept.expected e cor he).once.oneShot hnil).occurs
  | elapse now =>
      obtain ⟨t, ht, rfl⟩ := Option.map_eq_some_iff.mp hn
      obtain ⟨-, ht⟩ := Option.ite_none_right_eq_some.mp ht
      cases ht
      exact h.withTimer hkept fun _ _ _ => rfl
  | startTask =>
      cases htasks : s.timer.timer.tasks with
      | nil =>
          simp only [TimedHooks.timerStep, htasks] at hn
          cases hn
      | cons event rest =>
          simp only [TimedHooks.timerStep, htasks, Tirpc.timerNext, Option.map_some, Option.some.injEq] at hn
          subst hn
          cases howner : s.owner event with
          | none =>
              refine h.withTimer hkept fun e cor he => ?_
              exact popped_occurrences htasks (Ne.symm (hunowned e cor he event howner))
          | some cor =>
              refine h.started hkept htasks howner fun call hc hkind => ?_
              exact hok event (by rw [htasks]; rfl) cor howner call hc hkind

theorem step {l : TimedHookStep C E} (h : EventsInTimer s) (hkept : TimedHooksKept s) (hok : DeletesOwn s l)
    (hn : timedHookNext s l = some s') : EventsInTimer s' := by
  cases l with
  | sleep cor seconds event now =>
      obtain ⟨⟨hfree, hfresh, -⟩, hn⟩ := Option.ite_none_right_eq_some.mp hn
      cases hn
      exact h.wait hkept hfree hfresh
  | connect cor event now =>
      obtain ⟨⟨hfree, hfresh, -⟩, hn⟩ := Option.ite_none_right_eq_some.mp hn
      cases hn
      exact h.wait hkept hfree hfresh
  | resume cor =>
      obtain ⟨call, hc, rfl⟩ := Option.map_eq_some_iff.mp hn
      have hwaits := hkept.waits cor call hc
      by_cases hkind : call.kind = .connect
      · have hpending := hok call hc hkind
        have hone := h.waiting cor call hc
        have htasks : call.event ∉ s.timer.timer.tasks := by
          intro hmem
          have h1 := List.count_pos_iff.mpr hpending
          have h2 := List.count_pos_iff.mpr hmem
          rw [occurrences_eq] at hone
          omega
        obtain ⟨⟨key, event⟩, hp, heq⟩ := List.mem_map.mp hpending
        have hkey := (hkept.expected _ cor hwaits.owner).once.keyed _ hp heq
        refine h.connected hkept hc hkind htasks (.inl ?_)
        rw [← hkey, ← heq]
        exact hp
      · rw [TimedHooks.goOn_asleep hc hwaits.running hkind]
        exact h
  | timer step => exact h.timerStep hkept hok hn

end EventsInTimer

/-- In every run in which each deletion finds its own entry, an event is in the timer, once, as long as its call waits,
and no callback is run when its call has returned. -/
theorem sleepers_kept (h : Reachable timedHookNext TimedHookStart DeletesOwn s) :
    (∀ cor call, s.calls cor = some call → s.timer.timer.occurrences call.event = 1) ∧ s.late = [] := by
  have hboth : EventsInTimer s ∧ TimedHooksKept s := by
    refine h.invariant (I := fun s => EventsInTimer s ∧ TimedHooksKept s) (fun s hs => ?_) fun _ _ _ hI hok hn => ?_
    · refine ⟨⟨fun cor call hc => ?_, fun e cor he => ?_, hs.2.2.2.2⟩, .start hs⟩
      · rw [hs.2.1] at hc
        cases hc
      · rw [hs.2.2.1] at he
        cases he
    · exact ⟨hI.1.step hI.2 hok hn, hI.2.step hn⟩
  exact ⟨hboth.1.waiting, hboth.1.late⟩

/-- A connection is established while another coroutine sleeps. -/
theorem sleepers_kept_connected : ∃ s : TimedHooks Bool Nat, (s.calls false).isSome = true ∧
    (∀ cor call, s.calls cor = some call → s.timer.timer.occurrences call.event = 1) ∧ s.late = [] := by
  obtain ⟨s, hs, hasleep⟩ : ∃ s, runLabels timedHookNext noCalls
      [.connect true 1 0, .sleep false 1 2 0, .resume true, .resume false, .timer (.elapse 10)] = some s ∧
        (s.calls false).isSome = true := ⟨_, rfl, rfl⟩
  exact ⟨s, hasleep, sleepers_kept ((Reachable.start noCalls_start).of_runOk (by decide) hs)⟩

/-! ## A `connect` that runs into its timeout -/

/-- The event that is deleted is not pending: the entry behind its time goes. -/
theorem delTimerEvent_takes_next (ho : Ordered u.pendingEvents) (hnot : event ∉ u.pendingEvents.map Prod.snd)
    (hnext : (firstBehind (u.events event).arriveTime u.pendingEvents).map Prod.snd = some e) :
    (u.delTimerEvent event).occurrences e + 1 = u.occurrences e := by
  have hparts := Parts.of_ordered (u.events event).arriveTime ho
  rw [hparts.firstBehind_eq] at hnext
  have hnone : ¬∃ p ∈ (u.pendingEvents.dropWhile fun p => p.1 < (u.events event).arriveTime).takeWhile
      fun p => p.1 ≤ (u.events event).arriveTime, p.2 = event := by
    rintro ⟨p, hp, heq⟩
    refine hnot (List.mem_map.mpr ⟨p, ?_, heq⟩)
    exact List.dropWhile_subset _ (List.takeWhile_subset _ hp)
  have hcount : ((u.delTimerEvent event).pendingEvents.map Prod.snd).count e + 1 =
      (u.pendingEvents.map Prod.snd).count e := by
    simp only [delTimerEvent]
    rw [if_neg hnone]
    conv => rhs; rw [hparts.eq]
    simp only [List.map_append, List.count_append]
    cases hu : (u.pendingEvents.dropWhile fun p => p.1 < (u.events event).arriveTime).dropWhile
        fun p => p.1 ≤ (u.events event).arriveTime with
    | nil =>
        rw [hu] at hnext
        cases hnext
    | cons p upper =>
        rw [hu] at hnext
        have hp : p.2 = e := Option.some.inj hnext
        rw [List.tail_cons, List.map_cons, hp, List.count_cons_self]
        omega
  rw [occurrences_eq, occurrences_eq, ← hcount]
  show _ + u.tasks.count e + 1 = _
  omega

/-- When the timer ends a `connect` and the next entry is that of a `sleep`, this sleep does not end in any run. -/
theorem connect_timeout_strands {rest : List E} {sleeper : C} {sleep : TimedCall E}
    (h : Reachable timedHookNext TimedHookStart anyStep s) (htasks : s.timer.timer.tasks = call.event :: rest)
    (hc : s.calls cor = some call) (hkind : call.kind = .connect) (hsleep : s.calls sleeper = some sleep)
    (hasleep : sleep.kind ≠ .connect)
    (hnext : (firstBehind (s.timer.timer.events call.event).arriveTime s.timer.timer.pendingEvents).map Prod.snd =
      some sleep.event) :
    ∃ s', timedHookNext s (.timer .startTask) = some s' ∧
      ∀ s'', Reachable timedHookNext (· = s') anyStep s'' → s''.calls sleeper = some sleep := by
  have hkept := TimedHooksKept.of_reachable h
  have hwaits := hkept.waits cor call hc
  have honce := (hkept.expected _ cor hwaits.owner).once
  have hsleepOnce := (hkept.expected _ sleeper (hkept.waits sleeper sleep hsleep).owner).once
  have hcor : sleeper ≠ cor := by
    rintro rfl
    obtain rfl : call = sleep := Option.some.inj (hc.symm.trans hsleep)
    exact hasleep hkind
  have hnot : call.event ∉ s.timer.timer.pendingEvents.map Prod.snd := by
    intro hmem
    have hpos := List.count_pos_iff.mpr hmem
    have hoccurs := honce.occurs
    rw [occurrences_eq, htasks, List.count_cons_self] at hoccurs
    omega
  obtain ⟨event, kind, running⟩ := call
  obtain rfl : kind = .connect := hkind
  have hn : timedHookNext s (.timer .startTask) = some ((TimedHooks.delTimerEvent
      { s with timer := { s.timer with timer := { s.timer.timer with tasks := rest } } } event).setCall cor none) := by
    simp only [timedHookNext, TimedHooks.timerStep, htasks, timerNext, Option.map_some, hwaits.owner, Option.elim,
      TimedHooks.timeoutCb, hc, if_true, TimedHooks.goOn]
  refine ⟨_, hn, fun s'' hs'' => Stranded.forever ⟨?_, hasleep, ?_⟩ (hkept.step hn) hs''⟩
  · exact (Function.update_of_ne hcor _ _).trans hsleep
  · have hpopped : ({ s.timer.timer with tasks := rest } : Timer E).occurrences sleep.event ≤ 1 := by
      have hoccurs := hsleepOnce.occurs
      rw [occurrences_eq, htasks, List.count_cons] at hoccurs
      rw [occurrences_eq]
      show (s.timer.timer.pendingEvents.map Prod.snd).count sleep.event + rest.count sleep.event ≤ 1
      omega
    have htaken : (({ s.timer.timer with tasks := rest } : Timer E).delTimerEvent event).occurrences sleep.event + 1 =
        ({ s.timer.timer with tasks := rest } : Timer E).occurrences sleep.event :=
      delTimerEvent_takes_next hkept.ordered hnot hnext
    show (({ s.timer.timer with tasks := rest } : Timer E).delTimerEvent event).occurrences sleep.event = 0
    omega

/-- A connection is not established in time, and another coroutine sleeps for a second. -/
theorem connect_timeout_strands_second : ∃ s' : TimedHooks Bool Nat,
    ∀ s'', Reachable timedHookNext (· = s') anyStep s'' → s''.calls false = some ⟨2, .sleep 1 0, false⟩ := by
  obtain ⟨s, hs, htasks, hc, hsleep, hnext⟩ : ∃ s, runLabels timedHookNext noCalls
      [.connect true 1 0, .sleep false 1 2 0, .timer (.onTimer 80 [] 80)] = some s ∧
        s.timer.timer.tasks = [1] ∧ s.calls true = some ⟨1, .connect, false⟩ ∧
        s.calls false = some ⟨2, .sleep 1 0, false⟩ ∧
        (firstBehind (s.timer.timer.events 1).arriveTime s.timer.timer.pendingEvents).map Prod.snd = some 2 :=
    ⟨_, rfl, rfl, rfl, rfl, rfl⟩
  obtain ⟨s', -, hforever⟩ := connect_timeout_strands ((Reachable.start noCalls_start).of_run hs) htasks hc rfl hsleep
    (by decide) hnext
  exact ⟨s', hforever⟩

end Tirpc
