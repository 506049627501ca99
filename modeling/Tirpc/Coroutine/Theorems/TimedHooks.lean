import Tirpc.Base.Theorems.Firing
import Tirpc.Base.Theorems.Removal
import Tirpc.Coroutine.TimedHooks

/-!
# What wakes a coroutine that sleeps

Only the callback of its own event ends a `sleep`, and not before its time.
-/

namespace Tirpc

open Lib Timer

variable {C E : Type} [DecidableEq E] {s s' : TimedHooks C E} {t t' : TimerState E} {u : Timer E}
  {e event : E} {cor : C} {call : TimedCall E}

/-! ## One event of the timer -/

/-- The event is at most once in the timer, and is collected only when its time has come. -/
structure Expected (t : TimerState E) (e : E) : Prop where
  once : Once t.timer e
  due : e ∈ t.timer.tasks → (t.timer.events e).arriveTime ≤ t.now

/-- What a step of the timer leaves of an event that it does not add. -/
structure Stands (t t' : TimerState E) (e : E) : Prop where
  expected : Expected t' e
  arriveTime : (t'.timer.events e).arriveTime = (t.timer.events e).arriveTime
  occurs : t'.timer.occurrences e ≤ t.timer.occurrences e

theorem Expected.aside (h : Expected t e) (ha : Aside t.timer u e) {now : Int}
    (hdue : e ∈ u.tasks → (u.events e).arriveTime ≤ now) : Stands t { timer := u, now := now } e :=
  ⟨⟨h.once.aside ha, hdue⟩, congrArg TimerEvent.arriveTime ha.events_eq, Nat.le_of_eq ha.occurs⟩

theorem delTimerEvent_arriveTime : ((u.delTimerEvent event).events e).arriveTime = (u.events e).arriveTime := by
  by_cases he : e = event
  · simp [delTimerEvent, update, he]
  · simp [delTimerEvent, update, he]

theorem Expected.del (h : Expected t e) : Stands t { t with timer := t.timer.delTimerEvent event } e where
  expected := ⟨h.once.del, fun he => delTimerEvent_arriveTime.trans_le (h.due he)⟩
  arriveTime := delTimerEvent_arriveTime
  occurs := delTimerEvent_occurrences_le

theorem Expected.startTask (h : Expected t e) {rest : List E} (htasks : t.timer.tasks = event :: rest) :
    Stands t { t with timer := { t.timer with tasks := rest } } e := by
  have hle : ({ t.timer with tasks := rest } : Timer E).occurrences e ≤ t.timer.occurrences e := by
    rw [occurrences_eq, occurrences_eq, htasks, List.count_cons]
    exact Nat.add_le_add_left (Nat.le_add_right _ _) _
  refine ⟨⟨⟨Nat.le_trans hle h.once.occurs, h.once.keyed, h.once.oneShot⟩, fun he => h.due ?_⟩, rfl, hle⟩
  rw [htasks]
  exact List.mem_cons_of_mem event he

theorem Expected.step (h : Expected t e) {l : TimerStep E} (hadd : ∀ now, l ≠ .add e now)
    (hn : timerNext t l = some t') : Stands t t' e := by
  cases l with
  | add event now =>
      obtain ⟨hnow, hn⟩ := Option.ite_none_right_eq_some.mp hn
      cases hn
      have hne : event ≠ e := fun he => hadd now (he ▸ rfl)
      refine h.aside (addTimerEvent_aside hne) fun he => ?_
      rw [addTimerEvent_tasks] at he
      rw [addTimerEvent_events]
      exact Int.le_trans (h.due he) hnow
  | del event =>
      cases hn
      exact h.del
  | onTimer now resets last =>
      obtain ⟨⟨hnil, -, hclock⟩, hn⟩ := Option.ite_none_right_eq_some.mp hn
      cases hn
      have haside : Aside t.timer (t.timer.onTimer now resets last) e := onTimer_aside h.once.oneShot hnil
      refine h.aside haside fun he => ?_
      obtain ⟨taken, -, -, htasks, heq⟩ := onTimer_taken t.timer now resets last
      rw [heq, resetArriveTime_tasks, requeue_tasks, htasks] at he
      obtain ⟨p, hp, hpe⟩ := List.mem_map.mp he
      have hkey := h.once.keyed p (List.takeWhile_subset _ hp) hpe
      have hdue : p.1 ≤ now := (due_iff.mp (List.mem_takeWhile_imp hp)).1
      have hlast : now ≤ last := by
        have hrest := (List.pairwise_cons.mp (List.pairwise_cons.mp hclock).2).1
        exact hrest last (List.mem_append_right _ (List.mem_singleton_self _))
      rw [haside.events_eq, ← hkey]
      exact Int.le_trans hdue hlast
  | startTask =>
      simp only [timerNext] at hn
      split at hn
      case h_1 => cases hn
      case h_2 htasks =>
        cases hn
        exact h.startTask htasks
  | elapse now =>
      obtain ⟨hnow, hn⟩ := Option.ite_none_right_eq_some.mp hn
      cases hn
      exact ⟨⟨h.once, fun he => Int.le_trans (h.due he) hnow⟩, rfl, Nat.le_refl _⟩

theorem timerNext_ordered {l : TimerStep E} (h : Ordered t.timer.pendingEvents) (hn : timerNext t l = some t') :
    Ordered t'.timer.pendingEvents := by
  cases l with
  | add event now =>
      obtain ⟨-, hn⟩ := Option.ite_none_right_eq_some.mp hn
      cases hn
      rw [addTimerEvent_pendingEvents]
      exact emplace_ordered h
  | del event =>
      cases hn
      exact h.sublist delTimerEvent_sublist
  | onTimer now resets last =>
      obtain ⟨-, hn⟩ := Option.ite_none_right_eq_some.mp hn
      cases hn
      exact onTimer_ordered h
  | startTask =>
      simp only [timerNext] at hn
      split at hn
      case h_1 => cases hn
      case h_2 =>
        cases hn
        exact h
  | elapse now =>
      obtain ⟨-, hn⟩ := Option.ite_none_right_eq_some.mp hn
      cases hn
      exact h

/-! ## The calls -/

/-- An event that starts and belongs to a coroutine runs its callback; nobody adds such an event. -/
theorem TimedHooks.timerStep_cases [DecidableEq C] {l : TimerStep E} (hn : s.timerStep l = some s') :
    ∃ t, timerNext s.timer l = some t ∧ (∀ e cor, s.owner e = some cor → ∀ now, l ≠ .add e now) ∧
      (s' = { s with timer := t } ∨ ∃ event rest cor, l = .startTask ∧ s.timer.timer.tasks = event :: rest ∧
        s.owner event = some cor ∧ s' = timeoutCb { s with timer := t } event cor) := by
  cases l with
  | add event now =>
      obtain ⟨hnone, hn⟩ := Option.ite_none_right_eq_some.mp hn
      obtain ⟨t, ht, rfl⟩ := Option.map_eq_some_iff.mp hn
      refine ⟨t, ht, fun e cor he now' heq => ?_, .inl rfl⟩
      cases heq
      cases hnone.symm.trans he
  | del event =>
      obtain ⟨-, hn⟩ := Option.ite_none_right_eq_some.mp hn
      obtain ⟨t, ht, rfl⟩ := Option.map_eq_some_iff.mp hn
      exact ⟨t, ht, fun _ _ _ _ => nofun, .inl rfl⟩
  | onTimer now resets last =>
      obtain ⟨t, ht, rfl⟩ := Option.map_eq_some_iff.mp hn
      exact ⟨t, ht, fun _ _ _ _ => nofun, .inl rfl⟩
  | elapse now =>
      obtain ⟨t, ht, rfl⟩ := Option.map_eq_some_iff.mp hn
      exact ⟨t, ht, fun _ _ _ _ => nofun, .inl rfl⟩
  | startTask =>
      cases htasks : s.timer.timer.tasks with
      | nil =>
          simp only [timerStep, htasks] at hn
          cases hn
      | cons event rest =>
          simp only [timerStep, htasks] at hn
          obtain ⟨u, hu, rfl⟩ := Option.map_eq_some_iff.mp hn
          obtain ⟨t, ht, rfl⟩ := Option.map_eq_some_iff.mp hu
          refine ⟨t, ht, fun _ _ _ _ => nofun, ?_⟩
          cases howner : s.owner event with
          | none => exact .inl rfl
          | some cor => exact .inr ⟨event, rest, cor, rfl, rfl, howner, rfl⟩

/-- When a `sleep` of so many seconds is over, by the source. -/
def TimedCallKind.till : TimedCallKind → Option Int
  | .sleep seconds since => some (since + (1000 * seconds).toNat)
  | .connect => none

/-- The callback of the call's event has not been run yet. -/
structure TimedHooks.Waits (s : TimedHooks C E) (cor : C) (call : TimedCall E) : Prop where
  owner : s.owner call.event = some cor
  running : call.isTimeout = false
  till : ∀ till ∈ call.kind.till, (s.timer.timer.events call.event).arriveTime = till

structure TimedHooksKept (s : TimedHooks C E) : Prop where
  ordered : Ordered s.timer.timer.pendingEvents
  expected : ∀ e cor, s.owner e = some cor → Expected s.timer e
  waits : ∀ cor call, s.calls cor = some call → s.Waits cor call
  slept : ∀ r ∈ s.slept, r.since + (1000 * r.seconds).toNat ≤ r.till

namespace TimedHooksKept

theorem start (h : TimedHookStart s) : TimedHooksKept s := by
  obtain ⟨⟨hpending, -, -⟩, hcalls, howner, hslept, -⟩ := h
  refine ⟨hpending ▸ .nil, fun e cor he => ?_, fun cor call hc => ?_, fun r hr => ?_⟩
  · rw [howner] at he
    cases he
  · rw [hcalls] at hc
    cases hc
  · rw [hslept] at hr
    cases hr

/-- The timer moves on, without a new entry for an event of a call. -/
theorem withTimer (h : TimedHooksKept s) (ho : Ordered t.timer.pendingEvents)
    (hstands : ∀ e cor, s.owner e = some cor → Stands s.timer t e) : TimedHooksKept { s with timer := t } where
  ordered := ho
  expected e cor he := (hstands e cor he).expected
  waits cor call hc := by
    have hwaits := h.waits cor call hc
    refine ⟨hwaits.owner, hwaits.running, fun till htill => ?_⟩
    exact (hstands _ cor hwaits.owner).arriveTime.trans (hwaits.till till htill)
  slept := h.slept

theorem withLate (h : TimedHooksKept s) (late : List E) : TimedHooksKept { s with late := late } where
  ordered := h.ordered
  expected := h.expected
  waits cor call hc := by
    obtain ⟨h1, h2, h3⟩ := h.waits cor call hc
    exact ⟨h1, h2, h3⟩
  slept := h.slept

theorem del (h : TimedHooksKept s) (event : E) : TimedHooksKept (s.delTimerEvent event) :=
  h.withTimer (h.ordered.sublist delTimerEvent_sublist) fun e cor he => (h.expected e cor he).del

/-- A step of the timer that adds no event of a call. -/
theorem timerNext (h : TimedHooksKept s) {l : TimerStep E} (hn : timerNext s.timer l = some t)
    (hadd : ∀ e cor, s.owner e = some cor → ∀ now, l ≠ .add e now) : TimedHooksKept { s with timer := t } :=
  h.withTimer (timerNext_ordered h.ordered hn) fun e cor he => (h.expected e cor he).step (hadd e cor he) hn

variable [DecidableEq C]

theorem leave (h : TimedHooksKept s) (cor : C) : TimedHooksKept (s.setCall cor none) where
  ordered := h.ordered
  expected := h.expected
  waits cor' call hc := by
    by_cases he : cor' = cor
    · subst he
      simp [TimedHooks.setCall] at hc
    · simp only [TimedHooks.setCall, Function.update_of_ne he] at hc
      obtain ⟨h1, h2, h3⟩ := h.waits cor' call hc
      exact ⟨h1, h2, h3⟩
  slept := h.slept

/-- Behind `Yield`, with the flag as the callback leaves it. -/
theorem goOn (h : TimedHooksKept s) (hc : s.calls cor = some call) {isTimeout : Bool}
    (hover : isTimeout = true → ∀ till ∈ call.kind.till, till ≤ s.timer.now) :
    TimedHooksKept (s.goOn cor { call with isTimeout := isTimeout }) := by
  obtain ⟨event, kind, running⟩ := call
  obtain rfl : running = false := (h.waits cor _ hc).running
  cases kind with
  | sleep seconds since =>
      cases isTimeout with
      | false =>
          have hsame : s.setCall cor (some { event := event, kind := .sleep seconds since }) = s := by
            simp only [TimedHooks.setCall]
            rw [← hc, Function.update_eq_self]
          simp only [TimedHooks.goOn, Bool.false_eq_true, if_false]
          rw [hsame]
          exact h
      | true =>
          have hover : since + (1000 * seconds).toNat ≤ s.timer.now := hover rfl _ rfl
          simp only [TimedHooks.goOn, if_true]
          obtain ⟨h1, h2, h3, h4⟩ := h.leave cor
          refine ⟨h1, h2, fun cor' call' hc' => ?_, fun r hr => ?_⟩
          · obtain ⟨w1, w2, w3⟩ := h3 cor' call' hc'
            exact ⟨w1, w2, w3⟩
          · rcases List.mem_append.mp hr with hr | hr
            · exact h4 r hr
            · rw [List.mem_singleton.mp hr]
              exact hover
  | connect =>
      simp only [TimedHooks.goOn]
      exact (h.del event).leave cor

/-- A spurious resumption. -/
theorem resumed (h : TimedHooksKept s) (hc : s.calls cor = some call) : TimedHooksKept (s.goOn cor call) := by
  have hrunning := (h.waits cor call hc).running
  have hgoOn : TimedHooksKept (s.goOn cor { call with isTimeout := false }) := h.goOn hc nofun
  rw [← hrunning] at hgoOn
  exact hgoOn

/-- A new call, for whose event nobody has asked before. -/
theorem wait (h : TimedHooksKept s) (hfresh : s.Fresh event) {interval now : Int} {kind : TimedCallKind}
    (hnow : s.timer.now ≤ now) (hkind : ∀ till ∈ kind.till, till = now + interval) :
    TimedHooksKept (s.wait cor event interval now kind) := by
  obtain ⟨hnone, hpending, htasks⟩ := hfresh
  have hzero : s.timer.timer.occurrences event = 0 := by
    rw [occurrences_eq, List.count_eq_zero_of_not_mem hpending, List.count_eq_zero_of_not_mem htasks]
  have hother : ∀ e, e ≠ event → Aside s.timer.timer (s.wait cor event interval now kind).timer.timer e :=
    fun e he => (update_aside (Ne.symm he)).trans (addTimerEvent_aside (Ne.symm he))
  have htasks' : (s.wait cor event interval now kind).timer.timer.tasks = s.timer.timer.tasks := by
    simp only [TimedHooks.wait, TimedHooks.setCall, addTimerEvent_tasks]
    rfl
  have hstands : ∀ e, e ≠ event → Expected s.timer e → Stands s.timer (s.wait cor event interval now kind).timer e := by
    intro e he hexp
    refine hexp.aside (hother e he) fun hmem => ?_
    rw [(hother e he).events_eq]
    exact Int.le_trans (hexp.due (htasks' ▸ hmem)) hnow
  have howned : ∀ e cor', s.owner e = some cor' → e ≠ event := by
    rintro e cor' he rfl
    rw [hnone] at he
    cases he
  have howner : ∀ e, e ≠ event → (s.wait cor event interval now kind).owner e = s.owner e :=
    fun e he => Function.update_of_ne he _ _
  refine ⟨?_, fun e cor' he => ?_, fun cor' call hc => ?_, h.slept⟩
  · simp only [TimedHooks.wait, TimedHooks.setCall, addTimerEvent_pendingEvents]
    exact emplace_ordered h.ordered
  · by_cases hev : e = event
    · subst hev
      exact ⟨Once.added hzero rfl, fun hmem => absurd (htasks' ▸ hmem) htasks⟩
    · rw [howner e hev] at he
      exact (hstands e hev (h.expected e cor' he)).expected
  · by_cases hcor : cor' = cor
    · subst hcor
      simp only [TimedHooks.wait, TimedHooks.setCall, Function.update_self, Option.some.injEq] at hc
      subst hc
      refine ⟨Function.update_self _ _ _, rfl, fun till htill => ?_⟩
      rw [hkind till htill]
      simp [TimedHooks.wait, TimedHooks.setCall, update]
    · simp only [TimedHooks.wait, TimedHooks.setCall, Function.update_of_ne hcor] at hc
      have hwaits := h.waits cor' call hc
      have hne := howned _ _ hwaits.owner
      refine ⟨(howner _ hne).trans hwaits.owner, hwaits.running, fun till htill => ?_⟩
      exact (hstands _ hne (h.expected _ _ hwaits.owner)).arriveTime.trans (hwaits.till till htill)

/-- The callback of an event that has been collected. -/
theorem timeoutCb (h : TimedHooksKept s) (hdue : (s.timer.timer.events event).arriveTime ≤ s.timer.now) :
    TimedHooksKept (s.timeoutCb event cor) := by
  cases hc : s.calls cor with
  | none =>
      simp only [TimedHooks.timeoutCb, hc]
      exact h.withLate _
  | some call =>
      simp only [TimedHooks.timeoutCb, hc]
      split
      case isTrue he =>
        refine h.goOn hc fun _ till htill => ?_
        rw [← (h.waits cor call hc).till till htill, he]
        exact hdue
      case isFalse => exact (h.resumed hc).withLate _

/-- The steps of the timer, with the callbacks that it starts. -/
theorem timerStep (h : TimedHooksKept s) {l : TimerStep E} (hn : s.timerStep l = some s') : TimedHooksKept s' := by
  obtain ⟨t, ht, hadd, rfl | ⟨event, rest, cor, rfl, htasks, howner, rfl⟩⟩ := TimedHooks.timerStep_cases hn
  · exact h.timerNext ht hadd
  · refine (h.timerNext ht hadd).timeoutCb ?_
    have hexp := h.expected event cor howner
    have hnow : t.now = s.timer.now := by
      simp only [Tirpc.timerNext, htasks, Option.some.injEq] at ht
      rw [← ht]
    have hdue := hexp.due (htasks ▸ List.mem_cons_self)
    have hstands : Stands s.timer t event := hexp.step (hadd event cor howner) ht
    rw [← hstands.arriveTime, ← hnow] at hdue
    exact hdue

theorem step {l : TimedHookStep C E} (h : TimedHooksKept s) (hn : timedHookNext s l = some s') : TimedHooksKept s' := by
  cases l with
  | sleep cor seconds event now =>
      obtain ⟨⟨-, hfresh, hnow⟩, hn⟩ := Option.ite_none_right_eq_some.mp hn
      cases hn
      refine h.wait hfresh hnow fun till htill => ?_
      exact (Option.some.inj htill).symm
  | connect cor event now =>
      obtain ⟨⟨-, hfresh, hnow⟩, hn⟩ := Option.ite_none_right_eq_some.mp hn
      cases hn
      exact h.wait hfresh hnow nofun
  | resume cor =>
      obtain ⟨call, hc, rfl⟩ := Option.map_eq_some_iff.mp hn
      exact h.resumed hc
  | timer step => exact h.timerStep hn

theorem of_reachable {ok : TimedHooks C E → TimedHookStep C E → Prop}
    (h : Reachable timedHookNext TimedHookStart ok s) : TimedHooksKept s :=
  h.invariant (fun _ => start) fun _ _ _ hI _ hn => hI.step hn

end TimedHooksKept

/-! ## A `sleep` is not too short -/

theorem mul_1000_toNat_iff (seconds : UInt32) :
    (1000 * seconds).toNat = 1000 * seconds.toNat ↔ seconds.toNat < 4294968 := by
  rw [UInt32.toNat_mul, show (1000 : UInt32).toNat = 1000 from rfl]
  have := seconds.toNat_lt
  omega

variable [DecidableEq C]

/-- However often a coroutine is resumed in between, and whoever adds and deletes events: a `sleep` returns when
`1000 * seconds` milliseconds are over, as `unsigned int` gives the product; that is the time it was asked for up to
4294967 seconds. -/
theorem sleep_not_short (h : Reachable timedHookNext TimedHookStart anyStep s) :
    ∀ r ∈ s.slept, r.since + (1000 * r.seconds).toNat ≤ r.till ∧
      ((1000 * r.seconds).toNat = 1000 * r.seconds.toNat ↔ r.seconds.toNat < 4294968) :=
  fun r hr => ⟨(TimedHooksKept.of_reachable h).slept r hr, mul_1000_toNat_iff r.seconds⟩

/-- Nobody waits, and the clock stands at zero. -/
def noCalls : TimedHooks Bool Nat :=
  { timer := { timer := { events := fun _ => { arriveTime := 0, interval := 0 } }, now := 0 } }

theorem noCalls_start : TimedHookStart noCalls := ⟨⟨rfl, rfl, rfl⟩, rfl, rfl, rfl, rfl⟩

theorem sleep_not_short_one : ∃ s : TimedHooks Bool Nat, s.slept = [⟨1, 0, 1005⟩] ∧
    ∀ r ∈ s.slept, r.since + (1000 * r.seconds).toNat ≤ r.till ∧
      ((1000 * r.seconds).toNat = 1000 * r.seconds.toNat ↔ r.seconds.toNat < 4294968) := by
  obtain ⟨s, hs, hslept⟩ : ∃ s, runLabels timedHookNext noCalls [.sleep true 1 7 0, .resume true,
      .timer (.elapse 400), .resume true, .timer (.onTimer 1005 [] 1005), .timer .startTask] = some s ∧
        s.slept = [⟨1, 0, 1005⟩] := ⟨_, rfl, rfl⟩
  exact ⟨s, hslept, sleep_not_short ((Reachable.start noCalls_start).of_run hs)⟩

end Tirpc
