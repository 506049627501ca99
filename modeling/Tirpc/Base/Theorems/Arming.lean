import Tirpc.Base.Lemmas.Timer

/-!
# Is the timerfd set when an event is pending?

The timerfd is set by the last pending event, and not set at all when that one has expired or is due
this very millisecond. So it is set in time as long as it is only set for events that share one
arrive time ahead of the clock.
-/

namespace Tirpc

open Lib

variable {E : Type}

namespace Timer

def Live (s : Timer E) : Prop := ∃ p ∈ s.pendingEvents, (s.events p.2).isCanceled = false

/-- The keys that `OnTimer` leaves in the map: those of the entries that it does not take, and the new
arrive times of the repeated events. -/
def keysLeft (s : Timer E) (now : Int) (resets : List Int) : List Int :=
  (s.pendingEvents.dropWhile (s.due now)).map Prod.fst ++
    ((s.repeatedTasks now).zip resets).map fun p => p.2 + (s.events p.1).interval

variable {s : Timer E} {now : Int} {event : E}

theorem addTimerEvent_no_reset :
    (s.addTimerEvent event false now).expiry = s.expiry := by
  simp [addTimerEvent]

theorem resetArriveTime_ahead {k : Int} (hne : s.pendingEvents ≠ []) (hk : ∀ p ∈ s.pendingEvents, p.1 = k)
    (hnow : now < k) : (s.resetArriveTime now).expiry = some k := by
  obtain ⟨p, hp⟩ := Option.isSome_iff_exists.mp (List.getLast?_isSome.mpr hne)
  have hkey := hk p (List.mem_of_getLast? hp)
  simp only [resetArriveTime, hp, hkey]
  rw [if_neg (by omega), if_neg (by omega)]
  exact congrArg some (by omega)

theorem resetArriveTime_expired (hall : ∀ p ∈ s.pendingEvents, p.1 < now) : s.resetArriveTime now = s := by
  simp only [resetArriveTime]
  cases hp : s.pendingEvents.getLast? with
  | none => rfl
  | some p => exact if_pos (hall p (List.mem_of_getLast? hp))

/-! ## The three operations -/

variable [DecidableEq E]

theorem delTimerEvent_live (h : (s.delTimerEvent event).Live) : s.Live := by
  obtain ⟨p, hp, hc⟩ := h
  refine ⟨p, mem_delTimerEvent hp, ?_⟩
  by_cases he : p.2 = event
  · simp [delTimerEvent, update, he] at hc
  · simpa [delTimerEvent, update, he] using hc

theorem requeue_expiry {l : List (E × Int)} : (s.requeue l).expiry = s.expiry := by
  induction l generalizing s with
  | nil => rfl
  | cons a l ih => rw [requeue, ih, addTimerEvent_no_reset]; rfl

theorem onTimer_key {resets : List Int} {last : Int} {p : Int × E}
    (h : p ∈ (s.onTimer now resets last).pendingEvents) : p.1 ∈ s.keysLeft now resets := by
  rw [onTimer, resetArriveTime_pendingEvents] at h
  refine List.mem_append.mpr ((mem_requeue h).imp ?_ ?_)
  · intro hp
    exact List.mem_map_of_mem hp
  · rintro ⟨a, ha, hp⟩
    exact List.mem_map.mpr ⟨a, ha, hp.symm⟩

end Timer

/-! ## The invariant -/

/-- The timerfd is set to a time that is no later than any pending arrive time, unless that time has
passed. -/
def Covers (s : TimerState E) : Prop :=
  ∃ x, s.timer.expiry = some x ∧ ∀ p ∈ s.timer.pendingEvents, x ≤ max p.1 s.now

def ArmedInTime (s : TimerState E) : Prop := s.timer.Live → Covers s

/-- When an added event is covered: the timerfd is set to it, and every pending event has the same arrive
time ahead of the clock; or the timerfd is left alone, and a pending event comes no later; or everything
has expired, the timerfd too; or nothing that is pending counts. -/
inductive AddFits (s : TimerState E) (event : E) (now : Int) : Prop
  | together (hreset : s.timer.isReset event = true) (hahead : now < (s.timer.events event).arriveTime)
      (hall : ∀ p ∈ s.timer.pendingEvents, p.1 = (s.timer.events event).arriveTime)
  | later (hreset : s.timer.isReset event = false) (p : Int × E) (hp : p ∈ s.timer.pendingEvents)
      (hle : p.1 ≤ max (s.timer.events event).arriveTime now) (hcovers : s.timer.Live ∨ Covers s)
  | expired (harrive : (s.timer.events event).arriveTime < now) (hall : ∀ p ∈ s.timer.pendingEvents, p.1 < now)
      (hset : s.timer.Live ∨ ∃ x, s.timer.expiry = some x ∧ x ≤ now)
  | canceled (hc : (s.timer.events event).isCanceled = true) (hlive : ¬s.timer.Live)

/-- When `OnTimer` leaves the events covered: they are cancelled; or they share one arrive time ahead of
the clock; or they have all expired, and the timerfd expires while `OnTimer` runs. -/
inductive OnTimerFits (s : TimerState E) (now : Int) (resets : List Int) (last : Int) : Prop
  | canceled (hnone : s.timer.repeatedTasks now = [])
      (hall : ∀ p ∈ s.timer.pendingEvents.dropWhile (s.timer.due now), (s.timer.events p.2).isCanceled = true)
  | together (k : Int) (hahead : last < k) (hall : ∀ k' ∈ s.timer.keysLeft now resets, k' = k)
  | expired (x : Int) (hall : ∀ k ∈ s.timer.keysLeft now resets, k < last) (hset : s.timer.expiry = some x)
      (hnow : now < x) (hlast : x ≤ last)

def StepFits (s : TimerState E) : TimerStep E → Prop
  | .add event now => AddFits s event now
  | .onTimer now resets last => OnTimerFits s now resets last
  | _ => True

variable {s s' : TimerState E}

theorem Covers.mono {now : Int} (h : Covers s) (hnow : s.now ≤ now) : Covers { s with now := now } := by
  obtain ⟨x, hx, hall⟩ := h
  refine ⟨x, hx, fun p hp => ?_⟩
  have hle := hall p hp
  simp only
  omega

theorem add_armed {event : E} {now : Int} (hI : ArmedInTime s) (hnow : s.now ≤ now)
    (h : AddFits s event now) :
    ArmedInTime { timer := s.timer.addTimerEvent event true now, now := now } := by
  intro hlive
  cases h with
  | together hreset hahead hall =>
      have hpend : ∀ p ∈ Timer.emplace (s.timer.events event).arriveTime event s.timer.pendingEvents,
          p.1 = (s.timer.events event).arriveTime := Timer.forall_mem_emplace rfl hall
      refine ⟨(s.timer.events event).arriveTime, ?_, fun p hp => ?_⟩
      · simp only [Timer.addTimerEvent, hreset, Bool.and_true, ↓reduceIte]
        exact Timer.resetArriveTime_ahead (List.ne_nil_of_mem (Timer.mem_emplace.mpr (.inl rfl))) hpend hahead
      · rw [Timer.addTimerEvent_pendingEvents] at hp
        rw [hpend p hp]
        exact Int.le_max_left _ _
  | later hreset p₀ hp₀ hle hcovers =>
      obtain ⟨x, hx, hall⟩ := hcovers.elim hI id
      have hx₀ := hall p₀ hp₀
      refine ⟨x, by simp [Timer.addTimerEvent, hreset, hx], ?_⟩
      rw [Timer.addTimerEvent_pendingEvents]
      refine Timer.forall_mem_emplace (by simp only; omega) fun p hp => ?_
      have hxp := hall p hp
      simp only
      omega
  | expired harrive hexp hset =>
      obtain ⟨x, hx, hle⟩ : ∃ x, s.timer.expiry = some x ∧ x ≤ now := by
        rcases hset with hl | hset
        · obtain ⟨x, hx, hall⟩ := hI hl
          obtain ⟨p₀, hp₀, -⟩ := hl
          have hx₀ := hall p₀ hp₀
          have hlt := hexp p₀ hp₀
          exact ⟨x, hx, by omega⟩
        · exact hset
      have hkept : s.timer.addTimerEvent event true now = { s.timer with
          pendingEvents := Timer.emplace (s.timer.events event).arriveTime event s.timer.pendingEvents } := by
        simp only [Timer.addTimerEvent, Bool.and_true]
        rw [Timer.resetArriveTime_expired (Timer.forall_mem_emplace harrive hexp), ite_self]
      exact ⟨x, by rw [hkept]; exact hx, fun p _ => Int.le_trans hle (Int.le_max_right _ _)⟩
  | canceled hc hdead =>
      obtain ⟨p, hp, hpc⟩ := hlive
      rw [Timer.addTimerEvent_pendingEvents] at hp
      rw [Timer.addTimerEvent_events] at hpc
      rcases Timer.mem_emplace.mp hp with rfl | hp
      · rw [hc] at hpc
        cases hpc
      · exact absurd ⟨p, hp, hpc⟩ hdead

variable [DecidableEq E]

theorem onTimer_armed {now last : Int} {resets : List Int} (h : OnTimerFits s now resets last) :
    ArmedInTime { timer := s.timer.onTimer now resets last, now := last } := by
  rintro ⟨p, hp, hc⟩
  cases h with
  | canceled hnone hdead =>
      simp only [Timer.onTimer, Timer.resetArriveTime_pendingEvents, Timer.resetArriveTime_events, hnone,
        List.zip_nil_left, Timer.requeue] at hp hc
      rw [hdead p hp] at hc
      cases hc
  | together k hahead hkeys =>
      have hall : ∀ p ∈ (s.timer.onTimer now resets last).pendingEvents, p.1 = k :=
        fun p hp => hkeys p.1 (Timer.onTimer_key hp)
      refine ⟨k, ?_, fun p hp => ?_⟩
      · simp only [Timer.onTimer, Timer.resetArriveTime_pendingEvents] at hp hall ⊢
        exact Timer.resetArriveTime_ahead (List.ne_nil_of_mem hp) hall hahead
      · rw [hall p hp]
        exact Int.le_max_left _ _
  | expired x hkeys hset hnow hlast =>
      have hall : ∀ p ∈ (s.timer.onTimer now resets last).pendingEvents, p.1 < last :=
        fun p hp => hkeys p.1 (Timer.onTimer_key hp)
      refine ⟨x, ?_, fun p _ => Int.le_trans hlast (Int.le_max_right _ _)⟩
      simp only [Timer.onTimer, Timer.resetArriveTime_pendingEvents] at hall ⊢
      rw [Timer.resetArriveTime_expired hall, Timer.requeue_expiry, hset]
      simpa using hnow

theorem timerStep_armed {l : TimerStep E} (hI : ArmedInTime s) (hfits : StepFits s l)
    (hn : timerNext s l = some s') : ArmedInTime s' := by
  cases l with
  | add event now =>
      obtain ⟨hnow, hs⟩ := Option.ite_none_right_eq_some.mp hn
      cases hs
      exact add_armed hI hnow hfits
  | del event =>
      cases hn
      intro hlive
      obtain ⟨x, hx, hall⟩ := hI (Timer.delTimerEvent_live hlive)
      exact ⟨x, hx, fun p hp => hall p (Timer.mem_delTimerEvent hp)⟩
  | onTimer now resets last =>
      obtain ⟨-, hs⟩ := Option.ite_none_right_eq_some.mp hn
      cases hs
      exact onTimer_armed hfits
  | startTask =>
      simp only [timerNext] at hn
      split at hn
      · cases hn
      · cases hn
        exact hI
  | elapse now =>
      obtain ⟨hnow, hs⟩ := Option.ite_none_right_eq_some.mp hn
      cases hs
      exact fun hlive => (hI hlive).mono hnow

/-- In every run whose steps fit, the timerfd is set in time in every state. -/
theorem timer_armed (h : Reachable timerNext TimerStart StepFits s) : ArmedInTime s := by
  refine h.invariant (I := ArmedInTime) ?_ fun s s' l hI hok hn => timerStep_armed hI hok hn
  rintro s ⟨hnil, -, -⟩ ⟨p, hp, -⟩
  rw [hnil] at hp
  cases hp

/-! ## An earlier event after a later one -/

/-- Two events, a second and ten milliseconds from time zero. -/
def twoEvents : TimerState Bool :=
  { timer := { events := fun e => { arriveTime := if e then 1000 else 10, interval := if e then 1000 else 10 } }
    now := 0 }

theorem twoEvents_start : TimerStart twoEvents := ⟨rfl, rfl, rfl⟩

/-- The timerfd stays set to the later of the two. -/
theorem timer_armed_too_late : ∃ s : TimerState Bool,
    Reachable timerNext TimerStart anyStep s ∧ ¬ArmedInTime s := by
  obtain ⟨s, hs, hpend, hexp, hnow, hlive⟩ : ∃ s, runLabels timerNext twoEvents [.add true 0, .add false 0] =
      some s ∧ s.timer.pendingEvents = [(10, false), (1000, true)] ∧ s.timer.expiry = some 1000 ∧ s.now = 0 ∧
      (s.timer.events false).isCanceled = false := ⟨_, rfl, by decide, by decide, rfl, rfl⟩
  refine ⟨s, (Reachable.start twoEvents_start).of_run hs, fun h => ?_⟩
  obtain ⟨x, hx, hall⟩ := h ⟨(10, false), by rw [hpend]; exact List.mem_cons_self, hlive⟩
  rw [hexp] at hx
  cases hx
  have hle := hall (10, false) (by rw [hpend]; exact List.mem_cons_self)
  rw [hnow] at hle
  exact absurd hle (by decide)

/-- A repeated event every ten milliseconds, and one that is due at its second time. -/
def repeatedAndOnce : TimerState Bool :=
  { timer := { events := fun e => { arriveTime := if e then 10 else 20, interval := 10, isRepeated := e } }, now := 0 }

/-- The repeated event is run once and added again, and the other one is deleted before both are due. -/
def tenMilliseconds : List (TimerStep Bool) :=
  [.add true 0, .add false 0, .elapse 10, .onTimer 10 [10] 10, .startTask, .del false]

theorem tenMilliseconds_fits : RunOk timerNext StepFits repeatedAndOnce tenMilliseconds := by
  refine ⟨.together rfl (by decide) (by simp [repeatedAndOnce]), fun s₁ h₁ => ?_⟩
  cases h₁
  refine ⟨.later rfl (10, true) List.mem_cons_self (by decide) (.inl ⟨(10, true), List.mem_cons_self, rfl⟩),
    fun s₂ h₂ => ?_⟩
  cases h₂
  refine ⟨trivial, fun s₃ h₃ => ?_⟩
  cases h₃
  refine ⟨.together 20 (by decide) (by decide), fun s₄ h₄ => ?_⟩
  cases h₄
  exact ⟨trivial, fun s₅ h₅ => ⟨trivial, fun s₆ _ => trivial⟩⟩

theorem timer_armed_repeated : ∃ s : TimerState Bool, runLabels timerNext repeatedAndOnce tenMilliseconds = some s ∧
    s.timer.pendingEvents = [(20, true)] ∧ Covers s := by
  obtain ⟨s, hs, hpend, hlive⟩ : ∃ s, runLabels timerNext repeatedAndOnce tenMilliseconds = some s ∧
      s.timer.pendingEvents = [(20, true)] ∧ (s.timer.events true).isCanceled = false :=
    ⟨_, rfl, by decide, rfl⟩
  have hstart : TimerStart repeatedAndOnce := ⟨rfl, rfl, rfl⟩
  have hreach := (Reachable.start hstart).of_runOk tenMilliseconds_fits hs
  exact ⟨s, hs, hpend, timer_armed hreach ⟨(20, true), by rw [hpend]; exact List.mem_cons_self, hlive⟩⟩

end Tirpc
