import Mathlib.Data.Multiset.ZeroCons
import Tirpc.Base.Lemmas.Timer

/-!
# Which entry a deletion takes

`DelTimerEvent` searches the entries under the arrive time of the event. When the event is not among them the
iterator stands on the next entry, whosever it is, and that one is erased.
-/

namespace Tirpc

open Lib

variable {E : Type}

namespace Timer

/-- One entry of the event is taken out; none, when the event is not pending. -/
structure RemovesOwn (event : E) (l l' : List (Int × E)) : Prop where
  pending : event ∈ l.map Prod.snd → ∃ l₁ k l₂, l = l₁ ++ (k, event) :: l₂ ∧ l' = l₁ ++ l₂
  absent : event ∉ l.map Prod.snd → l' = l

/-- The first entry behind those with key `k`. -/
def firstBehind (k : Int) (l : List (Int × E)) : Option (Int × E) := l.find? fun p => k < p.1

/-- The event is pending under its arrive time; or the entry behind that time is its own; or there is no entry
behind that time, and the event is not pending. -/
def FindsOwn (s : Timer E) (event : E) : Prop :=
  ((s.events event).arriveTime, event) ∈ s.pendingEvents ∨
    match firstBehind (s.events event).arriveTime s.pendingEvents with
    | some p => p.2 = event
    | none => event ∉ s.pendingEvents.map Prod.snd

theorem removesOwn_refl {event : E} {l : List (Int × E)} : RemovesOwn event l l ↔ event ∉ l.map Prod.snd := by
  refine ⟨fun h hm => ?_, fun h => ⟨fun hm => absurd hm h, fun _ => rfl⟩⟩
  obtain ⟨l₁, k, l₂, hl, hl'⟩ := h.pending hm
  have hlen := congrArg List.length (hl.symm.trans hl')
  simp only [List.length_append, List.length_cons] at hlen
  omega

theorem eq_of_perm_cons {p q : Int × E} {l : List (Int × E)} (h : (p :: l).Perm (q :: l)) : p = q := by
  rw [← Multiset.coe_eq_coe, ← Multiset.cons_coe, ← Multiset.cons_coe] at h
  exact (Multiset.cons_inj_left _).mp h

/-- What is taken out belongs to the event. -/
theorem removesOwn_append {event : E} {p : Int × E} {l₁ l₂ : List (Int × E)} :
    RemovesOwn event (l₁ ++ p :: l₂) (l₁ ++ l₂) ↔ p.2 = event := by
  constructor
  · intro h
    by_cases hm : event ∈ (l₁ ++ p :: l₂).map Prod.snd
    · obtain ⟨l₃, k, l₄, hl, hl'⟩ := h.pending hm
      have hperm : (p :: (l₁ ++ l₂)).Perm ((k, event) :: (l₁ ++ l₂)) := by
        have h₁ : (p :: (l₁ ++ l₂)).Perm (l₁ ++ p :: l₂) := List.perm_middle.symm
        rw [hl] at h₁
        rw [hl'] at h₁ ⊢
        exact h₁.trans List.perm_middle
      rw [eq_of_perm_cons hperm]
    · have hl := congrArg List.length (h.absent hm)
      simp only [List.length_append, List.length_cons] at hl
      omega
  · rintro rfl
    exact ⟨fun _ => ⟨l₁, p.1, l₂, rfl, rfl⟩, fun hm => absurd (by simp) hm⟩

/-! ## Deletions -/

variable {k : Int} {event : E} {l lower range upper : List (Int × E)}

theorem Parts.firstBehind_eq (h : Parts k l lower range upper) : firstBehind k l = upper.head? := by
  have hnot : ∀ p ∈ lower ++ range, ¬decide (k < p.1) = true := by
    intro p hp hlt
    have hlt : k < p.1 := by simpa using hlt
    rcases List.mem_append.mp hp with hp | hp
    · have := h.below p hp
      omega
    · have := h.at_key p hp
      omega
  rw [firstBehind, h.eq, ← List.append_assoc, List.find?_append, List.find?_eq_none.mpr hnot, Option.none_or]
  cases upper with
  | nil => rfl
  | cons p upper => exact List.find?_cons_of_pos (by simpa using h.above p List.mem_cons_self)

variable [DecidableEq E] {s : Timer E}

/-- For every ordered list of pending events and every event: a deletion takes out an entry of the event, and
no other, exactly if it finds its own entry. -/
theorem delTimerEvent_removes_iff (s : Timer E) (event : E) (ho : Ordered s.pendingEvents) :
    RemovesOwn event s.pendingEvents (s.delTimerEvent event).pendingEvents ↔ FindsOwn s event := by
  have hparts := Parts.of_ordered (s.events event).arriveTime ho
  simp only [delTimerEvent, FindsOwn, hparts.mem_range_iff, hparts.firstBehind_eq]
  generalize List.takeWhile _ s.pendingEvents = lower at hparts ⊢
  generalize List.takeWhile _ _ = range at hparts ⊢
  generalize List.dropWhile _ _ = upper at hparts ⊢
  rw [hparts.eq]
  by_cases hfound : ∃ p ∈ range, p.2 = event
  · rw [if_pos hfound]
    obtain ⟨p, hp, he⟩ := hfound
    obtain ⟨q, l₁, l₂, -, hq, hrange, herase⟩ :=
      List.exists_of_eraseP (p := fun p => p.2 = event) hp (by simpa using he)
    have hq : q.2 = event := by simpa using hq
    have hown : RemovesOwn event ((lower ++ l₁) ++ q :: (l₂ ++ upper)) ((lower ++ l₁) ++ (l₂ ++ upper)) :=
      removesOwn_append.mpr hq
    rw [herase, hrange]
    simp only [List.append_assoc, List.cons_append] at hown ⊢
    exact iff_of_true hown (.inl ⟨q, by simp, hq⟩)
  · rw [if_neg hfound, or_iff_right hfound]
    cases upper with
    | nil => exact removesOwn_refl
    | cons p upper =>
        have hown : RemovesOwn event ((lower ++ range) ++ p :: upper) ((lower ++ range) ++ upper) ↔ p.2 = event :=
          removesOwn_append
        rwa [List.append_assoc, List.append_assoc] at hown

/-! ## A deletion of an event that has fired -/

/-- The event that is deleted has expired, and another one is still ahead. -/
def firedAndAhead : TimerState Bool :=
  { timer := { events := fun e => { arriveTime := if e then 20 else 10, interval := 10 } }, now := 0 }

theorem firedAndAhead_start : TimerStart firedAndAhead := ⟨rfl, rfl, rfl⟩

/-- Both events are added, the first fires, and its deletion takes the other one out. -/
theorem deletion_takes_other : ∃ s : TimerState Bool, Reachable timerNext TimerStart anyStep s ∧
    ¬RemovesOwn false s.timer.pendingEvents (s.timer.delTimerEvent false).pendingEvents := by
  obtain ⟨s, hs, hpending, hdel⟩ : ∃ s, runLabels timerNext firedAndAhead
      [.add true 0, .add false 0, .onTimer 10 [] 10, .startTask] = some s ∧
        s.timer.pendingEvents = [(20, true)] ∧ (s.timer.delTimerEvent false).pendingEvents = [] :=
    ⟨_, rfl, rfl, rfl⟩
  refine ⟨s, (Reachable.start firedAndAhead_start).of_run hs, fun h => ?_⟩
  rw [hpending, hdel] at h
  have hempty := h.absent (by decide)
  cases hempty

/-- Two events share an arrive time, and the second is deleted. -/
theorem deletion_among_equals : ∃ s : Timer Bool, s.pendingEvents = [(10, false), (10, true)] ∧
    RemovesOwn true s.pendingEvents (s.delTimerEvent true).pendingEvents := by
  refine ⟨{ events := fun _ => { arriveTime := 10, interval := 10 }
            pendingEvents := [(10, false), (10, true)] }, rfl, ?_⟩
  exact (delTimerEvent_removes_iff _ true (by simp [Ordered])).mpr (.inl (by decide))

end Timer

end Tirpc
