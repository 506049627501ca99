import Mathlib.Tactic.Common

/-!
# Loops

A loop is given by its turn: from a state, one turn goes on with another state or leaves the loop
with a result. Runs are bounded by a number of turns, so that a run can be evaluated; a loop
terminates when some number of turns is enough.
-/

namespace Lib

inductive Turn (σ : Type*) (ρ : Type*) where
  | again (s : σ)
  | exit (r : ρ)

variable {σ ρ : Type*} (turn : σ → Turn σ ρ)

/-- The result of the loop when it is left within `n` turns. -/
def runLoop : Nat → σ → Option ρ
  | 0, _ => none
  | n + 1, s =>
      match turn s with
      | .again s' => runLoop n s'
      | .exit r => some r

/-- The state after `n` turns, if the loop is not left before. -/
def afterTurns : Nat → σ → Option σ
  | 0, s => some s
  | n + 1, s =>
      (afterTurns n s).bind fun s' =>
        match turn s' with
        | .again s'' => some s''
        | .exit _ => none

/-- The loop started in `s` is left with `r`. -/
def Ends (s : σ) (r : ρ) : Prop := ∃ n, runLoop turn n s = some r

def Terminates (s : σ) : Prop := ∃ r, Ends turn s r

variable {turn}

theorem runLoop_mono {n m : Nat} {s : σ} {r : ρ} (h : runLoop turn n s = some r) (hm : n ≤ m) :
    runLoop turn m s = some r := by
  induction n generalizing s m with
  | zero => cases h
  | succ n ih =>
      obtain ⟨k, rfl⟩ : ∃ k, m = k + 1 := ⟨m - 1, by omega⟩
      simp only [runLoop] at h ⊢
      split at h
      · exact ih h (by omega)
      · exact h

theorem afterTurns_succ {n : Nat} {s s' : σ} :
    afterTurns turn (n + 1) s = some s' ↔ ∃ m, afterTurns turn n s = some m ∧ turn m = .again s' := by
  simp only [afterTurns, Option.bind_eq_some_iff]
  refine ⟨fun h => ?_, fun h => ?_⟩
  · obtain ⟨m, hm, h⟩ := h
    cases ht : turn m with
    | again t => rw [ht] at h; cases h; exact ⟨m, hm, ht⟩
    | exit r => rw [ht] at h; cases h
  · obtain ⟨m, hm, h⟩ := h
    exact ⟨m, hm, by rw [h]⟩

theorem Ends.unique {s : σ} {r r' : ρ} (h : Ends turn s r) (h' : Ends turn s r') : r = r' := by
  obtain ⟨n, hn⟩ := h
  obtain ⟨m, hm⟩ := h'
  have h1 := runLoop_mono hn (Nat.le_max_left n m)
  have h2 := runLoop_mono hm (Nat.le_max_right n m)
  rw [h1] at h2
  exact Option.some.inj h2

theorem ends_exit {s : σ} {r r' : ρ} (ht : turn s = .exit r) : Ends turn s r' ↔ r' = r := by
  constructor
  · rintro ⟨n, hn⟩
    cases n with
    | zero => cases hn
    | succ n => simp only [runLoop, ht, Option.some.injEq] at hn; exact hn.symm
  · rintro rfl
    exact ⟨1, by simp only [runLoop, ht]⟩

theorem ends_again {s s' : σ} {r : ρ} (ht : turn s = .again s') :
    Ends turn s r ↔ Ends turn s' r := by
  constructor
  · rintro ⟨n, hn⟩
    cases n with
    | zero => cases hn
    | succ n => simp only [runLoop, ht] at hn; exact ⟨n, hn⟩
  · rintro ⟨n, hn⟩
    exact ⟨n + 1, by simp only [runLoop, ht]; exact hn⟩

/-- What holds of the start and is preserved by every turn holds of the state in which the loop is
left. -/
theorem Ends.invariant {I : σ → Prop} (hI : ∀ s s', I s → turn s = .again s' → I s') {s : σ} {r : ρ}
    (h : Ends turn s r) (hs : I s) : ∃ s', I s' ∧ turn s' = .exit r := by
  obtain ⟨n, hn⟩ := h
  induction n generalizing s with
  | zero => cases hn
  | succ n ih =>
      simp only [runLoop] at hn
      split at hn
      · rename_i s' ht
        exact ih (hI s s' hs ht) hn
      · rename_i r' ht
        simp only [Option.some.injEq] at hn
        subst hn
        exact ⟨s, hs, ht⟩

/-- A loop terminates when an invariant is preserved and a measure falls at each turn. -/
theorem terminates_of_measure {I : σ → Prop} (μ : σ → Nat)
    (hI : ∀ s s', I s → turn s = .again s' → I s' ∧ μ s' < μ s) {s : σ} (hs : I s) :
    Terminates turn s := by
  induction hn : μ s using Nat.strongRecOn generalizing s with
  | _ n ih =>
      cases ht : turn s with
      | exit r => exact ⟨r, (ends_exit ht).mpr rfl⟩
      | again s' =>
          obtain ⟨h1, h2⟩ := hI s s' hs ht
          obtain ⟨r, hr⟩ := ih _ (hn ▸ h2) h1 rfl
          exact ⟨r, (ends_again ht).mpr hr⟩

/-- A loop whose turn always goes on, from every state that satisfies an invariant, is never left. -/
theorem not_terminates {I : σ → Prop} (hI : ∀ s, I s → ∃ s', turn s = .again s' ∧ I s') {s : σ}
    (hs : I s) : ¬Terminates turn s := by
  rintro ⟨r, n, hn⟩
  induction n generalizing s with
  | zero => cases hn
  | succ n ih =>
      obtain ⟨s', ht, h'⟩ := hI s hs
      simp only [runLoop, ht] at hn
      exact ih h' hn

end Lib
