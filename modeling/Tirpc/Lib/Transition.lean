import Mathlib.Tactic.Common

/-!
# Transition systems

A system is given by its next state for a label, where the label carries every choice: which party
moves, and with which input. A label that is not enabled has no next state. `Reachable` takes a
condition on the steps, so that it also speaks of the runs all of whose steps meet the condition.
-/

namespace Lib

variable {σ ℓ : Type*}

/-- The states that a run reaches from a start, when each of its steps meets `ok`. -/
inductive Reachable (next : σ → ℓ → Option σ) (start : σ → Prop) (ok : σ → ℓ → Prop) : σ → Prop
  | start {s : σ} (h : start s) : Reachable next start ok s
  | step {s s' : σ} (h : Reachable next start ok s) (l : ℓ) (hok : ok s l) (hn : next s l = some s') :
      Reachable next start ok s'

def anyStep (_ : σ) (_ : ℓ) : Prop := True

variable {next : σ → ℓ → Option σ} {start : σ → Prop} {ok : σ → ℓ → Prop}

/-- What holds at the start and is preserved by every allowed step holds in every state reached. -/
theorem Reachable.invariant {I : σ → Prop} (h0 : ∀ s, start s → I s)
    (hI : ∀ s s' l, I s → ok s l → next s l = some s' → I s') {s : σ}
    (h : Reachable next start ok s) : I s := by
  induction h with
  | start h => exact h0 _ h
  | step _ l hok hn ih => exact hI _ _ l ih hok hn

theorem Reachable.imp {ok' : σ → ℓ → Prop} (h : ∀ s l, ok s l → ok' s l) {s : σ} (hs : Reachable next start ok s) :
    Reachable next start ok' s := by
  induction hs with
  | start hs => exact .start hs
  | step _ l hok hn ih => exact .step ih l (h _ l hok) hn

theorem Reachable.single {s s' : σ} (l : ℓ) (hok : ok s l) (hn : next s l = some s') :
    Reachable next (· = s) ok s' :=
  .step (.start rfl) l hok hn

theorem Reachable.trans {s s' : σ} (hs : Reachable next start ok s) (h : Reachable next (· = s) ok s') :
    Reachable next start ok s' := by
  induction h with
  | start h => exact h ▸ hs
  | step _ l hok hn ih => exact .step ih l hok hn

def runLabels (next : σ → ℓ → Option σ) : σ → List ℓ → Option σ
  | s, [] => some s
  | s, l :: ls => (next s l).bind (runLabels next · ls)

theorem runLabels_append (s : σ) (l l' : List ℓ) :
    runLabels next s (l ++ l') = (runLabels next s l).bind (runLabels next · l') := by
  induction l generalizing s with
  | nil => rfl
  | cons a l ih =>
      simp only [List.cons_append, runLabels, Option.bind_assoc]
      exact congrArg ((next s a).bind ·) (funext ih)

/-- Every step of the run meets `ok`. -/
def RunOk (next : σ → ℓ → Option σ) (ok : σ → ℓ → Prop) : σ → List ℓ → Prop
  | _, [] => True
  | s, l :: ls => ok s l ∧ ∀ s' ∈ next s l, RunOk next ok s' ls

instance instDecidableRunOk [∀ s l, Decidable (ok s l)] : (s : σ) → (ls : List ℓ) → Decidable (RunOk next ok s ls)
  | _, [] => inferInstanceAs (Decidable True)
  | s, l :: ls =>
      have : ∀ s', Decidable (RunOk next ok s' ls) := fun s' => instDecidableRunOk s' ls
      inferInstanceAs (Decidable (ok s l ∧ ∀ s' ∈ next s l, RunOk next ok s' ls))

theorem Reachable.of_runOk {s s' : σ} {ls : List ℓ} (hs : Reachable next start ok s)
    (hok : RunOk next ok s ls) (h : runLabels next s ls = some s') : Reachable next start ok s' := by
  induction ls generalizing s with
  | nil =>
      simp only [runLabels, Option.some.injEq] at h
      exact h ▸ hs
  | cons l ls ih =>
      simp only [runLabels, Option.bind_eq_some_iff] at h
      obtain ⟨s₁, h1, h2⟩ := h
      exact ih (.step hs l hok.1 h1) (hok.2 s₁ h1) h2

theorem RunOk.imp {ok' : σ → ℓ → Prop} (h : ∀ s l, ok s l → ok' s l) {s : σ} {ls : List ℓ}
    (hok : RunOk next ok s ls) : RunOk next ok' s ls := by
  induction ls generalizing s with
  | nil => exact trivial
  | cons l ls ih => exact ⟨h s l hok.1, fun s' hs => ih (hok.2 s' hs)⟩

theorem RunOk.and_labels {P : ℓ → Prop} {s : σ} {ls : List ℓ} (hok : RunOk next ok s ls) (hP : ∀ l ∈ ls, P l) :
    RunOk next (fun s l => ok s l ∧ P l) s ls := by
  induction ls generalizing s with
  | nil => exact trivial
  | cons l ls ih =>
      exact ⟨⟨hok.1, hP l (.head _)⟩, fun s' hs => ih (hok.2 s' hs) fun l hl => hP l (.tail _ hl)⟩

theorem RunOk.of_append {s : σ} {l l' : List ℓ} (h : RunOk next ok s (l ++ l')) :
    RunOk next ok s l ∧ ∀ s' ∈ runLabels next s l, RunOk next ok s' l' := by
  induction l generalizing s with
  | nil => exact ⟨trivial, fun s' hs => Option.some.inj hs ▸ h⟩
  | cons a l ih =>
      refine ⟨⟨h.1, fun s' hs => (ih (h.2 s' hs)).1⟩, fun s' hs => ?_⟩
      obtain ⟨s₁, h1, h2⟩ := Option.bind_eq_some_iff.mp hs
      exact (ih (h.2 s₁ h1)).2 s' h2

theorem runOk_any (s : σ) (ls : List ℓ) : RunOk next anyStep s ls := by
  induction ls generalizing s with
  | nil => exact trivial
  | cons l ls ih => exact ⟨trivial, fun s' _ => ih s'⟩

theorem Reachable.of_run {s s' : σ} {ls : List ℓ} (hs : Reachable next start anyStep s)
    (h : runLabels next s ls = some s') : Reachable next start anyStep s' :=
  hs.of_runOk (runOk_any s ls) h

/-! ## Refinement -/

section Refinement

variable {τ : Type*} {next' : τ → ℓ → Option τ} {R : σ → τ → Prop}

/-- From related states, an allowed step can be made in both systems and leads to related states. -/
def Refines (next : σ → ℓ → Option σ) (next' : τ → ℓ → Option τ) (R : σ → τ → Prop)
    (ok : σ → ℓ → Prop) : Prop :=
  ∀ s t l, R s t → ok s l → ∃ s' t', next s l = some s' ∧ next' t l = some t' ∧ R s' t'

theorem Refines.run (hR : Refines next next' R ok) {s : σ} {t : τ} {ls : List ℓ} (h : R s t)
    (hok : RunOk next ok s ls) :
    ∃ s' t', runLabels next s ls = some s' ∧ runLabels next' t ls = some t' ∧ R s' t' := by
  induction ls generalizing s t with
  | nil => exact ⟨s, t, rfl, rfl, h⟩
  | cons l ls ih =>
      obtain ⟨s₁, t₁, hs, ht, h₁⟩ := hR s t l h hok.1
      obtain ⟨s', t', hs', ht', h'⟩ := ih h₁ (hok.2 s₁ hs)
      exact ⟨s', t', by simp only [runLabels, hs, Option.bind_some, hs'],
        by simp only [runLabels, ht, Option.bind_some, ht'], h'⟩

end Refinement

end Lib
