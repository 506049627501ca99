import Mathlib.Data.List.Nodup
import Mathlib.Logic.Function.Basic

/-!
# Items that are in one place

A family of lists holds each item at most once, over all its lists.
-/

namespace Lib

variable {P A : Type*}

structure Exclusive (held : P → List A) : Prop where
  nodup : ∀ p, (held p).Nodup
  once : ∀ p q a, a ∈ held p → a ∈ held q → p = q

namespace Exclusive

theorem nil : Exclusive fun _ : P => ([] : List A) := ⟨fun _ => List.nodup_nil, fun _ _ _ h => by cases h⟩

variable [DecidableEq P] {held : P → List A} {p q : P} {a b : A} {l r : List A}

theorem mem_push (h : b ∈ Function.update held p (held p ++ [a]) q) : q = p ∧ b = a ∨ b ∈ held q := by
  by_cases hq : q = p
  · subst hq
    rw [Function.update_self, List.mem_append, List.mem_singleton] at h
    exact h.elim .inr fun hb => .inl ⟨rfl, hb⟩
  · rw [Function.update_of_ne hq] at h
    exact .inr h

/-- An item that is in no list joins one. -/
theorem push (h : Exclusive held) (hnew : ∀ q, a ∉ held q) :
    Exclusive (Function.update held p (held p ++ [a])) := by
  refine ⟨fun q => ?_, fun q q' b hb hb' => ?_⟩
  · by_cases hq : q = p
    · subst hq
      rw [Function.update_self]
      exact (h.nodup q).append (List.nodup_singleton a) (List.disjoint_singleton.mpr (hnew q))
    · rw [Function.update_of_ne hq]
      exact h.nodup q
  · rcases mem_push hb with ⟨rfl, rfl⟩ | hq
    · rcases mem_push hb' with ⟨rfl, -⟩ | hq'
      · rfl
      · exact absurd hq' (hnew q')
    · rcases mem_push hb' with ⟨rfl, rfl⟩ | hq'
      · exact absurd hq (hnew q)
      · exact h.once q q' b hq hq'

theorem mem_take (hp : held p = a :: l) (h : b ∈ Function.update held p l q) : b ∈ held q := by
  by_cases hq : q = p
  · subst hq
    rw [Function.update_self] at h
    exact hp ▸ List.mem_cons_of_mem a h
  · rwa [Function.update_of_ne hq] at h

/-- The first item of a list leaves it, and is then in no list. -/
theorem take (h : Exclusive held) (hp : held p = a :: l) :
    Exclusive (Function.update held p l) ∧ ∀ q, a ∉ Function.update held p l q := by
  have hnodup := h.nodup p
  rw [hp, List.nodup_cons] at hnodup
  refine ⟨⟨fun q => ?_, fun q q' b hb hb' => ?_⟩, fun q ha => ?_⟩
  · by_cases hq : q = p
    · subst hq
      rw [Function.update_self]
      exact hnodup.2
    · rw [Function.update_of_ne hq]
      exact h.nodup q
  · exact h.once q q' b (mem_take hp hb) (mem_take hp hb')
  · have hqp : q = p := h.once q p a (mem_take hp ha) (hp ▸ List.mem_cons_self)
    subst hqp
    rw [Function.update_self] at ha
    exact hnodup.1 ha

theorem mem_move {q' : P} (hp : held p = l ++ r) (hpq : p ≠ q)
    (h : b ∈ Function.update (Function.update held p r) q (held q ++ l) q') :
    b ∈ held q' ∧ (q' = p → b ∈ r) ∨ q' = q ∧ b ∈ l := by
  by_cases hq : q' = q
  · subst hq
    rw [Function.update_self, List.mem_append] at h
    exact h.imp (fun hb => ⟨hb, fun he => absurd he.symm hpq⟩) fun hb => ⟨rfl, hb⟩
  · rw [Function.update_of_ne hq] at h
    by_cases hp' : q' = p
    · subst hp'
      rw [Function.update_self] at h
      exact .inl ⟨hp ▸ List.mem_append_right l h, fun _ => h⟩
    · rw [Function.update_of_ne hp'] at h
      exact .inl ⟨h, fun he => absurd he hp'⟩

/-- The first items of a list go over to another. -/
theorem move (h : Exclusive held) (hp : held p = l ++ r) (hpq : p ≠ q) :
    Exclusive (Function.update (Function.update held p r) q (held q ++ l)) := by
  have hnodup := h.nodup p
  rw [hp, List.nodup_append'] at hnodup
  have hl : ∀ b ∈ l, b ∈ held p := fun b hb => hp ▸ List.mem_append_left r hb
  refine ⟨fun q' => ?_, fun q₁ q₂ b hb₁ hb₂ => ?_⟩
  · by_cases hq : q' = q
    · subst hq
      rw [Function.update_self]
      exact (h.nodup q').append hnodup.1 fun b hb hbl => hpq (h.once p q' b (hl b hbl) hb)
    · rw [Function.update_of_ne hq]
      by_cases hp' : q' = p
      · subst hp'
        rw [Function.update_self]
        exact hnodup.2.1
      · rw [Function.update_of_ne hp']
        exact h.nodup q'
  · rcases mem_move hp hpq hb₁ with ⟨h₁, hr₁⟩ | ⟨rfl, h₁⟩
    · rcases mem_move hp hpq hb₂ with ⟨h₂, -⟩ | ⟨rfl, h₂⟩
      · exact h.once q₁ q₂ b h₁ h₂
      · have hqp := h.once q₁ p b h₁ (hl b h₂)
        exact absurd (hr₁ hqp) (hnodup.2.2 h₂)
    · rcases mem_move hp hpq hb₂ with ⟨h₂, hr₂⟩ | ⟨rfl, -⟩
      · have hqp := h.once q₂ p b h₂ (hl b h₁)
        exact absurd (hr₂ hqp) (hnodup.2.2 h₁)
      · rfl

end Exclusive

end Lib
