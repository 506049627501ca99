import Mathlib.Data.List.Count
import Mathlib.Logic.Function.Basic

/-!
# Shared references

An object is destroyed when the last reference to it is given up.
-/

namespace Lib

variable {A : Type*} [DecidableEq A]

def addRef (count : A → Nat) (a : A) : A → Nat := Function.update count a (count a + 1)

/-- References are given up one after another: the counts behind it, and the objects destroyed, in order. -/
def dropRefs : (A → Nat) → List A → (A → Nat) × List A
  | count, [] => (count, [])
  | count, a :: l =>
      let r := dropRefs (Function.update count a (count a - 1)) l
      (r.1, if count a = 1 then a :: r.2 else r.2)

/-- The counts are those of the references held. -/
def Counts (count : A → Nat) (held : List A) : Prop := ∀ a, count a = held.count a

variable {count : A → Nat} {held l : List A} {a b : A}

theorem Counts.addRef (h : Counts count held) (a : A) : Counts (addRef count a) (held ++ [a]) := by
  intro b
  by_cases hb : b = a
  · subst hb
    rw [Lib.addRef, Function.update_self, h b, List.count_append, List.count_singleton_self]
  · rw [Lib.addRef, Function.update_of_ne hb, h b, List.count_append, List.count_singleton, if_neg (by simp [Ne.symm hb]),
      Nat.add_zero]

theorem Counts.perm {held' : List A} (h : Counts count held) (hp : held.Perm held') : Counts count held' :=
  fun a => (h a).trans (hp.count_eq a)

theorem Counts.zero_iff (h : Counts count held) : count a = 0 ↔ a ∉ held := by
  rw [h a, List.count_eq_zero]

theorem Counts.tail (h : Counts count (a :: l)) : Counts (Function.update count a (count a - 1)) l := by
  intro b
  by_cases hb : b = a
  · subst hb
    rw [Function.update_self, h b, List.count_cons_self, Nat.add_sub_cancel]
  · rw [Function.update_of_ne hb, h b, List.count_cons_of_ne (Ne.symm hb)]

theorem Counts.dropRefs (h : Counts count (l ++ held)) : Counts (dropRefs count l).1 held := by
  induction l generalizing count with
  | nil => exact h
  | cons a l ih => exact ih (Counts.tail h)

/-- What is destroyed are the objects that are not held any more. -/
theorem mem_dropRefs (h : Counts count (l ++ held)) : b ∈ (Lib.dropRefs count l).2 ↔ b ∈ l ∧ b ∉ held := by
  induction l generalizing count with
  | nil => simp [Lib.dropRefs]
  | cons a l ih =>
      have hrest := ih (Counts.tail h)
      have hone : count a = 1 ↔ a ∉ l ++ held := by
        rw [h a, List.cons_append, List.count_cons_self, Nat.add_eq_right, List.count_eq_zero]
      simp only [Lib.dropRefs]
      split
      · rename_i ha
        have hnot := hone.mp ha
        rw [List.mem_cons, hrest, List.mem_cons]
        constructor
        · rintro (rfl | ⟨hb, hheld⟩)
          · exact ⟨.inl rfl, fun hb => hnot (List.mem_append_right l hb)⟩
          · exact ⟨.inr hb, hheld⟩
        · rintro ⟨rfl | hb, hheld⟩
          · exact .inl rfl
          · exact .inr ⟨hb, hheld⟩
      · rename_i ha
        have hagain : a ∈ l ++ held := not_not.mp (mt hone.mpr ha)
        rw [hrest, List.mem_cons]
        constructor
        · rintro ⟨hb, hheld⟩
          exact ⟨.inr hb, hheld⟩
        · rintro ⟨rfl | hb, hheld⟩
          · exact ⟨(List.mem_append.mp hagain).resolve_right hheld, hheld⟩
          · exact ⟨hb, hheld⟩

/-- An object is destroyed once. -/
theorem nodup_dropRefs (h : Counts count (l ++ held)) : (Lib.dropRefs count l).2.Nodup := by
  induction l generalizing count with
  | nil => exact List.nodup_nil
  | cons a l ih =>
      have htail := Counts.tail h
      simp only [Lib.dropRefs]
      split
      · rename_i ha
        refine List.nodup_cons.mpr ⟨fun hm => ?_, ih htail⟩
        have hl := ((mem_dropRefs htail).mp hm).1
        have hcount := h a
        rw [List.cons_append, List.count_cons_self, List.count_append, ha] at hcount
        have hpos := List.count_pos_iff.mpr hl
        omega
      · exact ih htail

end Lib
