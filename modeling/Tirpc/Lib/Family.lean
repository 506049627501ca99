import Mathlib.Algebra.BigOperators.Group.Finset.Piecewise
import Mathlib.Algebra.BigOperators.Group.Multiset.Basic

/-!
# Families of lists

What the change of one member does to the whole of a family.
-/

namespace Lib

variable {ι A M : Type*}

/-- The whole of a family, one list after another, when its last non-empty member grows. -/
theorem flatMap_update [DecidableEq ι] {f : ι → List A} {l before after : List ι} {i : ι} {x : List A}
    (hl : l = before ++ i :: after) (hnodup : l.Nodup) (hnil : ∀ j ∈ after, f j = []) :
    l.flatMap (Function.update f i (f i ++ x)) = l.flatMap f ++ x := by
  subst hl
  rw [List.nodup_append'] at hnodup
  obtain ⟨-, hafter, hdisj⟩ := hnodup
  have hbefore : before.flatMap (Function.update f i (f i ++ x)) = before.flatMap f := by
    refine List.flatMap_congr fun j hj => ?_
    have hne : j ≠ i := fun he => hdisj hj (he ▸ List.mem_cons_self)
    rw [Function.update_of_ne hne]
  have hempty : after.flatMap f = [] := List.flatMap_eq_nil_iff.mpr hnil
  have hempty' : after.flatMap (Function.update f i (f i ++ x)) = [] := by
    refine List.flatMap_eq_nil_iff.mpr fun j hj => ?_
    have hne : j ≠ i := fun he => (List.nodup_cons.mp hafter).1 (he ▸ hj)
    rw [Function.update_of_ne hne, hnil j hj]
  rw [List.flatMap_append, List.flatMap_append, List.flatMap_cons, List.flatMap_cons, hbefore, hempty, hempty',
    Function.update_self, List.append_nil, List.append_nil, List.append_assoc]

/-- One member of a family changes by `a` for `b`. -/
theorem sum_update_add [Fintype ι] [DecidableEq ι] [AddCommMonoid M] {f : ι → A} {g : A → M} {i : ι} {x : A} {a b : M}
    (h : g x + a = g (f i) + b) : (∑ j, g (Function.update f i x j)) + a = (∑ j, g (f j)) + b := by
  have hrest : ∀ j ∈ Finset.univ.erase i, g (Function.update f i x j) = g (f j) := by
    intro j hj
    rw [Function.update_of_ne (Finset.ne_of_mem_erase hj)]
  rw [← Finset.add_sum_erase _ (fun j => g (Function.update f i x j)) (Finset.mem_univ i),
    ← Finset.add_sum_erase _ (fun j => g (f j)) (Finset.mem_univ i), Finset.sum_congr rfl hrest,
    Function.update_self, add_right_comm, h, add_right_comm]

theorem sum_coe_update_append [Fintype ι] [DecidableEq ι] (f : ι → List A) (i : ι) (x : List A) :
    (∑ j, (Function.update f i (f i ++ x) j : Multiset A)) = (∑ j, (f j : Multiset A)) + (x : Multiset A) := by
  have h := sum_update_add (f := f) (g := fun l : List A => (l : Multiset A)) (i := i) (x := f i ++ x) (a := 0)
    (b := (x : Multiset A)) (by rw [add_zero, ← Multiset.coe_add])
  rwa [add_zero] at h

theorem sum_coe_update_rest [Fintype ι] [DecidableEq ι] {f : ι → List A} {i : ι} {x rest : List A}
    (h : f i = x ++ rest) :
    (∑ j, (Function.update f i rest j : Multiset A)) + (x : Multiset A) = ∑ j, (f j : Multiset A) := by
  have hsum := sum_update_add (f := f) (g := fun l : List A => (l : Multiset A)) (i := i) (x := rest)
    (a := (x : Multiset A)) (b := 0) (by rw [add_zero, h, ← Multiset.coe_add, add_comm])
  rwa [add_zero] at hsum

/-! ## One entry of a list -/

theorem of_getElem?_set {l : List A} {k i : Nat} {a b : A} (h : (l.set i a)[k]? = some b) :
    k ≠ i ∧ l[k]? = some b ∨ k = i ∧ b = a := by
  by_cases hk : k = i
  · subst hk
    rw [List.getElem?_set_self'] at h
    obtain ⟨c, -, hb⟩ := Option.map_eq_some_iff.mp h
    exact .inr ⟨rfl, hb.symm⟩
  · rw [List.getElem?_set_ne (Ne.symm hk)] at h
    exact .inl ⟨hk, h⟩

theorem of_getElem?_concat {l : List A} {k : Nat} {a b : A} (h : (l ++ [a])[k]? = some b) :
    l[k]? = some b ∨ k = l.length ∧ b = a := by
  rw [List.getElem?_append] at h
  split at h
  · exact .inl h
  · rw [List.getElem?_singleton] at h
    obtain ⟨hzero, hb⟩ := Option.ite_none_right_eq_some.mp h
    exact .inr ⟨by omega, (Option.some.inj hb).symm⟩

theorem sum_map_set [AddCommMonoid M] {f : A → M} {l : List A} {k : Nat} {a b : A} {x : M} (ha : l[k]? = some a)
    (hb : f b = f a + x) : ((l.set k b).map f).sum = (l.map f).sum + x := by
  induction l generalizing k with
  | nil => cases ha
  | cons c l ih =>
      cases k with
      | zero =>
          cases ha
          simp only [List.set_cons_zero, List.map_cons, List.sum_cons, hb, add_right_comm]
      | succ k =>
          rw [List.getElem?_cons_succ] at ha
          rw [List.set_cons_succ, List.map_cons, List.sum_cons, ih ha, List.map_cons, List.sum_cons, add_assoc]

/-- A list over the numbers below `n` when one of its entries changes. -/
theorem modify_map_range {f g : Nat → A} {h : A → A} {n k : Nat} (hk : h (f k) = g k) (hoff : ∀ j, j ≠ k → g j = f j) :
    ((List.range n).map f).modify k h = (List.range n).map g := by
  refine List.ext_getElem (by simp) fun j hj hj' => ?_
  rw [List.getElem_modify, List.getElem_map, List.getElem_map, List.getElem_range]
  split
  · rename_i he
    exact he ▸ hk
  · rename_i he
    exact (hoff j (Ne.symm he)).symm

theorem set_map_range {f g : Nat → A} {n k : Nat} {a : A} (hk : a = g k) (hoff : ∀ j, j ≠ k → g j = f j) :
    ((List.range n).map f).set k a = (List.range n).map g := by
  refine List.ext_getElem (by simp) fun j hj hj' => ?_
  rw [List.getElem_set, List.getElem_map, List.getElem_map, List.getElem_range]
  split
  · rename_i he
    exact hk.trans (congrArg g he)
  · rename_i he
    exact (hoff j (Ne.symm he)).symm

end Lib
