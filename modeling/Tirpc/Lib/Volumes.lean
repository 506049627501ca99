import Mathlib.Data.List.Basic
import Mathlib.Data.List.Induction
import Mathlib.Tactic.Common

/-!
# Filling volumes

Items are put into a volume until it is larger than a limit, and then into a new one. Items with keys have volumes of
their own for each key.
-/

namespace Lib

variable {A : Type*} {size : List A → Nat} {limit : Nat} {vs : List (List A)} {v as : List A} {a : A}

def putItem (size : List A → Nat) (limit : Nat) (vs : List (List A)) (a : A) : List (List A) :=
  match vs.getLast? with
  | none => [[a]]
  | some v => if limit < size v then vs ++ [[a]] else vs.dropLast ++ [v ++ [a]]

def volumes (size : List A → Nat) (limit : Nat) (as : List A) : List (List A) := as.foldl (putItem size limit) []

theorem getElem?_concat_of_ne {k : Nat} (h : k ≠ as.length) : (as ++ [a])[k]? = as[k]? := by
  rcases Nat.lt_or_gt_of_ne h with hlt | hgt
  · exact List.getElem?_append_left hlt
  · rw [List.getElem?_eq_none (by rw [List.length_append, List.length_singleton]; omega),
      List.getElem?_eq_none (Nat.le_of_lt hgt)]

theorem putItem_concat :
    putItem size limit (vs ++ [v]) a = if limit < size v then vs ++ [v] ++ [[a]] else vs ++ [v ++ [a]] := by
  rw [putItem, List.getLast?_concat]
  dsimp only
  rw [List.dropLast_concat]

theorem volumes_concat (as : List A) (a : A) :
    volumes size limit (as ++ [a]) = putItem size limit (volumes size limit as) a := by
  rw [volumes, List.foldl_append]
  rfl

theorem putItem_cases (size : List A → Nat) (limit : Nat) (vs : List (List A)) (a : A) :
    (vs = [] ∧ putItem size limit vs a = [[a]]) ∨ ∃ ws v, vs = ws ++ [v] ∧
      (limit < size v ∧ putItem size limit vs a = ws ++ [v] ++ [[a]] ∨
        size v ≤ limit ∧ putItem size limit vs a = ws ++ [v ++ [a]]) := by
  rcases List.eq_nil_or_concat vs with rfl | ⟨ws, v, rfl⟩
  · exact .inl ⟨rfl, rfl⟩
  · rw [List.concat_eq_append, putItem_concat]
    by_cases hover : limit < size v
    · exact .inr ⟨ws, v, rfl, .inl ⟨hover, if_pos hover⟩⟩
    · exact .inr ⟨ws, v, rfl, .inr ⟨Nat.not_lt.mp hover, if_neg hover⟩⟩

/-- Read one behind the other, the volumes are the items. -/
theorem volumes_flatten (as : List A) : (volumes size limit as).flatten = as := by
  induction as using List.reverseRecOn with
  | nil => rfl
  | append_singleton as a ih =>
      rw [volumes_concat]
      rcases putItem_cases size limit (volumes size limit as) a with
        ⟨hnil, hput⟩ | ⟨ws, v, hvs, ⟨-, hput⟩ | ⟨-, hput⟩⟩
      · rw [hnil, List.flatten_nil] at ih
        rw [hput, ← ih]
        rfl
      · rw [hput, ← hvs, List.flatten_append, ih, List.flatten_singleton]
      · rw [hvs] at ih
        rw [hput, ← ih]
        simp

/-- No volume is empty, and without its last item none is over the limit. -/
theorem volumes_within (hnil : size [] ≤ limit) (as : List A) :
    ∀ v ∈ volumes size limit as, v ≠ [] ∧ size v.dropLast ≤ limit := by
  induction as using List.reverseRecOn with
  | nil => exact fun v hv => absurd hv List.not_mem_nil
  | append_singleton as a ih =>
      have hone : [a] ≠ [] ∧ size [a].dropLast ≤ limit := ⟨List.cons_ne_nil a [], hnil⟩
      rw [volumes_concat]
      rcases putItem_cases size limit (volumes size limit as) a with
        ⟨-, hput⟩ | ⟨ws, v, hvs, ⟨-, hput⟩ | ⟨hle, hput⟩⟩
      · rw [hput]
        exact fun v hv => List.mem_singleton.mp hv ▸ hone
      · rw [hput, ← hvs]
        intro u hu
        rcases List.mem_append.mp hu with hu | hu
        · exact ih u hu
        · exact List.mem_singleton.mp hu ▸ hone
      · rw [hput]
        intro u hu
        rcases List.mem_append.mp hu with hu | hu
        · exact ih u (hvs ▸ List.mem_append_left _ hu)
        · rw [List.mem_singleton.mp hu, List.dropLast_concat]
          exact ⟨List.concat_ne_nil a v, hle⟩

/-- A volume that is followed by another one is over the limit. -/
theorem volumes_full (as : List A) : ∀ v ∈ (volumes size limit as).dropLast, limit < size v := by
  induction as using List.reverseRecOn with
  | nil => exact fun v hv => absurd hv List.not_mem_nil
  | append_singleton as a ih =>
      rw [volumes_concat]
      rcases putItem_cases size limit (volumes size limit as) a with
        ⟨-, hput⟩ | ⟨ws, v, hvs, ⟨hover, hput⟩ | ⟨-, hput⟩⟩
      · rw [hput]
        exact fun v hv => absurd hv List.not_mem_nil
      · rw [hvs, List.dropLast_concat] at ih
        rw [hput, List.dropLast_concat]
        intro u hu
        rcases List.mem_append.mp hu with hu | hu
        · exact ih u hu
        · exact List.mem_singleton.mp hu ▸ hover
      · rw [hvs, List.dropLast_concat] at ih
        rw [hput, List.dropLast_concat]
        exact ih

/-- When every item alone is over the limit, each has a volume of its own. -/
theorem volumes_singletons (h : ∀ a ∈ as, limit < size [a]) : volumes size limit as = as.map fun a => [a] := by
  induction as using List.reverseRecOn with
  | nil => rfl
  | append_singleton as a ih =>
      have hrest := ih fun b hb => h b (List.mem_append_left _ hb)
      rw [volumes_concat, hrest, List.map_append]
      rcases List.eq_nil_or_concat as with rfl | ⟨bs, b, rfl⟩
      · rfl
      · rw [List.concat_eq_append, List.map_append] at *
        exact (putItem_concat (v := [b])).trans
          (if_pos (h b (List.mem_append_left _ (List.mem_append_right _ (List.mem_singleton_self b)))))

theorem volumes_length_le (as : List A) : (volumes size limit as).length ≤ as.length := by
  induction as using List.reverseRecOn with
  | nil => exact Nat.le_refl 0
  | append_singleton as a ih =>
      rw [volumes_concat, List.length_append, List.length_singleton]
      rcases putItem_cases size limit (volumes size limit as) a with
        ⟨-, hput⟩ | ⟨ws, v, hvs, ⟨-, hput⟩ | ⟨-, hput⟩⟩
      · rw [hput, List.length_singleton]
        exact Nat.le_add_left 1 _
      · rw [hput, ← hvs, List.length_append, List.length_singleton]
        omega
      · rw [hvs] at ih
        rw [hput]
        simp only [List.length_append, List.length_singleton] at ih ⊢
        omega

/-! ## Keys -/

variable {K : Type*} {r : K → K → Prop} {key : A → K} {ks : List K} {k : K}

/-- In a strict order, what no one exceeds is the last one. -/
theorem eq_concat_of_mem (hanti : ∀ k k', r k k' → r k' k → k = k') (h : ks.Pairwise fun k k' => r k k' ∧ k ≠ k')
    (hle : ∀ k' ∈ ks, r k' k) (hk : k ∈ ks) : ∃ front, ks = front ++ [k] ∧ ∀ k' ∈ front, k' ≠ k := by
  rcases List.eq_nil_or_concat ks with rfl | ⟨front, last, rfl⟩
  · cases hk
  · rw [List.concat_eq_append] at *
    have hbefore := (List.pairwise_append.mp h).2.2
    have hmem := List.mem_singleton_self last
    have hlast : last = k := by
      rcases List.mem_append.mp hk with hk | hk
      · exact hanti _ _ (hle last (List.mem_append_right _ hmem)) (hbefore k hk last hmem).1
      · exact (List.mem_singleton.mp hk).symm
    subst hlast
    exact ⟨front, rfl, fun k' hk' => (hbefore k' hk' _ hmem).2⟩

/-- Items that come in the order of their keys are the items of each key, one key behind the other. -/
theorem exists_keys [DecidableEq K] (hanti : ∀ k k', r k k' → r k' k → k = k')
    (h : as.Pairwise fun a b => r (key a) (key b)) :
    ∃ ks : List K, ks.Pairwise (fun k k' => r k k' ∧ k ≠ k') ∧ (∀ k, k ∈ ks ↔ ∃ a ∈ as, key a = k) ∧
      (ks.flatMap fun k => as.filter fun a => key a = k) = as := by
  induction as using List.reverseRecOn with
  | nil => exact ⟨[], .nil, by simp, rfl⟩
  | append_singleton as a ih =>
      obtain ⟨has, -, hlast⟩ := List.pairwise_append.mp h
      obtain ⟨ks, hks, hmem, hflat⟩ := ih has
      have hle : ∀ k ∈ ks, r k (key a) := by
        intro k hk
        obtain ⟨b, hb, rfl⟩ := (hmem k).mp hk
        exact hlast b hb a (List.mem_singleton_self a)
      have hkeys : ∀ k, (∃ b ∈ as ++ [a], key b = k) ↔ k ∈ ks ∨ k = key a := by
        intro k
        simp only [List.mem_append, List.mem_singleton, or_and_right, exists_or, exists_eq_left, hmem k, @eq_comm _ k]
      have hhere : ((as ++ [a]).filter fun b => key b = key a) = (as.filter fun b => key b = key a) ++ [a] := by
        rw [List.filter_append, List.filter_singleton, decide_eq_true rfl]
        rfl
      have hothers (front : List K) (hfront : ∀ k ∈ front, k ≠ key a) :
          (front.flatMap fun k => (as ++ [a]).filter fun b => key b = k) =
            front.flatMap fun k => as.filter fun b => key b = k := by
        refine List.flatMap_congr fun k hk => ?_
        rw [List.filter_append, List.filter_singleton, decide_eq_false (hfront k hk).symm]
        exact List.append_nil _
      by_cases hk : key a ∈ ks
      · obtain ⟨front, rfl, hfront⟩ := eq_concat_of_mem hanti hks hle hk
        refine ⟨front ++ [key a], hks, fun k => ?_, ?_⟩
        · rw [hkeys k, List.mem_append, List.mem_singleton, or_assoc, or_self]
        · rw [List.flatMap_append, List.flatMap_singleton] at hflat
          rw [List.flatMap_append, List.flatMap_singleton, hothers front hfront, hhere, ← List.append_assoc, hflat]
      · have hne : ∀ k ∈ ks, k ≠ key a := fun k hmem heq => hk (heq ▸ hmem)
        have hnone : (as.filter fun b => key b = key a) = [] :=
          List.filter_eq_nil_iff.mpr fun b hb heq => hk ((hmem _).mpr ⟨b, hb, of_decide_eq_true heq⟩)
        refine ⟨ks ++ [key a], List.pairwise_append.mpr ⟨hks, List.pairwise_singleton _ _, fun k hmem k' hk' => ?_⟩,
          fun k => ?_, ?_⟩
        · rw [List.mem_singleton.mp hk']
          exact ⟨hle k hmem, hne k hmem⟩
        · rw [hkeys k, List.mem_append, List.mem_singleton]
        · rw [List.flatMap_append, List.flatMap_singleton, hothers ks hne, hflat, hhere, hnone, List.nil_append]

end Lib
