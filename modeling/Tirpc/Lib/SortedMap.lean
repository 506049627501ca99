import Mathlib.Data.List.Induction
import Mathlib.Order.Lattice
import Mathlib.Tactic.Common

/-!
# Ordered maps, read as a ring

An ordered map whose insertions overwrite. The successor of a key is the first entry that is not below it, and behind
the last entry it is the first of all.
-/

namespace Lib

variable {κ ν : Type*} [LinearOrder κ]

structure SortedMap (κ ν : Type*) [LinearOrder κ] where
  entries : List (κ × ν)
  sorted : entries.Pairwise fun a b => a.1 < b.1

def insertSorted (k : κ) (v : ν) : List (κ × ν) → List (κ × ν)
  | [] => [(k, v)]
  | e :: es =>
      if k < e.1 then (k, v) :: e :: es
      else if k = e.1 then (k, v) :: es
      else e :: insertSorted k v es

theorem mem_insertSorted {k : κ} {v : ν} {es : List (κ × ν)} {e : κ × ν} (hs : es.Pairwise fun a b => a.1 < b.1) :
    e ∈ insertSorted k v es ↔ e = (k, v) ∨ e ∈ es ∧ e.1 ≠ k := by
  induction es with
  | nil => simp [insertSorted]
  | cons a es ih =>
      obtain ⟨ha, hes⟩ := List.pairwise_cons.mp hs
      rw [insertSorted]
      split
      · rename_i hlt
        have hne : ∀ b ∈ a :: es, b.1 ≠ k := by
          intro b hb
          rcases List.mem_cons.mp hb with rfl | hb
          · exact hlt.ne'
          · exact (hlt.trans (ha b hb)).ne'
        rw [List.mem_cons]
        exact or_congr_right ⟨fun h => ⟨h, hne e h⟩, fun h => h.1⟩
      · split
        · rename_i heq
          have hne : ∀ b ∈ es, b.1 ≠ k := fun b hb => heq ▸ (ha b hb).ne'
          rw [List.mem_cons, List.mem_cons]
          refine or_congr_right ⟨fun h => ⟨.inr h, hne e h⟩, fun h => ?_⟩
          exact h.1.resolve_left fun he => h.2 (he ▸ heq.symm)
        · rename_i hne
          rw [List.mem_cons, List.mem_cons, ih hes]
          constructor
          · rintro (rfl | rfl | ⟨h, hk⟩)
            · exact .inr ⟨.inl rfl, Ne.symm hne⟩
            · exact .inl rfl
            · exact .inr ⟨.inr h, hk⟩
          · rintro (rfl | ⟨rfl | h, hk⟩)
            · exact .inr (.inl rfl)
            · exact .inl rfl
            · exact .inr (.inr ⟨h, hk⟩)

theorem sorted_insertSorted {k : κ} {v : ν} {es : List (κ × ν)} (hs : es.Pairwise fun a b => a.1 < b.1) :
    (insertSorted k v es).Pairwise fun a b => a.1 < b.1 := by
  induction es with
  | nil => exact List.pairwise_singleton _ _
  | cons a es ih =>
      obtain ⟨ha, hes⟩ := List.pairwise_cons.mp hs
      rw [insertSorted]
      split
      · rename_i hlt
        refine List.pairwise_cons.mpr ⟨fun b hb => ?_, hs⟩
        rcases List.mem_cons.mp hb with rfl | hb
        · exact hlt
        · exact hlt.trans (ha b hb)
      · rename_i hnlt
        split
        · rename_i heq
          exact List.pairwise_cons.mpr ⟨fun b hb => heq ▸ ha b hb, hes⟩
        · rename_i hne
          refine List.pairwise_cons.mpr ⟨fun b hb => ?_, ih hes⟩
          rcases (mem_insertSorted hes).mp hb with rfl | ⟨hb, -⟩
          · exact lt_of_le_of_ne (not_lt.mp hnlt) (Ne.symm hne)
          · exact ha b hb

namespace SortedMap

variable {m : SortedMap κ ν} {k p q : κ} {v : ν} {es : List (κ × ν)}

def empty : SortedMap κ ν := { entries := [], sorted := List.Pairwise.nil }

def insert (m : SortedMap κ ν) (k : κ) (v : ν) : SortedMap κ ν :=
  { entries := insertSorted k v m.entries, sorted := sorted_insertSorted m.sorted }

/-- The first entry that is not below the key. -/
def lowerBound (m : SortedMap κ ν) (k : κ) : Option (κ × ν) := m.entries.find? fun e => k ≤ e.1

def successor (m : SortedMap κ ν) (k : κ) : Option (κ × ν) := (m.lowerBound k).or m.entries.head?

theorem mem_insert {e : κ × ν} : e ∈ (m.insert k v).entries ↔ e = (k, v) ∨ e ∈ m.entries ∧ e.1 ≠ k :=
  mem_insertSorted m.sorted

/-! ## Maps from lists -/

def insertAll (m : SortedMap κ ν) (es : List (κ × ν)) : SortedMap κ ν := es.foldl (fun m e => m.insert e.1 e.2) m

/-- The value that the list gives the key last. -/
def lastValue (k : κ) (es : List (κ × ν)) : Option ν := (es.reverse.find? fun e => e.1 = k).map Prod.snd

theorem lastValue_concat (e : κ × ν) :
    lastValue k (es ++ [e]) = if e.1 = k then some e.2 else lastValue k es := by
  simp only [lastValue, List.reverse_append, List.reverse_singleton, List.singleton_append, List.find?_cons]
  by_cases he : e.1 = k
  · simp [he]
  · simp [he]

/-- A later insertion overwrites an earlier one. -/
theorem mem_insertAll : (k, v) ∈ (insertAll .empty es).entries ↔ lastValue k es = some v := by
  induction es using List.reverseRecOn with
  | nil => simp [insertAll, empty, lastValue]
  | append_singleton es e ih =>
      have hfold : insertAll .empty (es ++ [e]) = (insertAll .empty es).insert e.1 e.2 := by
        rw [insertAll, List.foldl_append]
        rfl
      rw [hfold, mem_insert, ih, lastValue_concat, Prod.mk.injEq]
      by_cases he : e.1 = k
      · simp [he, eq_comm]
      · simp [he, Ne.symm he]

theorem lastValue_isSome : (lastValue k es).isSome ↔ ∃ e ∈ es, e.1 = k := by
  rw [lastValue, Option.isSome_map, List.find?_isSome]
  simp

theorem lastValue_mem (h : lastValue k es = some v) : (k, v) ∈ es := by
  obtain ⟨e, he, rfl⟩ := Option.map_eq_some_iff.mp h
  have hk := List.find?_some he
  simp only [decide_eq_true_eq] at hk
  exact hk ▸ List.mem_reverse.mp (List.mem_of_find?_eq_some he)

/-- What is dropped in front of the last entry of a key, or behind it, does not matter to it. -/
theorem lastValue_filter {keep : ν → Bool} (h : lastValue k es = some v) (hv : keep v = true) :
    lastValue k (es.filter fun e => keep e.2) = some v := by
  induction es using List.reverseRecOn with
  | nil => cases h
  | append_singleton es e ih =>
      rw [lastValue_concat] at h
      rw [List.filter_append]
      by_cases he : e.1 = k
      · rw [if_pos he, Option.some.injEq] at h
        have hkeep : [e].filter (fun e => keep e.2) = [e] := by simp [h, hv]
        rw [hkeep, lastValue_concat, if_pos he, h]
      · rw [if_neg he] at h
        by_cases hkeep : keep e.2 = true
        · have hone : [e].filter (fun e => keep e.2) = [e] := by simp [hkeep]
          rw [hone, lastValue_concat, if_neg he]
          exact ih h
        · have hnone : [e].filter (fun e => keep e.2) = [] := by simp [hkeep]
          rw [hnone, List.append_nil]
          exact ih h

/-! ## The ring -/

/-- Among these keys, `p` comes next from `k` on: the smallest that is not below it, or, where all are below it, the
smallest. -/
def ComesNext (keys : κ → Prop) (k p : κ) : Prop :=
  keys p ∧ ((k ≤ p ∧ ∀ q, keys q → k ≤ q → p ≤ q) ∨ (∀ q, keys q → q < k) ∧ ∀ q, keys q → p ≤ q)

theorem ComesNext.unique {keys : κ → Prop} (hp : ComesNext keys k p) (hq : ComesNext keys k q) : p = q := by
  obtain ⟨hkp, ⟨hle, hmin⟩ | ⟨hall, hmin⟩⟩ := hp
  · obtain ⟨hkq, ⟨hle', hmin'⟩ | ⟨hall', -⟩⟩ := hq
    · exact le_antisymm (hmin q hkq hle') (hmin' p hkp hle)
    · exact absurd hle (not_le.mpr (hall' p hkp))
  · obtain ⟨hkq, ⟨hle', -⟩ | ⟨-, hmin'⟩⟩ := hq
    · exact absurd hle' (not_le.mpr (hall q hkq))
    · exact le_antisymm (hmin q hkq) (hmin' p hkp)

/-- With fewer keys the next one is the same, as long as it is there. -/
theorem ComesNext.mono {keys keys' : κ → Prop} (hsub : ∀ q, keys' q → keys q) (hp : ComesNext keys k p)
    (hmem : keys' p) : ComesNext keys' k p := by
  obtain ⟨-, ⟨hle, hmin⟩ | ⟨hall, hmin⟩⟩ := hp
  · exact ⟨hmem, .inl ⟨hle, fun q hq => hmin q (hsub q hq)⟩⟩
  · exact ⟨hmem, .inr ⟨fun q hq => hall q (hsub q hq), fun q hq => hmin q (hsub q hq)⟩⟩

def IsKey (m : SortedMap κ ν) (k : κ) : Prop := ∃ v, (k, v) ∈ m.entries

theorem find?_sorted {P : κ → Bool} {e : κ × ν} (hs : es.Pairwise fun a b => a.1 < b.1)
    (h : es.find? (fun e => P e.1) = some e) : ∀ e' ∈ es, P e'.1 = true → e.1 ≤ e'.1 := by
  obtain ⟨-, front, back, rfl, hfront⟩ := List.find?_eq_some_iff_append.mp h
  intro e' he' hP
  rcases List.mem_append.mp he' with he' | he'
  · have hno := hfront e' he'
    rw [hP] at hno
    cases hno
  · rcases List.mem_cons.mp he' with rfl | he'
    · exact le_refl _
    · exact ((List.pairwise_cons.mp (List.pairwise_append.mp hs).2.1).1 e' he').le

theorem successor_spec (h : m.successor k = some (p, v)) : (p, v) ∈ m.entries ∧ ComesNext m.IsKey k p := by
  rw [successor] at h
  cases hlower : m.lowerBound k with
  | some e =>
      rw [hlower, Option.some_or, Option.some.injEq] at h
      subst h
      have hmem := List.mem_of_find?_eq_some hlower
      have hle := List.find?_some hlower
      simp only [decide_eq_true_eq] at hle
      have hmin := find?_sorted (P := fun q => decide (k ≤ q)) m.sorted hlower
      exact ⟨hmem, ⟨v, hmem⟩, .inl ⟨hle, fun q ⟨w, hw⟩ hkq => hmin (q, w) hw (decide_eq_true hkq)⟩⟩
  | none =>
      rw [hlower, Option.none_or] at h
      have hnone := List.find?_eq_none.mp hlower
      obtain ⟨es, hes⟩ := List.head?_eq_some_iff.mp h
      have hmem : (p, v) ∈ m.entries := by rw [hes]; exact List.mem_cons_self
      refine ⟨hmem, ⟨v, hmem⟩, .inr ⟨fun q ⟨w, hw⟩ => ?_, fun q ⟨w, hw⟩ => ?_⟩⟩
      · have hno := hnone (q, w) hw
        simp only [decide_eq_true_eq, not_le] at hno
        exact hno
      · have hsorted := m.sorted
        rw [hes] at hsorted hw
        rcases List.mem_cons.mp hw with he | hw
        · cases he
          exact le_refl _
        · exact ((List.pairwise_cons.mp hsorted).1 (q, w) hw).le

theorem successor_isSome (h : m.IsKey p) (k : κ) : ∃ q w, m.successor k = some (q, w) := by
  obtain ⟨v, hv⟩ := h
  obtain ⟨e, es, hes⟩ := List.exists_cons_of_ne_nil (List.ne_nil_of_mem hv)
  rw [successor]
  cases m.lowerBound k with
  | some e => exact ⟨e.1, e.2, rfl⟩
  | none => exact ⟨e.1, e.2, by rw [hes]; rfl⟩

theorem isKey_insertAll : (insertAll .empty es).IsKey k ↔ ∃ v, lastValue k es = some v :=
  exists_congr fun _ => mem_insertAll

/-- Dropping the entries of some values leaves every key with its owner that has another one. -/
theorem successor_filter (keep : ν → Bool) (h : (insertAll .empty es).successor k = some (p, v))
    (hv : keep v = true) :
    (insertAll .empty (es.filter fun e => keep e.2)).successor k = some (p, v) := by
  obtain ⟨hmem, hnext⟩ := successor_spec h
  have hkept := lastValue_filter (mem_insertAll.mp hmem) hv
  have hmem' : (p, v) ∈ (insertAll .empty (es.filter fun e => keep e.2)).entries := mem_insertAll.mpr hkept
  obtain ⟨q, w, hq⟩ := successor_isSome ⟨v, hmem'⟩ k
  obtain ⟨hqmem, hqnext⟩ := successor_spec hq
  have hsub : ∀ q, (insertAll .empty (es.filter fun e => keep e.2)).IsKey q → (insertAll .empty es).IsKey q := by
    intro q hkey
    obtain ⟨u, hu⟩ := isKey_insertAll.mp hkey
    have hin := (List.mem_filter.mp (lastValue_mem hu)).1
    exact isKey_insertAll.mpr (Option.isSome_iff_exists.mp (lastValue_isSome.mpr ⟨_, hin, rfl⟩))
  have hpq := (hnext.mono hsub ⟨v, hmem'⟩).unique hqnext
  subst hpq
  have hvalue := (mem_insertAll.mp hqmem).symm.trans hkept
  cases hvalue
  exact hq

end SortedMap

end Lib
