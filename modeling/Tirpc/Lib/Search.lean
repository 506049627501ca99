import Tirpc.Lib.Text

/-!
# What a search finds

Searches in a text whose parts are known, the first blank line behind some lines, and the entries of a map.
-/

namespace Lib

variable {a b c : UInt8} {p s t set : Bytes}

/-! ## Positions -/

theorem find_skip (h : a ∉ s) (t : Bytes) : find (a :: p) (s ++ t) = (find (a :: p) t).map (· + s.length) := by
  induction s with
  | nil =>
      rw [List.nil_append]
      cases find (a :: p) t <;> rfl
  | cons c s ih =>
      obtain ⟨hne, hs⟩ := not_or.mp (mt List.mem_cons.mpr h)
      have hno : ¬(a :: p).isPrefixOf (c :: (s ++ t)) := by
        intro hp
        obtain ⟨rest, he⟩ := List.isPrefixOf_iff_prefix.mp hp
        exact hne (List.cons.inj he).1
      rw [List.cons_append, find, if_neg hno, ih hs, Option.map_map]
      rfl

theorem find_here (p t : Bytes) (hp : p ≠ []) : find p (p ++ t) = some 0 := by
  obtain ⟨c, cs, rfl⟩ := List.exists_cons_of_ne_nil hp
  rw [List.cons_append, find, if_pos]
  exact List.isPrefixOf_iff_prefix.mpr ((c :: cs).prefix_append t)

theorem findFirstOf_skip (h : ∀ c ∈ s, c ∉ set) (hc : c ∈ set) (t : Bytes) :
    findFirstOf set (s ++ c :: t) = some s.length := by
  induction s with
  | nil => simp [findFirstOf, List.findIdx?_cons, hc]
  | cons d s ih =>
      have hd : d ∉ set := h d List.mem_cons_self
      have hs := ih fun e he => h e (List.mem_cons_of_mem d he)
      simp only [findFirstOf] at hs ⊢
      simp [List.findIdx?_cons, hd, hs]

theorem findLastOf_skip (h : ∀ c ∈ t, c ∉ set) (hc : c ∈ set) (s : Bytes) :
    findLastOf set (s ++ c :: t) = some s.length := by
  have hrev : ∀ e ∈ t.reverse, e ∉ set := fun e he => h e (List.mem_reverse.mp he)
  have hfirst := findFirstOf_skip hrev hc s.reverse
  rw [findFirstOf, List.length_reverse] at hfirst
  rw [findLastOf, List.reverse_append, List.reverse_cons, List.append_assoc, List.singleton_append, hfirst]
  simp only [Option.map_some, List.length_append, List.length_cons, Option.some.injEq]
  omega

theorem findFirstOf_lt {i : Nat} (h : findFirstOf set s = some i) : i < s.length :=
  (List.findIdx?_eq_some_iff_getElem.mp h).1

/-! ## Lines -/

/-- The first blank line behind some lines. Only the first of them may be empty. -/
theorem find_blank_line (hab : a ≠ b) (x : Bytes) {l : Bytes} {ls : List Bytes} (hl : a ∉ l)
    (hls : ∀ l ∈ ls, l ≠ [] ∧ a ∉ l) :
    find [a, b, a, b] ([a, b].intercalate (l :: ls) ++ ([a, b, a, b] ++ x)) =
      some ([a, b].intercalate (l :: ls)).length := by
  induction ls generalizing l with
  | nil =>
      rw [List.intercalate_singleton, find_skip hl, find_here _ _ (by simp), Option.map_some, Nat.zero_add]
  | cons l' ls ih =>
      obtain ⟨hne, hl'⟩ := hls l' List.mem_cons_self
      obtain ⟨c, cs, rfl⟩ := List.exists_cons_of_ne_nil hne
      have hac : a ≠ c := fun he => hl' (he ▸ List.mem_cons_self)
      have hrest := ih hl' fun l hl => hls l (List.mem_cons_of_mem _ hl)
      have hhead : ∃ y, [a, b].intercalate ((c :: cs) :: ls) ++ ([a, b, a, b] ++ x) = c :: y := by
        cases ls with
        | nil => exact ⟨_, by rw [List.intercalate_singleton, List.cons_append]⟩
        | cons l'' ls => exact ⟨_, by rw [List.intercalate_cons_cons]; rfl⟩
      obtain ⟨y, hy⟩ := hhead
      rw [List.intercalate_cons_cons, List.append_assoc, List.append_assoc, find_skip hl, List.length_append,
        List.length_append]
      rw [hy] at hrest ⊢
      have hskip : find [a, b, a, b] ([a, b] ++ c :: y) = (find [a, b, a, b] (c :: y)).map (· + 2) := by
        have hfirst : ¬[a, b, a, b].isPrefixOf (a :: b :: c :: y) = true := by simp [List.isPrefixOf, hac]
        have hsecond : ¬[a, b, a, b].isPrefixOf (b :: c :: y) = true := by simp [List.isPrefixOf, hab]
        rw [List.cons_append, List.cons_append, List.nil_append, find, if_neg hfirst, find, if_neg hsecond,
          Option.map_map]
        rfl
      rw [hskip, hrest]
      simp only [Option.map_some, List.length_cons, List.length_nil, Option.some.injEq]
      omega

/-! ## Entries -/

theorem find?_insertEntry (k v k' : Bytes) (es : List (Bytes × Bytes)) :
    ((insertEntry k v es).find? fun e => e.1 = k').map Prod.snd =
      if k = k' then some v else (es.find? fun e => e.1 = k').map Prod.snd := by
  induction es with
  | nil =>
      by_cases hk : k = k'
      · simp [insertEntry, hk]
      · simp [insertEntry, hk]
  | cons e es ih =>
      rw [insertEntry]
      split
      · by_cases hk : k = k'
        · simp [hk]
        · simp [List.find?_cons, hk]
      · split
        · rename_i he
          by_cases hk : k = k'
          · simp [hk]
          · simp [hk, ← he]
        · rename_i he
          by_cases hek : e.1 = k'
          · have hk : k ≠ k' := fun hk => he (hk.trans hek.symm)
            simp [hek, hk]
          · simpa [List.find?_cons, hek] using ih

namespace StringMap

variable {m : StringMap} {k k' v v' : Bytes}

theorem get?_insert : (m.insert k v).get? k' = if k = k' then some v else m.get? k' :=
  find?_insertEntry k v k' m.entries

theorem index_value : (m.index k).1 = (m.get? k).getD [] := by
  rw [StringMap.index]
  cases m.get? k <;> rfl

theorem get?_index (h : m.get? k' = some v) : (m.index k).2.get? k' = some v := by
  rw [StringMap.index]
  cases hk : m.get? k with
  | some v' => exact h
  | none =>
      have hne : k ≠ k' := by
        rintro rfl
        cases hk.symm.trans h
      simp only [get?_insert, if_neg hne, h]

theorem get?_index_empty : (StringMap.empty.index k).2.get? k' = if k = k' then some [] else none := by
  have hnone : ∀ k, StringMap.empty.get? k = none := fun _ => rfl
  simp only [StringMap.index, hnone, get?_insert]

end StringMap

end Lib
