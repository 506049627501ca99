import Mathlib.Data.List.Rotate

/-!
# Going round a list
-/

namespace Lib

variable {A : Type*} {l xs : List A} {i k : Nat} {a : A}

/-- `xs` goes round `l`, from place `i` on. -/
def GoesRound (l : List A) (i : Nat) (xs : List A) : Prop := ∀ k < xs.length, xs[k]? = l[(i + k) % l.length]?

theorem goesRound_nil : GoesRound l i [] := fun k hk => absurd hk (Nat.not_lt_zero k)

theorem GoesRound.concat (h : GoesRound l i xs) (ha : l[(i + xs.length) % l.length]? = some a) :
    GoesRound l i (xs ++ [a]) := by
  intro k hk
  rw [List.length_append, List.length_singleton, Nat.lt_succ_iff_lt_or_eq] at hk
  rcases hk with hk | rfl
  · rw [List.getElem?_append_left hk, h k hk]
  · rw [List.getElem?_concat_length, ha]

/-- As many in a row as `l` has are `l`, rotated. -/
theorem GoesRound.window (h : GoesRound l i xs) (hk : k + l.length ≤ xs.length) :
    (xs.drop k).take l.length = l.rotate (i + k) := by
  refine List.ext_getElem? fun j => ?_
  by_cases hj : j < l.length
  · rw [List.getElem?_take_of_lt hj, List.getElem?_drop, h _ (by omega), List.getElem?_rotate hj]
    congr 2
    omega
  · have hleft : ((xs.drop k).take l.length).length ≤ j := by simp; omega
    have hright : (l.rotate (i + k)).length ≤ j := by rw [List.length_rotate]; omega
    rw [List.getElem?_eq_none hleft, List.getElem?_eq_none hright]

theorem GoesRound.window_perm (h : GoesRound l i xs) (hk : k + l.length ≤ xs.length) :
    ((xs.drop k).take l.length).Perm l := by
  rw [h.window hk]
  exact List.rotate_perm l (i + k)

end Lib
