import Tirpc.Lib.Search

/-!
# Cutting a text at a delimiter

At the occurrences of the whole delimiter, from left to right and without overlaps.
-/

namespace Lib

variable {d s : Bytes} {ps : List Bytes} {i : Nat}

/-- All the pieces, the empty ones too. -/
def cutAt (d s : Bytes) : List Bytes :=
  if d = [] then [s]
  else
    match _h : find d s with
    | none => [s]
    | some i => s.take i :: cutAt d (s.drop (i + d.length))
termination_by s.length
decreasing_by
  have hle := find_le ‹find d s = some _›
  have hpos := List.length_pos_of_ne_nil ‹d ≠ []›
  rw [List.length_drop]
  omega

theorem cutAt_none (h : find d s = none) : cutAt d s = [s] := by
  rw [cutAt]
  split
  · rfl
  · split
    · rfl
    · rename_i i hi
      cases h.symm.trans hi

theorem cutAt_some (hd : d ≠ []) (h : find d s = some i) :
    cutAt d s = s.take i :: cutAt d (s.drop (i + d.length)) := by
  rw [cutAt, if_neg hd]
  split
  · rename_i hnone
    cases hnone.symm.trans h
  · rename_i j hj
    cases hj.symm.trans h
    rfl

theorem cutAt_ne_nil (d s : Bytes) : cutAt d s ≠ [] := by
  rw [cutAt]
  split
  · exact List.cons_ne_nil _ _
  · split <;> exact List.cons_ne_nil _ _

theorem find_prefix (h : find d s = some i) : d <+: s.drop i := by
  induction s generalizing i with
  | nil =>
      rw [find] at h
      split at h
      · rename_i hd
        rw [hd]
        exact List.nil_prefix
      · cases h
  | cons c s ih =>
      rw [find] at h
      split at h
      · rename_i hp
        cases h
        exact List.isPrefixOf_iff_prefix.mp hp
      · obtain ⟨j, hj, rfl⟩ := Option.map_eq_some_iff.mp h
        exact ih hj

theorem find_split (h : find d s = some i) : s = s.take i ++ (d ++ s.drop (i + d.length)) := by
  obtain ⟨t, ht⟩ := find_prefix h
  have hdrop : s.drop (i + d.length) = t := by rw [← List.drop_drop, ← ht, List.drop_left]
  rw [hdrop, ht, List.take_append_drop]

/-- The pieces with the delimiter between them are the text. -/
theorem intercalate_cutAt (d s : Bytes) : d.intercalate (cutAt d s) = s := by
  induction s using cutAt.induct d with
  | case1 s hd => rw [cutAt, if_pos hd, List.intercalate_singleton]
  | case2 s hd hnone => rw [cutAt_none hnone, List.intercalate_singleton]
  | case3 s hd i hi ih =>
      obtain ⟨q, qs, hq⟩ := List.exists_cons_of_ne_nil (cutAt_ne_nil d (s.drop (i + d.length)))
      rw [cutAt_some hd hi, hq, List.intercalate_cons_cons, ← hq, ih, List.append_assoc, ← find_split hi]

theorem cutAt_nil (hd : d ≠ []) : cutAt d [] = [[]] := cutAt_none (by rw [find, if_neg hd])

/-- Pieces without the first byte of the delimiter, each with the delimiter behind it. -/
theorem cutAt_pieces {a : UInt8} {t : Bytes} (hps : ∀ p ∈ ps, a ∉ p) :
    cutAt (a :: t) (ps.flatMap (· ++ a :: t)) = ps ++ [[]] := by
  induction ps with
  | nil => exact cutAt_nil (List.cons_ne_nil a t)
  | cons p ps ih =>
      have hrest := ih fun q hq => hps q (List.mem_cons_of_mem p hq)
      have htext : (p :: ps).flatMap (· ++ a :: t) = p ++ (a :: t ++ ps.flatMap (· ++ a :: t)) := by simp
      have hfind : find (a :: t) (p ++ (a :: t ++ ps.flatMap (· ++ a :: t))) = some p.length := by
        rw [find_skip (hps p List.mem_cons_self), find_here _ _ (List.cons_ne_nil a t), Option.map_some, Nat.zero_add]
      rw [htext, cutAt_some (List.cons_ne_nil a t) hfind, List.take_left, List.drop_length_add_append, List.drop_left,
        hrest, List.cons_append]

end Lib
