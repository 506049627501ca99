import Tirpc.Common.Lemmas.Util
import Tirpc.Http.Codec
import Tirpc.Lib.Pieces

/-!
# What `SplitStrToVector` cuts

It looks for one byte of the delimiter and skips as many as the delimiter has, so it cuts at whole delimiters where
there are no other bytes of it.
-/

namespace Tirpc

open Lib StringUtil

variable {d str : Bytes}

/-- The pieces between the whole delimiters, without the empty ones. -/
def SplitsAtDelimiter (str d : Bytes) : Prop := splitStrToVector str d = some ((cutAt d str).filter (· ≠ []))

/-- Every byte of the delimiter belongs to one of its occurrences, and the text is empty or not shorter than it. -/
def OnlyWholeDelimiters (str d : Bytes) : Prop :=
  str = [] ∨ d.length ≤ str.length ∧ ∀ p ∈ cutAt d str, ∀ c ∈ p, c ∉ d

/-- The `int` of the length cuts no piece off. -/
def LengthKept (str d : Bytes) : Prop := KeepsRest d (endedPieces (cutAt d str))

/-- The loop ends: more turns than there are bytes change nothing. -/
theorem splitLoop_ends (hd : d ≠ []) {n : Nat} (k : Nat) {tmp : Bytes} (h : tmp.length ≤ n) :
    splitLoop d (n + k) tmp = splitLoop d n tmp := by
  induction n generalizing tmp with
  | zero =>
      have hnil : tmp = [] := List.eq_nil_of_length_eq_zero (Nat.le_zero.mp h)
      rw [hnil, Nat.zero_add]
      cases k <;> rfl
  | succ n ih =>
      have hpos := List.length_pos_of_ne_nil hd
      rw [Nat.succ_add, splitLoop, splitLoop]
      cases findFirstOf d tmp with
      | none => rfl
      | some i =>
          dsimp only
          rw [substr]
          split
          · rw [Option.bind_some, Option.bind_some, ih]
            simp only [List.length_take, List.length_drop]
            omega
          · rfl

/-- For every text that a `std::string` can hold, with the delimiter behind it, and every delimiter: the text is cut at
the whole delimiters, and nothing is thrown, if and only if there are no other bytes of the delimiter, the text is not
shorter than it unless it is empty, and the `int` cuts nothing off. -/
theorem splits_at_delimiter_iff (hd : d ≠ []) (hsize : str.length + d.length < 9223372036854775808) :
    SplitsAtDelimiter str d ↔ OnlyWholeDelimiters str d ∧ LengthKept str d := by
  by_cases hne : str = []
  · subst hne
    have hpieces : endedPieces (cutAt d []) = [] := by rw [cutAt_nil hd]; rfl
    refine iff_of_true ?_ ⟨.inl rfl, by rw [LengthKept, hpieces]; trivial⟩
    rw [SplitsAtDelimiter, cutAt_nil hd]
    rfl
  · have honly : SplitsAtDelimiter str d → OnlyWholeDelimiters str d := by
      intro h
      rw [SplitsAtDelimiter, splitStrToVector, if_neg (by simp [hne, hd])] at h
      split at h
      · cases h
      · rename_i hlen
        refine .inr ⟨Nat.not_lt.mp hlen, fun p hp c hc => ?_⟩
        have hpne : p ≠ [] := List.ne_nil_of_mem hc
        exact (splitLoop_clean h p (List.mem_filter.mpr ⟨hp, decide_eq_true hpne⟩)).2 c hc
    have hkept : OnlyWholeDelimiters str d → (SplitsAtDelimiter str d ↔ LengthKept str d) := by
      intro h
      obtain ⟨hlen, hclean⟩ := h.resolve_left hne
      have hjoin := intercalate_cutAt d str
      have hvec := splitStrToVector_pieces hd (cutAt_ne_nil d str) hclean (by rw [hjoin]; exact hlen)
      have hended := endedPieces_length_le (d := d) (cutAt_ne_nil d str)
      rw [hjoin] at hvec hended
      rw [SplitsAtDelimiter, hvec, ← endedPieces_filter, LengthKept]
      exact splitLoop_pieces_iff hd (fun p hp => hclean p (mem_of_mem_endedPieces hp)) (pieces_length_le hd _)
        (by omega)
    exact ⟨fun h => ⟨honly h, (hkept (honly h)).mp h⟩, fun h => (hkept h.1).mpr h.2⟩

theorem splits_at_delimiter_lines : SplitsAtDelimiter (text "a:b\r\nc:d") g_crlf ↔
    OnlyWholeDelimiters (text "a:b\r\nc:d") g_crlf ∧ LengthKept (text "a:b\r\nc:d") g_crlf :=
  splits_at_delimiter_iff (by decide) (by decide)

/-! ## A lone line feed at the end of a header block -/

/-- The loop finds the line feed and skips two bytes, and then the line feed that is left. The exception ends
`Decode`. -/
theorem lone_line_feed_throws : splitStrToVector (text "a:b\n") g_crlf = none ∧
    HttpCodeC.parseHttpRequestHeader {} (text "a:b\n") = none ∧ ¬SplitsAtDelimiter (text "a:b\n") g_crlf := by
  have hthrows : splitStrToVector (text "a:b\n") g_crlf = none := by decide
  refine ⟨hthrows, by decide, fun h => ?_⟩
  rw [SplitsAtDelimiter, hthrows] at h
  cases h

end Tirpc
