import Tirpc.Common.Lemmas.Md5

/-!
# The digest of the MD5 class

The class fills a message up as it should be where there is room for the byte `0x80`: behind a message that is eight
bytes short of whole blocks it writes the length at once.
-/

namespace Tirpc

open Lib Md5 MD5

variable {s : Bytes}

/-- The class always gets through its data. -/
theorem stateOf_eq (s : Bytes) : ∃ data, padding s = some data ∧ data.length % 64 = 0 ∧
    stateOf s = some (compressAll .start data) := by
  obtain ⟨fill, hfill, hpad⟩ := padding_eq s
  have hlen : (s ++ (fill ++ leBytes 8 (wrap32 (8 * s.length) % 18446744073709551616).toNat)).length % 64 = 0 := by
    have hfull := hfill.length
    rw [List.length_append, List.length_append, leBytes_length]
    omega
  refine ⟨_, hpad, hlen, ?_⟩
  simp only [stateOf, resetVector, string2BitStream, List.nil_append, hpad, Option.bind_some, compute_eq hlen]
  rfl

/-- For every message of fewer than 2^28 bytes: the loop over the data ends, the data are filled up as they should be if
and only if the length is neither eight bytes short of whole blocks nor so large that the number of bits overflows, and
the text is then the digest. -/
theorem md5_as_specified (hlen : s.length < 268435456) :
    ∃ data, padding s = some data ∧ Terminates (computeTurn data) (0, resetVector.1) ∧
      (data = padded s ↔ PadsRight s.length) ∧
      (PadsRight s.length → getResultString s = some (hexDigest s)) := by
  obtain ⟨data, hpad, hblocks, hstate⟩ := stateOf_eq s
  have hiff : data = padded s ↔ PadsRight s.length := by
    rw [← padding_eq_padded_iff hlen, hpad, Option.some.injEq]
  refine ⟨data, hpad, ⟨_, _, computeLoop_ends hblocks⟩, hiff, fun hright => ?_⟩
  rw [getResultString, hstate, Option.map_some, genResultString_eq, hiff.mpr hright]
  rfl

/-- A message of one block. -/
theorem md5_as_specified_abc : ∃ data, padding (text "abc") = some data ∧
    Terminates (computeTurn data) (0, resetVector.1) ∧ (data = padded (text "abc") ↔ PadsRight 3) ∧
      (PadsRight 3 → getResultString (text "abc") = some (hexDigest (text "abc"))) :=
  md5_as_specified (s := text "abc") (by decide)

/-- Behind 56 bytes there is no byte `0x80`. -/
theorem md5_of_56_bytes : ¬∀ s : Bytes, s.length < 268435456 → getResultString s = some (hexDigest s) := by
  intro h
  have hwrong : getResultString (List.replicate 56 97) ≠ some (hexDigest (List.replicate 56 97)) := by decide +kernel
  exact hwrong (h _ (by rw [List.length_replicate]; decide))

end Tirpc
