import Tirpc.Common.Theorems.Md5
import Tirpc.Tcp.Theorems.Ring

/-!
# The bytes of a digest

`genDigest` pushes the bytes of a word as long as it is not zero, so a word whose highest byte is zero comes out short,
and all that stands behind it moves up.
-/

namespace Tirpc

open Lib Md5 MD5

/-- The bytes of the digest are sixteen, the text is their rendering, and the ring can read four numbers in them. -/
def OutputsAgree (s : Bytes) : Prop :=
  ∃ bytes result, MD5.digest s = some bytes ∧ getResultString s = some result ∧ bytes.length = 16 ∧ hex bytes = result ∧
    ∀ h < 4, (ConsistentHashSelector.hash bytes h).isSome

/-- No word of the state has a zero for its highest byte. -/
def FullWords (v : Registers) : Prop := ∀ w ∈ v.words, 16777216 ≤ w.toNat

theorem pushed_length_le (ws : List UInt32) : (ws.flatMap (pushBytes 4)).length ≤ 4 * ws.length := by
  induction ws with
  | nil => exact Nat.le_refl 0
  | cons w ws ih =>
      have hw := pushBytes_length_le 4 w
      rw [List.flatMap_cons, List.length_append, List.length_cons]
      omega

theorem pushed_length_iff {ws : List UInt32} :
    (ws.flatMap (pushBytes 4)).length = 4 * ws.length ↔ ∀ w ∈ ws, 16777216 ≤ w.toNat := by
  induction ws with
  | nil => exact iff_of_true rfl fun w hw => absurd hw List.not_mem_nil
  | cons w ws ih =>
      have hw := pushBytes_length_le 4 w
      have hws := pushed_length_le ws
      rw [List.forall_mem_cons, ← ih, List.flatMap_cons, List.length_append, List.length_cons]
      constructor
      · intro h
        have hfull : (pushBytes 4 w).length = 4 := by omega
        exact ⟨le_of_pushBytes_length (n := 3) hfull, by omega⟩
      · rintro ⟨hfull, hrest⟩
        rw [pushBytes_eq (n := 3) hfull, leBytes_length]
        omega

theorem genDigest_length_iff {v : Registers} : (genDigest v).length = 16 ↔ FullWords v := pushed_length_iff

theorem genDigest_eq {v : Registers} (h : FullWords v) : hex (genDigest v) = genResultString v := by
  rw [genResultString_eq, genDigest]
  exact congrArg hex (List.flatMap_congr fun w hw => pushBytes_eq (n := 3) (h w hw))

/-- For every string: the two outputs agree, and every number of the digest can be read, if and only if no word of the
state that is left by the last block has a zero for its highest byte. -/
theorem outputs_agree_iff (s : Bytes) : ∃ v, stateOf s = some v ∧ (OutputsAgree s ↔ FullWords v) := by
  obtain ⟨data, -, -, hstate⟩ := stateOf_eq s
  refine ⟨_, hstate, ⟨fun h => ?_, fun h => ?_⟩⟩
  · obtain ⟨bytes, -, hdigest, -, hlen, -, -⟩ := h
    rw [MD5.digest, hstate, Option.map_some, Option.some.injEq] at hdigest
    exact genDigest_length_iff.mp (hdigest ▸ hlen)
  · have hlen := genDigest_length_iff.mpr h
    refine ⟨_, _, by rw [MD5.digest, hstate]; rfl, by rw [getResultString, hstate]; rfl, hlen, genDigest_eq h, ?_⟩
    intro n hn
    obtain ⟨p, hp⟩ := hash_isSome hlen hn
    rw [hp]
    rfl

/-- A virtual node of the address `127.0.0.1:8080`: the digest has fifteen bytes, and the last number of it is read
behind its end. -/
theorem short_digest : ¬OutputsAgree (text "127.0.0.1:808014") ∧
    ∃ bytes, MD5.digest (text "127.0.0.1:808014") = some bytes ∧ bytes.length = 15 ∧
      ConsistentHashSelector.hash bytes 3 = none := by
  obtain ⟨bytes, hbytes, hlen, hhash⟩ : ∃ bytes, MD5.digest (text "127.0.0.1:808014") = some bytes ∧ bytes.length = 15 ∧
      ConsistentHashSelector.hash bytes 3 = none := by
    have hrun : ((MD5.digest (text "127.0.0.1:808014")).map fun bytes =>
        (bytes.length, ConsistentHashSelector.hash bytes 3)) = some (15, none) := by decide +kernel
    obtain ⟨bytes, hbytes, he⟩ := Option.map_eq_some_iff.mp hrun
    exact ⟨bytes, hbytes, congrArg Prod.fst he, congrArg Prod.snd he⟩
  refine ⟨?_, bytes, hbytes, hlen, hhash⟩
  rintro ⟨bytes', -, hbytes', -, hlen', -, -⟩
  cases hbytes.symm.trans hbytes'
  exact absurd (hlen.symm.trans hlen') (by decide)

end Tirpc
