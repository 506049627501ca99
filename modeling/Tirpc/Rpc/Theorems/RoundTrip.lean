import Tirpc.Rpc.Lemmas.Stream

/-!
# What is encoded is decoded

A package is stored part by part into a block of its length. In front of any suffix it is decoded to
the data it was made from, and the suffix is left.
-/

namespace Tirpc

open Lib

variable {d : TinyPbStruct}

/-- The stores fill a block of the length of the package, whatever was in it, and keep to it. -/
theorem encodeStores_fill (pkLen : Int) {block : Bytes} (h : (block.length : Int) = packageLen d) :
    applyStores block (encodeStores d pkLen) = some (packageBytes d pkLen) ∧
      ∀ st ∈ encodeStores d pkLen, 0 ≤ st.1 ∧ st.1 + st.2.length ≤ block.length := by
  have hparts : ∀ parts : List Bytes, encodeStores d pkLen = storesFrom 0 parts →
      parts.flatten = packageBytes d pkLen → block.length = parts.flatten.length →
      applyStores block (encodeStores d pkLen) = some (packageBytes d pkLen) ∧
        ∀ st ∈ encodeStores d pkLen, 0 ≤ st.1 ∧ st.1 + st.2.length ≤ block.length := by
    intro parts hstores hflat hlen
    rw [hstores, ← hflat]
    refine ⟨applyStores_append [] block hlen, fun st hst => ?_⟩
    have hwithin := storesFrom_within hst
    omega
  refine hparts _ rfl ?_ ?_
  · simp only [packageBytes, List.flatten_cons, List.flatten_nil, List.append_nil, List.append_assoc]
  · simp only [packageLen] at h
    simp only [List.flatten_cons, List.flatten_nil, List.length_append, List.length_cons, List.length_nil,
      netBytes32_length]
    omega

/-- Data within the limits of the decoder are encoded, by stores inside a block of `pk_len_` bytes; and
from a buffer that holds the package and any suffix, they are decoded again and the suffix is left. -/
theorem tinyPb_round_trip (hd : Sendable d) (gen : Bytes) :
    ∃ re d', encodePbData gen d = some (some re, d') ∧ d'.encodeSucc = true ∧ d'.pkLen = re.length ∧
      (∀ block : Bytes, (block.length : Int) = d'.pkLen →
        applyStores block (encodeStores d d'.pkLen) = some re ∧
          ∀ st ∈ encodeStores d d'.pkLen, 0 ≤ st.1 ∧ st.1 + st.2.length ≤ d'.pkLen) ∧
      ∀ (b : TcpBuffer) (t : Bytes) (data : TinyPbStruct), b.Holds (re ++ t) →
        ∃ b' r, (decode b data).res = some (b', r) ∧ b'.Holds t ∧ r.decodeSucc = true ∧
          r.msgSeq = d.msgSeq ∧ r.serviceFullName = d.serviceFullName ∧ r.errCode = d.errCode ∧
          r.errInfo = d.errInfo ∧ r.pbData = d.pbData ∧ r.pkLen = re.length := by
  have hlen := package_length d
  refine ⟨package d, encoded d, encodePbData_sendable gen hd, rfl, hlen.symm, ?_, ?_⟩
  · intro block hblock
    have hfill := encodeStores_fill (packageLen d) hblock
    rw [show (block.length : Int) = packageLen d from hblock] at hfill
    exact hfill
  · intro b t data hb
    obtain ⟨b', hdec, hb', -⟩ : ∃ b', (decode b data).res = some (b', received data d) ∧ b'.Holds t ∧
        b'.getSize = b.getSize := decode_package hd hb
    exact ⟨b', _, hdec, hb', rfl, rfl, rfl, rfl, rfl, rfl, hlen.symm⟩

theorem tinyPb_round_trip_ping : ∃ re d', encodePbData [] ping = some (some re, d') ∧ d'.pkLen = re.length := by
  have hsend : Sendable ping := ⟨by decide, by decide, by decide, ⟨by decide, by decide⟩, by decide⟩
  obtain ⟨re, d', henc, -, hlen, -⟩ := tinyPb_round_trip hsend []
  exact ⟨re, d', henc, hlen⟩

end Tirpc
