import Mathlib.Data.List.TakeWhile
import Tirpc.Rpc.Lemmas.Stream

/-!
# What stands in a frame that is accepted

Stage by stage, from the result of `Decode` back to the bytes that it has read.
-/

namespace Tirpc

open Lib

/-! ## Bytes at a position -/

def StandsAt (tmp : Bytes) (x : Int) (s : Bytes) : Prop := readRange tmp x s.length = some s

variable {tmp s t : Bytes} {x v : Int} {f : Frame} {data d : TinyPbStruct}

theorem StandsAt.bounds (h : StandsAt tmp x s) : 0 ≤ x ∧ x + s.length ≤ tmp.length := by
  have hread := readRange_eq_some h
  omega

theorem StandsAt.of_read {len : Int} (h : readRange tmp x len = some s) :
    StandsAt tmp x s ∧ (s.length : Int) = len := by
  have hlen := readRange_length h
  exact ⟨by rw [StandsAt, hlen]; exact h, hlen⟩

theorem StandsAt.append {y : Int} (hs : StandsAt tmp x s) (ht : StandsAt tmp y t) (hy : y = x + s.length) :
    StandsAt tmp x (s ++ t) := by
  subst hy
  obtain ⟨h0, -, hle, hs⟩ := readRange_eq_some hs
  obtain ⟨-, -, hle', ht⟩ := readRange_eq_some ht
  rw [StandsAt, readRange_some h0 (Int.natCast_nonneg _) (by rw [List.length_append]; omega)]
  rw [Int.toNat_add h0 (Int.natCast_nonneg _), Int.toNat_natCast, Int.toNat_natCast] at ht
  rw [Int.toNat_natCast] at hs ⊢
  rw [List.length_append, List.take_add, List.drop_drop, ← hs, ← ht]

theorem netBytes32_beInt32 (h : s.length = 4) : netBytes32 (beInt32 s) = s := by
  match s, h with
  | [a, b, c, e], _ =>
      have ha := UInt8.toNat_lt a
      have hb := UInt8.toNat_lt b
      have hc := UInt8.toNat_lt c
      have he := UInt8.toNat_lt e
      have hn : (beInt32 [a, b, c, e] % 4294967296).toNat =
          ((a.toNat * 256 + b.toNat) * 256 + c.toNat) * 256 + e.toNat := by
        simp only [beInt32, beNat, List.foldl_cons, List.foldl_nil, wrap32]
        omega
      simp only [netBytes32, hn, List.cons.injEq, and_true, ← UInt8.toNat_inj, UInt8.toNat_ofNat']
      omega

theorem standsAt_word (h : wordAt tmp x = some v) : StandsAt tmp x (netBytes32 v) := by
  obtain ⟨s, hs, rfl⟩ := Option.map_eq_some_iff.mp h
  have hlen := readRange_length hs
  rw [netBytes32_beInt32 (by omega)]
  exact (StandsAt.of_read hs).1

theorem standsAt_byte {c : UInt8} (h : byteAt tmp x = some c) : StandsAt tmp x [c] := by
  obtain ⟨s, hs, hc⟩ := Option.bind_eq_some_iff.mp h
  have hlen := readRange_length hs
  have hone : s = [c] := by
    obtain ⟨a, ha⟩ := List.length_eq_one_iff.mp (show s.length = 1 by omega)
    rw [ha] at hc ⊢
    cases hc
    rfl
  exact hone ▸ (StandsAt.of_read hs).1

/-! ## Fields -/

/-- What is left of a field behind its trip through the array. -/
def cut (s : Bytes) : Bytes := s.takeWhile (· ≠ 0)

theorem cut_eq_self (h : (0 : UInt8) ∉ s) : cut s = s := by
  rw [cut, List.takeWhile_eq_self_iff]
  exact fun c hc => decide_eq_true fun he => h (he ▸ hc)

theorem cut_length_eq (h : (cut s).length = s.length) : (0 : UInt8) ∉ s := by
  intro hzero
  have hlt : (cut s).length < s.length := takeWhile_length_lt hzero
  omega

theorem takeWhile_zeros (s : Bytes) (n : Nat) : (s ++ List.replicate n 0).takeWhile (· ≠ 0) = cut s := by
  induction s with
  | nil => cases n <;> rfl
  | cons c s ih =>
      by_cases hc : c = 0
      · simp [cut, hc]
      · simpa [cut, hc] using ih

theorem copyField_res {cap : Nat} {len : Int} {r : Bytes} (h : (copyField cap tmp x len).res = some r) :
    ∃ s, StandsAt tmp x s ∧ (s.length : Int) = len ∧ len ≤ cap ∧ r = cut s := by
  rw [copyField, Traced.res_access] at h
  split at h
  · rename_i hcap
    obtain ⟨s, hs, hr⟩ := Option.bind_eq_some_iff.mp h
    obtain ⟨hstands, hlen⟩ := StandsAt.of_read hs
    refine ⟨s, hstands, hlen, hcap, ?_⟩
    rw [cString] at hr
    split at hr
    · cases hr
      exact takeWhile_zeros s _
    · cases hr
  · cases h

/-! ## Stages -/

section Stages

variable (htmp : tmp.length < 2147483648) (hfresh : data.decodeSucc = false) (hs : d.decodeSucc = true)

include hfresh hs

theorem not_dropped : (pure data : Traced Access TinyPbStruct).res ≠ some d := by
  intro h
  cases h
  rw [hfresh] at hs
  cases hs

theorem parsePbData_res (h : (parsePbData tmp f data x).res = some d) :
    x < f.stop ∧ ∃ pb, StandsAt tmp x pb ∧
      (pb.length : Int) = wrap32 (data.pkLen - data.serviceNameLen - data.msgReqLen - data.errInfoLen - 26) ∧
      d = { data with pbData := pb, decodeSucc := true } := by
  rw [parsePbData] at h
  split at h
  · exact absurd h (not_dropped hfresh hs)
  · rename_i hlt
    rw [Traced.res_bind] at h
    obtain ⟨pb, hpb, h⟩ := Option.bind_eq_some_iff.mp h
    rw [buildString, Traced.res_access] at hpb
    obtain ⟨hstands, hlen⟩ := StandsAt.of_read hpb
    cases h
    exact ⟨by omega, pb, hstands, hlen, rfl⟩

include htmp

theorem parseErrInfo_res (h : (parseErrInfo tmp f data x).res = some d) :
    ∃ err pb, wordAt tmp x = some err.length ∧ err.length ≤ 512 ∧ StandsAt tmp (x + 4) err ∧
      StandsAt tmp (x + 4 + err.length) pb ∧ x + 4 + err.length < f.stop ∧
      (pb.length : Int) = wrap32 (data.pkLen - data.serviceNameLen - data.msgReqLen - err.length - 26) ∧
      d = { data with errInfoLen := err.length, errInfo := cut err, pbData := pb, decodeSucc := true } := by
  rw [parseErrInfo] at h
  split at h
  · exact absurd h (not_dropped hfresh hs)
  · rw [Traced.res_bind] at h
    obtain ⟨k, hk, h⟩ := Option.bind_eq_some_iff.mp h
    rw [getInt32FromNetByte, Traced.res_access] at hk
    have hbounds := wordAt_bounds hk
    dsimp only at h
    rw [wrap32_eq (x := x + 4) ⟨by omega, by omega⟩, Traced.res_bind] at h
    obtain ⟨errInfo, herr, h⟩ := Option.bind_eq_some_iff.mp h
    obtain ⟨err, hstands, rfl, hcap, rfl⟩ := copyField_res herr
    have hin := hstands.bounds
    rw [wrap32_eq (x := x + 4 + err.length) ⟨by omega, by omega⟩] at h
    obtain ⟨hlt, pb, hpb, hlen, rfl⟩ := parsePbData_res (by exact hfresh) hs h
    exact ⟨err, pb, hk, by omega, hstands, hpb, hlt, hlen, rfl⟩

theorem parseServiceName_res (h : (parseServiceName tmp f data x).res = some d) :
    ∃ name err pb errCode, wordAt tmp x = some name.length ∧ name.length ≤ 512 ∧ StandsAt tmp (x + 4) name ∧
      wordAt tmp (x + 4 + name.length) = some errCode ∧
      wordAt tmp (x + 8 + name.length) = some err.length ∧ err.length ≤ 512 ∧
      StandsAt tmp (x + 12 + name.length) err ∧ StandsAt tmp (x + 12 + name.length + err.length) pb ∧
      x + 12 + name.length + err.length < f.stop ∧
      (pb.length : Int) = wrap32 (data.pkLen - name.length - data.msgReqLen - err.length - 26) ∧
      d = { data with
        serviceNameLen := name.length
        serviceFullName := cut name
        errCode := errCode
        errInfoLen := err.length
        errInfo := cut err
        pbData := pb
        decodeSucc := true } := by
  rw [parseServiceName] at h
  split at h
  · exact absurd h (not_dropped hfresh hs)
  · dsimp only at h
    split at h
    · exact absurd h (not_dropped hfresh hs)
    · rw [Traced.res_bind] at h
      obtain ⟨n, hn, h⟩ := Option.bind_eq_some_iff.mp h
      rw [getInt32FromNetByte, Traced.res_access] at hn
      have hbounds := wordAt_bounds hn
      split at h
      · exact absurd h (not_dropped (by exact hfresh) hs)
      · rw [wrap32_eq (x := x + 4) ⟨by omega, by omega⟩, Traced.res_bind] at h
        obtain ⟨serviceFullName, hname, h⟩ := Option.bind_eq_some_iff.mp h
        obtain ⟨name, hstands, rfl, hcap, rfl⟩ := copyField_res hname
        have hin := hstands.bounds
        rw [wrap32_eq (x := x + 4 + name.length) ⟨by omega, by omega⟩, Traced.res_bind] at h
        obtain ⟨errCode, hcode, h⟩ := Option.bind_eq_some_iff.mp h
        rw [getInt32FromNetByte, Traced.res_access] at hcode
        have hcodeIn := wordAt_bounds hcode
        rw [wrap32_eq (x := x + 4 + name.length + 4) ⟨by omega, by omega⟩,
          show x + 4 + name.length + 4 = x + 8 + name.length by omega] at h
        obtain ⟨err, pb, hk, hcap', herr, hpb, hlt, hlen, rfl⟩ := parseErrInfo_res htmp (by exact hfresh) hs h
        rw [show x + 8 + name.length + 4 = x + 12 + name.length by omega] at herr hpb hlt
        exact ⟨name, err, pb, errCode, hn, by omega, hstands, hcode, hk, hcap', herr, hpb, hlt, hlen, rfl⟩

end Stages

/-! ## The whole frame -/

/-- The package up to its checksum. -/
def packageFront (data : TinyPbStruct) : Bytes :=
  [PB_START] ++ netBytes32 (packageLen data) ++ netBytes32 data.msgSeq.length ++ data.msgSeq
    ++ netBytes32 data.serviceFullName.length ++ data.serviceFullName ++ netBytes32 data.errCode
    ++ netBytes32 data.errInfo.length ++ data.errInfo ++ data.pbData

theorem package_eq_front (d : TinyPbStruct) : package d = packageFront d ++ netBytes32 1 ++ [PB_END] := rfl

/-- `d` is what a package with the fields of `raw` is decoded to. -/
structure CutFrom (d raw : TinyPbStruct) : Prop where
  pkLen : d.pkLen = packageLen raw
  msgReqLen : d.msgReqLen = raw.msgSeq.length
  msgSeq : d.msgSeq = cut raw.msgSeq
  serviceNameLen : d.serviceNameLen = raw.serviceFullName.length
  serviceFullName : d.serviceFullName = cut raw.serviceFullName
  errCode : d.errCode = raw.errCode
  errInfoLen : d.errInfoLen = raw.errInfo.length
  errInfo : d.errInfo = cut raw.errInfo
  pbData : d.pbData = raw.pbData
  msgSeq_ne : raw.msgSeq ≠ []

/-- The fields of `raw` stand in the package at `x`, each behind its length. -/
structure FieldsAt (tmp : Bytes) (x : Int) (raw : TinyPbStruct) : Prop where
  msgReqLen : wordAt tmp (x + 5) = some raw.msgSeq.length
  msgSeq : StandsAt tmp (x + 9) raw.msgSeq
  serviceNameLen : wordAt tmp (x + 9 + raw.msgSeq.length) = some raw.serviceFullName.length
  serviceFullName : StandsAt tmp (x + 13 + raw.msgSeq.length) raw.serviceFullName
  errInfoLen : wordAt tmp (x + 17 + raw.msgSeq.length + raw.serviceFullName.length) = some raw.errInfo.length
  errInfo : StandsAt tmp (x + 21 + raw.msgSeq.length + raw.serviceFullName.length) raw.errInfo

theorem parseFrame_res {w : Int} (htmp : tmp.length < 2147483648)
    (hf : frameAt tmp w f.start = some f) (h : (parseFrame tmp f data).res = some d) (hs : d.decodeSucc = true) :
    ∃ raw check, CutFrom d raw ∧ FieldsAt tmp f.start raw ∧ f.pkLen = packageLen raw ∧ check.length = 4 ∧
      StandsAt tmp f.start (packageFront raw ++ check ++ [PB_END]) := by
  obtain ⟨-, hstart, -, hpk, hstop, hstopLt, hend⟩ := frameAt_eq_some hf
  have h32 := wordAt_isInt32 hpk
  have hstartIn := byteAt_bounds hstart
  have hstopIn := byteAt_bounds hend
  simp only [IsInt32] at h32
  have hstopEq : f.stop = f.start + f.pkLen - 1 := by
    simp only [wrap32] at hstop
    omega
  rw [parseFrame] at h
  dsimp only at h
  split at h
  · exact absurd h (not_dropped rfl hs)
  · rw [Traced.res_bind] at h
    obtain ⟨m, hm, h⟩ := Option.bind_eq_some_iff.mp h
    rw [getInt32FromNetByte, Traced.res_access] at hm
    have hmIn := wordAt_bounds hm
    have hno : wrap32 (f.start + 5) = f.start + 5 := by
      simp only [wrap32] at hmIn ⊢
      omega
    rw [hno] at hm hmIn h
    split at h
    · exact absurd h (not_dropped rfl hs)
    · rename_i hne
      rw [wrap32_eq (x := f.start + 5 + 4) ⟨by omega, by omega⟩,
        show f.start + 5 + 4 = f.start + 9 by omega, Traced.res_bind] at h
      obtain ⟨msgSeq, hmsg, h⟩ := Option.bind_eq_some_iff.mp h
      obtain ⟨msg, hstands, rfl, hcap, rfl⟩ := copyField_res hmsg
      have hmsgIn := hstands.bounds
      rw [wrap32_eq (x := f.start + 9 + msg.length) ⟨by omega, by omega⟩] at h
      obtain ⟨name, err, pb, errCode, hn, hcapN, hname, hcode, hk, hcapK, herr, hpb, hlt, hlen, rfl⟩ :=
        parseServiceName_res htmp (by rfl) hs h
      dsimp only at hlen
      rw [wrap32_eq (x := f.pkLen - name.length - msg.length - err.length - 26) ⟨by omega, by omega⟩] at hlen
      let raw : TinyPbStruct :=
        { msgSeq := msg, serviceFullName := name, errCode := errCode, errInfo := err, pbData := pb }
      have hpkLen : f.pkLen = packageLen raw := by
        simp only [packageLen, raw]
        omega
      obtain ⟨check, hcheck⟩ : ∃ check, readRange tmp (f.start + f.pkLen - 5) 4 = some check :=
        ⟨_, readRange_some (by omega) (by omega) (by omega)⟩
      obtain ⟨hcheckAt, hcheckLen⟩ := StandsAt.of_read hcheck
      have hmsgNe : msg ≠ [] := by
        rintro rfl
        exact hne rfl
      rw [show f.start + 9 + (msg.length : Int) + 4 = f.start + 13 + msg.length by omega] at hname hcode
      rw [show f.start + 9 + (msg.length : Int) + 8 + name.length = f.start + 17 + msg.length + name.length by omega]
        at hk
      rw [show f.start + 9 + (msg.length : Int) + 12 + name.length = f.start + 21 + msg.length + name.length by omega]
        at herr hpb hlt
      refine ⟨raw, check, ⟨hpkLen, rfl, rfl, rfl, rfl, rfl, rfl, rfl, rfl, hmsgNe⟩, ⟨hm, hstands, hn, hname, hk, herr⟩,
        hpkLen, by omega, ?_⟩
      have hfront := (standsAt_byte hstart).append (standsAt_word hpk) (by simp)
        |>.append (standsAt_word hm) (by simp)
        |>.append hstands (by simp)
        |>.append (standsAt_word hn) (by simp; omega)
        |>.append hname (by simp; omega)
        |>.append (standsAt_word hcode) (by simp; omega)
        |>.append (standsAt_word hk) (by simp; omega)
        |>.append herr (by simp; omega)
        |>.append hpb (by simp; omega)
        |>.append hcheckAt (by simp; omega)
        |>.append (standsAt_byte hend) (by simp; omega)
      rw [hpkLen] at hfront
      exact hfront

end Tirpc
