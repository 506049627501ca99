import Tirpc.Rpc.Controller
import Tirpc.Rpc.Lemmas.Accepted

/-!
# Which accepted packages the encoder would make again

The fields travel through arrays that end at a NUL, and the decoder accepts the empty service name that the encoder
refuses. Every other package that is accepted is one of the encoder's, but for its checksum.
-/

namespace Tirpc

open Lib

variable {b b' : TcpBuffer} {d raw : TinyPbStruct} {f : Frame}

/-- The two texts differ at most in the four bytes in front of the last one. -/
def SameButChecksum (re frame : Bytes) : Prop :=
  ∃ front check check' last, check.length = 4 ∧ check'.length = 4 ∧ re = front ++ check ++ [last] ∧
    frame = front ++ check' ++ [last]

/-- The encoder makes the frame again from what was decoded, and the lengths are those of the fields. -/
structure Reencodes (gen : MsgNumber) (frame : Bytes) (d : TinyPbStruct) : Prop where
  package : ∃ re d', encodePbData gen.bytes d = some (some re, d') ∧ SameButChecksum re frame
  msgReqLen : d.msgReqLen = d.msgSeq.length
  serviceNameLen : d.serviceNameLen = d.serviceFullName.length
  errInfoLen : d.errInfoLen = d.errInfo.length
  pkLen : d.pkLen = packageLen d

def NoNul (tmp : Bytes) (x len : Int) : Prop := ∀ s, readRange tmp x len = some s → (0 : UInt8) ∉ s

/-- The service name in the frame is not empty, and none of the three texts has a NUL. -/
def PlainFields (tmp : Bytes) (f : Frame) : Prop :=
  ∀ m n k, wordAt tmp (f.start + 5) = some m → wordAt tmp (f.start + 9 + m) = some n →
    wordAt tmp (f.start + 17 + m + n) = some k →
      n ≠ 0 ∧ NoNul tmp (f.start + 9) m ∧ NoNul tmp (f.start + 13 + m) n ∧ NoNul tmp (f.start + 21 + m + n) k

theorem StandsAt.noNul_iff {tmp s : Bytes} {x : Int} (h : StandsAt tmp x s) :
    NoNul tmp x s.length ↔ (0 : UInt8) ∉ s := by
  refine ⟨fun hno => hno s h, fun hno t ht => ?_⟩
  cases h.symm.trans ht
  exact hno

theorem FieldsAt.plain_iff {tmp : Bytes} (h : FieldsAt tmp f.start raw) :
    PlainFields tmp f ↔ raw.serviceFullName ≠ [] ∧ (0 : UInt8) ∉ raw.msgSeq ∧ (0 : UInt8) ∉ raw.serviceFullName ∧
      (0 : UInt8) ∉ raw.errInfo := by
  rw [← h.msgSeq.noNul_iff, ← h.serviceFullName.noNul_iff, ← h.errInfo.noNul_iff]
  constructor
  · intro hplain
    obtain ⟨hname, hrest⟩ := hplain _ _ _ h.msgReqLen h.serviceNameLen h.errInfoLen
    exact ⟨fun he => hname (by rw [he]; rfl), hrest⟩
  · rintro ⟨hname, hrest⟩ m n k hm hn hk
    cases h.msgReqLen.symm.trans hm
    cases h.serviceNameLen.symm.trans hn
    cases h.errInfoLen.symm.trans hk
    exact ⟨fun he => hname (List.length_eq_zero_iff.mp (Int.natCast_eq_zero.mp he)), hrest⟩

/-- Fields without a NUL come through as they are. -/
theorem CutFrom.reencodes {check : Bytes} (gen : MsgNumber) (h : CutFrom d raw) (hlen : packageLen raw < 2147483648)
    (hcheck : check.length = 4) (hname : raw.serviceFullName ≠ [])
    (hno : (0 : UInt8) ∉ raw.msgSeq ∧ (0 : UInt8) ∉ raw.serviceFullName ∧ (0 : UInt8) ∉ raw.errInfo) :
    Reencodes gen (packageFront raw ++ check ++ [PB_END]) d := by
  have hmsg : d.msgSeq = raw.msgSeq := h.msgSeq.trans (cut_eq_self hno.1)
  have hserv : d.serviceFullName = raw.serviceFullName := h.serviceFullName.trans (cut_eq_self hno.2.1)
  have herr : d.errInfo = raw.errInfo := h.errInfo.trans (cut_eq_self hno.2.2)
  have hpk : packageLen d = packageLen raw := by simp only [packageLen, hmsg, hserv, herr, h.pbData]
  have hfront : packageFront d = packageFront raw := by
    simp only [packageFront, hpk, hmsg, hserv, herr, h.errCode, h.pbData]
  have hnumbered : numbered gen.bytes d = d := numbered_of_ne_nil (hmsg ▸ h.msgSeq_ne)
  refine ⟨⟨package d, encoded d, ?_, packageFront raw, netBytes32 1, check, PB_END, rfl, hcheck, ?_, rfl⟩,
    ?_, ?_, ?_, ?_⟩
  · rw [encodePbData_eq _ (hserv ▸ hname), hnumbered, if_pos (hpk ▸ hlen)]
  · rw [package_eq_front, hfront]
  · rw [h.msgReqLen, hmsg]
  · rw [h.serviceNameLen, hserv]
  · rw [h.errInfoLen, herr]
  · rw [h.pkLen, hpk]

theorem CutFrom.plain {gen : MsgNumber} {frame : Bytes} (h : CutFrom d raw) (hre : Reencodes gen frame d) :
    raw.serviceFullName ≠ [] ∧ (0 : UInt8) ∉ raw.msgSeq ∧ (0 : UInt8) ∉ raw.serviceFullName ∧
      (0 : UInt8) ∉ raw.errInfo := by
  obtain ⟨re, d', henc, -⟩ := hre.package
  have hmsg := hre.msgReqLen
  have hserv := hre.serviceNameLen
  have herr := hre.errInfoLen
  rw [h.msgReqLen, h.msgSeq] at hmsg
  rw [h.serviceNameLen, h.serviceFullName] at hserv
  rw [h.errInfoLen, h.errInfo] at herr
  refine ⟨?_, cut_length_eq (by omega), cut_length_eq (by omega), cut_length_eq (by omega)⟩
  intro hnil
  have hempty : d.serviceFullName = [] := by
    rw [h.serviceFullName, hnil]
    rfl
  rw [encodePbData, if_pos hempty] at henc
  cases henc

/-- For every buffer on which `Decode` succeeds, what is decoded from its frame is encoded to the same bytes but for the
checksum, with the lengths that were claimed, if and only if the fields are plain. -/
theorem decode_canonical_iff (hv : b.Valid) (h : (decode b {}).res = some (b', d)) (hs : d.decodeSucc = true)
    (gen : MsgNumber) :
    ∃ f frame, FirstFrame b.buffer b.writeIndex b.readIndex (b.writeIndex - b.readIndex).toNat (some f) ∧
      readRange b.buffer f.start f.pkLen = some frame ∧ (Reencodes gen frame d ↔ PlainFields b.buffer f) := by
  obtain ⟨f, hfirst, -, hparse, -⟩ := decode_accepted hv h hs
  obtain ⟨-, -, hf, -⟩ := id hfirst
  have hpk := wordAt_isInt32 (frameAt_eq_some hf).2.2.2.1
  obtain ⟨raw, check, hcut, hfields, hlen, hcheck, hstands⟩ := parseFrame_res hv.size_lt hf hparse hs
  have hframe : ((packageFront raw ++ check ++ [PB_END]).length : Int) = f.pkLen := by
    have hpackage := package_length raw
    rw [package_eq_front] at hpackage
    simp only [List.length_append, netBytes32_length, hcheck] at hpackage ⊢
    omega
  refine ⟨f, packageFront raw ++ check ++ [PB_END], hfirst, hframe ▸ hstands, ?_⟩
  rw [hfields.plain_iff]
  refine ⟨fun hre => hcut.plain hre, fun hplain => hcut.reencodes gen ?_ hcheck hplain.1 hplain.2⟩
  exact hlen ▸ hpk.2

theorem decode_canonical_ping : ∃ f frame, readRange pingReceived.buffer f.start f.pkLen = some frame ∧
    (Reencodes ⟨text "1", MsgNumber.digits_one⟩ frame (received {} ping) ↔ PlainFields pingReceived.buffer f) := by
  obtain ⟨f, frame, -, hframe, hiff⟩ :=
    decode_canonical_iff (by decide) pingReceived_decode rfl ⟨text "1", MsgNumber.digits_one⟩
  exact ⟨f, frame, hframe, hiff⟩

/-! ## A NUL in the message number -/

/-- The frame of the number `1` with a NUL behind it, and of the service name `S`. -/
def nulNumber : TcpBuffer where
  buffer := [2, 0, 0, 0, 29, 0, 0, 0, 2, 49, 0, 0, 0, 0, 1, 83, 0, 0, 0, 0, 0, 0, 0, 0, 0, 0, 0, 1, 3]
  readIndex := 0
  writeIndex := 29

/-- The package is accepted, with a number that is one byte shorter than its length says. -/
theorem nulNumber_accepted : nulNumber.Valid ∧ ∃ b' d, (decode nulNumber {}).res = some (b', d) ∧ d.decodeSucc = true ∧
    ∀ gen frame, ¬Reencodes gen frame d := by
  refine ⟨by decide, ?_⟩
  have hres : ((decode nulNumber {}).res.map fun r => (r.2.decodeSucc, r.2.msgReqLen, r.2.msgSeq)) =
      some (true, 2, [49]) := by decide
  obtain ⟨⟨b', d⟩, hdec, hd⟩ := Option.map_eq_some_iff.mp hres
  rw [Prod.mk.injEq, Prod.mk.injEq] at hd
  obtain ⟨hs, hlen, hseq⟩ := hd
  refine ⟨b', d, hdec, hs, fun gen frame hre => ?_⟩
  have hbad := hre.msgReqLen
  rw [hlen, hseq] at hbad
  exact absurd hbad (by decide)

end Tirpc
