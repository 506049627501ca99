import Tirpc.Rpc.Lemmas.Scan

/-!
# A package that stands at the read index is decoded to the data it was made from
-/

namespace Tirpc

open Lib

/-! ## Reading a buffer from the front -/

structure Rest (b : TcpBuffer) (x : Int) (t : Bytes) : Prop where
  ge : b.readIndex ≤ x
  le : x ≤ b.writeIndex
  eq : window b.buffer x b.writeIndex = t

variable {b : TcpBuffer} {x : Int} {s t : Bytes}

theorem TcpBuffer.Holds.rest {q : Bytes} (h : b.Holds q) : Rest b b.readIndex q :=
  ⟨Int.le_refl _, h.valid.read_le_write, h.content_eq⟩

theorem Rest.length_eq (hv : b.Valid) (h : Rest b x t) : (t.length : Int) = b.writeIndex - x := by
  rw [← h.eq]
  exact window_length (by have := hv.read_nonneg; have := h.ge; omega) h.le hv.write_le_size

theorem Rest.read (hv : b.Valid) (h : Rest b x (s ++ t)) :
    readRange b.buffer x s.length = some s ∧ Rest b (x + s.length) t := by
  have hr := hv.read_nonneg
  have hg := h.ge
  have hl := h.length_eq hv
  rw [List.length_append] at hl
  have hread := readRange_window (v := b.buffer) (r := x) (w := b.writeIndex) (k := 0) (n := s.length)
    (by omega) hv.write_le_size (by omega) (by omega) (by omega)
  have hfront : readRange (s ++ t) 0 s.length = some s := readRange_append (p := []) rfl rfl rfl
  rw [Int.add_zero, h.eq, hfront] at hread
  refine ⟨hread, by omega, by omega, ?_⟩
  rw [window_drop (by omega) (by omega), h.eq, Int.toNat_natCast, List.drop_left]

theorem Rest.byte {c : UInt8} (hv : b.Valid) (h : Rest b x (c :: t)) :
    byteAt b.buffer x = some c ∧ Rest b (x + 1) t := by
  obtain ⟨h1, h2⟩ := Rest.read (s := [c]) hv h
  exact ⟨by unfold byteAt; rw [show (1 : Int) = ([c].length : Int) from rfl, h1]; rfl, h2⟩

theorem Rest.word {v : Int} (hv : b.Valid) (h : Rest b x (netBytes32 v ++ t)) (hi : IsInt32 v) :
    wordAt b.buffer x = some v ∧ Rest b (x + 4) t := by
  obtain ⟨h1, h2⟩ := h.read hv
  refine ⟨?_, h2⟩
  simp only [wordAt]
  rw [show (4 : Int) = ((netBytes32 v).length : Int) from rfl, h1, Option.map_some,
    beInt32_netBytes32 hi]

theorem Rest.field {cap : Nat} (hv : b.Valid) (h : Rest b x (s ++ t)) (h0 : (0 : UInt8) ∉ s)
    (hs : s.length < cap) :
    (copyField cap b.buffer x s.length).res = some s ∧ Rest b (x + s.length) t := by
  obtain ⟨h1, h2⟩ := h.read hv
  refine ⟨?_, h2⟩
  simp only [copyField]
  rw [Traced.res_access, if_pos (by omega), h1, Option.bind_some, cString_zeroed h0 hs]

/-! ## The package of some data -/

def packageLen (d : TinyPbStruct) : Int :=
  26 + d.pbData.length + d.serviceFullName.length + d.msgSeq.length + d.errInfo.length

def package (d : TinyPbStruct) : Bytes := packageBytes d (packageLen d)

/-- Data that the encoder accepts and whose fields respect the limits of the decoder. -/
structure Sendable (d : TinyPbStruct) : Prop where
  msgSeq : 0 < d.msgSeq.length ∧ d.msgSeq.length < 50 ∧ (0 : UInt8) ∉ d.msgSeq
  serviceName : 0 < d.serviceFullName.length ∧ d.serviceFullName.length < 512 ∧
    (0 : UInt8) ∉ d.serviceFullName
  errInfo : d.errInfo.length < 512 ∧ (0 : UInt8) ∉ d.errInfo
  errCode : IsInt32 d.errCode
  len : packageLen d < 2147483648

instance (d : TinyPbStruct) : Decidable (Sendable d) :=
  decidable_of_iff (_ ∧ _ ∧ _ ∧ _ ∧ _) ⟨fun h => ⟨h.1, h.2.1, h.2.2.1, h.2.2.2.1, h.2.2.2.2⟩,
    fun h => ⟨h.msgSeq, h.serviceName, h.errInfo, h.errCode, h.len⟩⟩

/-- What `Decode` makes of the package, in a data object that held `data`. -/
def received (data d : TinyPbStruct) : TinyPbStruct :=
  { data with
    decodeSucc := true
    pkLen := packageLen d
    msgReqLen := d.msgSeq.length
    msgSeq := d.msgSeq
    serviceNameLen := d.serviceFullName.length
    serviceFullName := d.serviceFullName
    errCode := d.errCode
    errInfoLen := d.errInfo.length
    errInfo := d.errInfo
    pbData := d.pbData }

variable {d data : TinyPbStruct}

theorem package_length (d : TinyPbStruct) : ((package d).length : Int) = packageLen d := by
  simp only [package, packageBytes, List.length_append, List.length_cons, List.length_nil,
    netBytes32_length]
  simp only [packageLen]
  omega

theorem package_append (d : TinyPbStruct) (t : Bytes) :
    package d ++ t = PB_START :: (netBytes32 (packageLen d) ++ (netBytes32 d.msgSeq.length ++
      (d.msgSeq ++ (netBytes32 d.serviceFullName.length ++ (d.serviceFullName ++
      (netBytes32 d.errCode ++ (netBytes32 d.errInfo.length ++ (d.errInfo ++ (d.pbData ++
      (netBytes32 1 ++ PB_END :: t)))))))))) := by
  simp only [package, packageBytes, List.append_assoc, List.cons_append, List.nil_append]

/-- The data with the message number that the encoder gives them if they have none. -/
def numbered (gen : Bytes) (d : TinyPbStruct) : TinyPbStruct :=
  if d.msgSeq = [] then { d with msgSeq := gen, msgReqLen := gen.length } else d

def encoded (d : TinyPbStruct) : TinyPbStruct :=
  { d with
    pkLen := packageLen d
    msgReqLen := d.msgSeq.length
    serviceNameLen := d.serviceFullName.length
    errInfoLen := d.errInfo.length
    checkNum := 1
    encodeSucc := true }

theorem encodePbData_eq (gen : Bytes) (hn : d.serviceFullName ≠ []) :
    encodePbData gen d =
      if packageLen (numbered gen d) < 2147483648 then
        some (some (package (numbered gen d)), encoded (numbered gen d))
      else none := by
  have hfold : encodePbData gen d =
      if wrap32 (packageLen (numbered gen d)) = packageLen (numbered gen d) then
        some (some (packageBytes (numbered gen d) (wrap32 (packageLen (numbered gen d)))),
          { encoded (numbered gen d) with pkLen := wrap32 (packageLen (numbered gen d)) })
      else none := by
    simp only [encodePbData]
    rw [if_neg hn]
    rfl
  have hpos : 0 ≤ packageLen (numbered gen d) := by unfold packageLen; omega
  rw [hfold]
  by_cases hl : packageLen (numbered gen d) < 2147483648
  · rw [wrap32_eq ⟨by omega, hl⟩, if_pos rfl, if_pos hl]
    rfl
  · have hne : wrap32 (packageLen (numbered gen d)) ≠ packageLen (numbered gen d) := by
      have := (isInt32_wrap32 (packageLen (numbered gen d))).2
      omega
    rw [if_neg hne, if_neg hl]

theorem numbered_of_ne_nil {gen : Bytes} (h : d.msgSeq ≠ []) : numbered gen d = d := if_neg h

theorem encodePbData_sendable (gen : Bytes) (h : Sendable d) :
    encodePbData gen d = some (some (package d), encoded d) := by
  have hm := List.ne_nil_of_length_pos h.msgSeq.1
  have hn := List.ne_nil_of_length_pos h.serviceName.1
  rw [encodePbData_eq gen hn, numbered_of_ne_nil hm, if_pos h.len]

theorem package_ne_nil (d : TinyPbStruct) : (package d).length ≠ 0 := by
  have := package_length d
  simp only [packageLen] at this
  omega

theorem encoded_accepted (d : TinyPbStruct) :
    ¬((package d).length = 0 ∨ ¬(encoded d).encodeSucc = true) := by
  rintro (h | h)
  · exact package_ne_nil d h
  · exact h rfl

theorem encode_of_package {gen : Bytes} {out : TcpBuffer} {e : TinyPbStruct} {re : Bytes}
    (h : encodePbData gen d = some (some re, e)) (hre : ¬(re.length = 0 ∨ ¬e.encodeSucc = true)) :
    encode gen out d = (out.writeToBuffer re).map fun buf' => (buf', e) := by
  simp only [encode]
  rw [h, Option.bind_some]
  exact if_neg hre

theorem encode_refused (gen : Bytes) (out : TcpBuffer) (hn : d.serviceFullName = []) :
    encode gen out d = some (out, { d with encodeSucc := false }) := by
  have hr : encodePbData gen d = some (none, { d with encodeSucc := false }) := if_pos hn
  rw [encode, hr]
  rfl

/-- An encoder that returns has refused an empty service name, or has appended the package. -/
theorem encode_cases {gen : Bytes} {out out' : TcpBuffer} {d' : TinyPbStruct}
    (h : encode gen out d = some (out', d')) :
    d.serviceFullName = [] ∧ out' = out ∨
      d.serviceFullName ≠ [] ∧ packageLen (numbered gen d) < 2147483648 ∧
        out.writeToBuffer (package (numbered gen d)) = some out' := by
  by_cases hn : d.serviceFullName = []
  · rw [encode_refused gen out hn] at h
    cases h
    exact .inl ⟨hn, rfl⟩
  · by_cases hlen : packageLen (numbered gen d) < 2147483648
    · have hr := encodePbData_eq gen hn
      rw [if_pos hlen] at hr
      rw [encode_of_package hr (encoded_accepted _), Option.map_eq_some_iff] at h
      obtain ⟨b, hb, h⟩ := h
      rw [Prod.mk.injEq] at h
      exact .inr ⟨hn, hlen, h.1 ▸ hb⟩
    · have hr := encodePbData_eq gen hn
      rw [if_neg hlen] at hr
      simp only [encode, hr, Option.bind_none, reduceCtorEq] at h

theorem encode_sendable (gen : Bytes) {out : TcpBuffer} {q : Bytes} (h : Sendable d) (ho : out.Holds q)
    (hroom : out.Room (packageLen d)) :
    ∃ out', encode gen out d = some (out', encoded d) ∧ out'.Holds (q ++ package d) := by
  have hpl := package_length d
  have hlen := h.len
  obtain ⟨out', hw, ho'⟩ := ho.writeToBuffer (s := package d) (by omega) (by rw [hpl]; exact hroom)
  refine ⟨out', ?_, ho'⟩
  rw [encode_of_package (encodePbData_sendable gen h) (encoded_accepted d), hw]
  rfl

/-- In a buffer in order, the encoder appends a package if and only if there is room for it. -/
theorem encode_eq (gen : Bytes) {out : TcpBuffer} (hv : out.Valid) (hn : d.serviceFullName ≠ []) :
    (packageLen (numbered gen d) < 2147483648 → out.Room (packageLen (numbered gen d)) →
      ∃ out', encode gen out d = some (out', encoded (numbered gen d))) ∧
    (¬(packageLen (numbered gen d) < 2147483648 ∧ out.Room (packageLen (numbered gen d))) →
      encode gen out d = none) := by
  have hpl := package_length (numbered gen d)
  refine ⟨fun hl hroom => ?_, fun hno => ?_⟩
  · have henc := encodePbData_eq gen hn
    rw [if_pos hl] at henc
    obtain ⟨out', hw, -⟩ := hv.holds.writeToBuffer (s := package (numbered gen d)) (by omega)
      (by rw [hpl]; exact hroom)
    exact ⟨out', by rw [encode_of_package henc (encoded_accepted _), hw]; rfl⟩
  · cases h : encode gen out d with
    | none => rfl
    | some r =>
        obtain ⟨out', d'⟩ := r
        rcases encode_cases h with ⟨hnil, -⟩ | ⟨-, hl, hw⟩
        · exact absurd hnil hn
        · have hroom := hv.room_of_writeToBuffer (by omega) hw
          rw [hpl] at hroom
          exact absurd ⟨hl, hroom⟩ hno

def frameOf (d : TinyPbStruct) (x : Int) : Frame :=
  { start := x, stop := x + packageLen d - 1, pkLen := packageLen d }

theorem frameAt_package (hv : b.Valid) (hl : packageLen d < 2147483648) (h : Rest b x (package d ++ t)) :
    ScanOk b x ∧ frameAt b.buffer b.writeIndex x = some (frameOf d x) := by
  have hr := hv.read_nonneg
  have hsz := hv.size_lt
  have hws := hv.write_le_size
  have hg := h.ge
  have hlen := h.length_eq hv
  have hpl := package_length d
  rw [List.length_append] at hlen
  have hpos : 26 ≤ packageLen d := by unfold packageLen; omega
  have hpk : IsInt32 (packageLen d) := ⟨by omega, by omega⟩
  have hj : wrap32 (x + packageLen d - 1) = x + packageLen d - 1 := wrap32_eq ⟨by omega, by omega⟩
  have hend : byteAt b.buffer (x + packageLen d - 1) = some PB_END := by
    have hsplit : package d ++ t = (package d).dropLast ++ PB_END :: t := by
      have : (package d).dropLast = [PB_START] ++ netBytes32 (packageLen d) ++ netBytes32 d.msgSeq.length
          ++ d.msgSeq ++ netBytes32 d.serviceFullName.length ++ d.serviceFullName ++ netBytes32 d.errCode
          ++ netBytes32 d.errInfo.length ++ d.errInfo ++ d.pbData ++ netBytes32 1 := by
        simp only [package, packageBytes]
        rw [List.dropLast_concat]
      rw [this, package_append]
      simp only [List.append_assoc, List.cons_append, List.nil_append]
    rw [hsplit] at h
    have hfront := (h.read hv).2
    rw [List.length_dropLast, show x + (((package d).length - 1 : Nat) : Int) = x + packageLen d - 1 by omega]
      at hfront
    exact (hfront.byte hv).1
  rw [package_append] at h
  obtain ⟨hstart, h⟩ := h.byte hv
  obtain ⟨hword, -⟩ := h.word hv hpk
  refine ⟨?_, ?_⟩
  · intro _ _
    refine ⟨by omega, ?_⟩
    intro pk hpk'
    rw [hword, Option.some.injEq] at hpk'
    subst hpk'
    rw [hj]
    exact .inr (by omega)
  · unfold frameAt
    rw [if_pos ⟨hstart, by omega⟩, hword, Option.bind_some]
    dsimp only
    rw [hj, if_pos ⟨by omega, hend⟩]
    rfl

theorem parseFrame_package {f : Frame} (hv : b.Valid) (hd : Sendable d)
    (h : Rest b x (package d ++ t)) (hf : f = frameOf d x) :
    (parseFrame b.buffer f data).res = some (received data d) := by
  have hr := hv.read_nonneg
  have hsz := hv.size_lt
  have hws := hv.write_le_size
  have hg := h.ge
  have hlen := h.length_eq hv
  have hpl := package_length d
  obtain ⟨hm0, hm1, hm2⟩ := hd.msgSeq
  obtain ⟨hn0, hn1, hn2⟩ := hd.serviceName
  obtain ⟨hk1, hk2⟩ := hd.errInfo
  have hl := hd.len
  rw [List.length_append] at hlen
  have htotal : packageLen d = 26 + d.pbData.length + d.serviceFullName.length + d.msgSeq.length +
      d.errInfo.length := rfl
  have hstart : f.start = x := by rw [hf]; rfl
  have hstop : f.stop = x + packageLen d - 1 := by rw [hf]; rfl
  have hpk : f.pkLen = packageLen d := by rw [hf]; rfl
  rw [package_append] at h
  obtain ⟨-, h⟩ := h.byte hv
  obtain ⟨-, h⟩ := h.word hv ⟨by omega, by omega⟩
  obtain ⟨hmLen, h⟩ := h.word hv ⟨by omega, by omega⟩
  obtain ⟨hm, h⟩ := h.field hv hm2 hm1
  obtain ⟨hnLen, h⟩ := h.word hv ⟨by omega, by omega⟩
  obtain ⟨hn, h⟩ := h.field hv hn2 hn1
  obtain ⟨herr, h⟩ := h.word hv hd.errCode
  obtain ⟨hkLen, h⟩ := h.word hv ⟨by omega, by omega⟩
  obtain ⟨hk, h⟩ := h.field hv hk2 hk1
  obtain ⟨hpb, -⟩ := h.read hv
  have h5 : x + 1 + 4 = x + 5 := by omega
  rw [h5] at hmLen hm hnLen hn herr hkLen hk hpb
  unfold parseFrame
  dsimp only
  rw [hstart, wrap32_eq (x := x + 5) ⟨by omega, by omega⟩, if_neg (by omega), Traced.res_bind,
    getInt32FromNetByte, Traced.res_access, hmLen, Option.bind_some, if_neg (by omega),
    wrap32_eq (x := x + 5 + 4) ⟨by omega, by omega⟩, Traced.res_bind, hm, Option.bind_some,
    wrap32_eq (x := x + 5 + 4 + d.msgSeq.length) ⟨by omega, by omega⟩]
  unfold parseServiceName
  dsimp only
  rw [if_neg (by omega), wrap32_eq (x := x + 5 + 4 + d.msgSeq.length + 4) ⟨by omega, by omega⟩,
    if_neg (by omega), Traced.res_bind, getInt32FromNetByte, Traced.res_access, hnLen, Option.bind_some,
    if_neg (by omega), Traced.res_bind, hn, Option.bind_some,
    wrap32_eq (x := x + 5 + 4 + d.msgSeq.length + 4 + d.serviceFullName.length) ⟨by omega, by omega⟩,
    Traced.res_bind, getInt32FromNetByte, Traced.res_access, herr, Option.bind_some,
    wrap32_eq (x := x + 5 + 4 + d.msgSeq.length + 4 + d.serviceFullName.length + 4) ⟨by omega, by omega⟩]
  unfold parseErrInfo
  dsimp only
  rw [if_neg (by omega), Traced.res_bind, getInt32FromNetByte, Traced.res_access, hkLen,
    Option.bind_some,
    wrap32_eq (x := x + 5 + 4 + d.msgSeq.length + 4 + d.serviceFullName.length + 4 + 4)
      ⟨by omega, by omega⟩,
    Traced.res_bind, hk, Option.bind_some,
    wrap32_eq (x := x + 5 + 4 + d.msgSeq.length + 4 + d.serviceFullName.length + 4 + 4 +
      d.errInfo.length) ⟨by omega, by omega⟩]
  unfold parsePbData
  dsimp only
  have hpbLen : wrap32 (packageLen d - d.serviceFullName.length - d.msgSeq.length - d.errInfo.length - 26)
      = d.pbData.length := by
    rw [wrap32_eq ⟨by omega, by omega⟩]; omega
  rw [if_neg (by omega), hpk, hpbLen, Traced.res_bind, buildString, Traced.res_access, hpb, Option.bind_some]
  rfl

/-- Whatever follows the package, `Decode` yields its data and leaves exactly what follows. -/
theorem decode_package (hd : Sendable d) (h : b.Holds (package d ++ t)) :
    ∃ b', (decode b data).res = some (b', received data d) ∧ b'.Holds t ∧ b'.getSize = b.getSize := by
  have hv := h.valid
  have hlen := h.length_eq
  have hpl := package_length d
  have hl := hd.len
  have hpos : 26 ≤ packageLen d := by unfold packageLen; omega
  rw [List.length_append] at hlen
  obtain ⟨hok, hframe⟩ := frameAt_package hv hd.len h.rest
  obtain ⟨n, hn⟩ : ∃ n, (b.writeIndex - b.readIndex).toNat = n + 1 :=
    ⟨(b.writeIndex - b.readIndex).toNat - 1, by omega⟩
  have hscan := findFrame_succ_of_scanOk (n := n) hv (Int.le_refl _) (by omega) hok
  rw [hframe] at hscan
  have hcount : wrap32 ((frameOf d b.readIndex).stop + 1 - (frameOf d b.readIndex).start) =
      (package d).length := by
    rw [package_length]
    dsimp only [frameOf]
    rw [wrap32_eq ⟨by omega, by omega⟩]; omega
  obtain ⟨b', hb', hrest, hsize⟩ := h.recycleRead (k := (package d).length) (by omega)
    (by rw [List.length_append]; omega)
  rw [Int.toNat_natCast, List.drop_left] at hrest
  refine ⟨b', ?_, hrest, hsize⟩
  unfold decode
  rw [Traced.res_bind, hn, hscan, Option.bind_some]
  dsimp only
  rw [Traced.res_bind, Traced.res_lift, hcount, hb', Option.bind_some, Traced.res_bind,
    parseFrame_package hv hd h.rest rfl, Option.bind_some]
  rfl

end Tirpc
