import Tirpc.Rpc.Lemmas.Scan

/-!
# The fields of a package

When the reads of the fields stay inside the readable bytes and inside the local arrays, stated on
the lengths that stand in the package (`MsgReqOk`), and what an accepted package then looks like.
-/

namespace Tirpc

open Lib

/-- The code drops the package when the next field would start at `x`. The comparison is made on
`int`s, so an index beyond their range is not caught. -/
def Dropped (f : Frame) (x : Int) : Prop := x < 2147483648 ∧ f.stop ≤ x

/-- The claimed length leaves no room behind the error text, so that the package is dropped, or all
of the room that the payload and the trailer need. -/
def PbDataOk (f : Frame) (m n k : Int) : Prop := f.pkLen ≤ 22 + m + n + k ∨ 26 + m + n + k ≤ f.pkLen

def ErrInfoOk (b : TcpBuffer) (f : Frame) (m n : Int) : Prop :=
  let x := f.start + 17 + m + n
  Dropped f x ∨ x + 4 ≤ b.writeIndex ∧ ∀ k, wordAt b.buffer x = some k →
    0 ≤ k ∧ k < 512 ∧ x + 4 + k ≤ b.writeIndex ∧ PbDataOk f m n k

/-- The service name, whose length word is at `x`, and the error code behind it. -/
def ServiceNameOk (b : TcpBuffer) (f : Frame) (m : Int) : Prop :=
  let x := f.start + 9 + m
  Dropped f x ∨ Dropped f (x + 4) ∨ x + 4 ≤ b.writeIndex ∧ ∀ n, wordAt b.buffer x = some n →
    f.pkLen < n ∨ 0 ≤ n ∧ n < 512 ∧ x + 8 + n ≤ b.writeIndex ∧ ErrInfoOk b f m n

def MsgReqOk (b : TcpBuffer) (f : Frame) : Prop :=
  let x := f.start + 5
  Dropped f x ∨ x + 4 ≤ b.writeIndex ∧ ∀ m, wordAt b.buffer x = some m →
    m = 0 ∨ 0 ≤ m ∧ m < 50 ∧ x + 4 + m ≤ b.writeIndex ∧ ServiceNameOk b f m

/-- The lengths of an accepted package are those of fields that fit. -/
structure FieldsFit (d : TinyPbStruct) : Prop where
  msgReq : 0 < d.msgReqLen ∧ d.msgReqLen < 50
  serviceName : 0 ≤ d.serviceNameLen ∧ d.serviceNameLen < 512
  errInfo : 0 ≤ d.errInfoLen ∧ d.errInfoLen < 512
  pbData : 26 + d.msgReqLen + d.serviceNameLen + d.errInfoLen ≤ d.pkLen

variable {b : TcpBuffer} {f : Frame} {data : TinyPbStruct}

theorem allowed_copyField {cap : Nat} {p len : Int} (hp : b.readIndex ≤ p) (hw : p ≤ b.writeIndex) :
    (Access.copyField cap p len).Allowed b ↔ 0 ≤ len ∧ len < cap ∧ p + len ≤ b.writeIndex := by
  simp only [Access.Allowed, Access.Fits, Access.Inside, Access.pos, Access.len]
  constructor
  · rintro ⟨⟨h0, hcap⟩, h⟩
    refine ⟨h0, hcap, ?_⟩
    by_cases hz : len = 0
    · omega
    · have := h (p + len - 1) (by omega) (by omega)
      omega
  · rintro ⟨h0, hcap, h⟩
    exact ⟨⟨h0, hcap⟩, by intro q h1 h2; omega⟩

theorem allowed_buildString {p len : Int} (hp : b.readIndex ≤ p) (hw : p ≤ b.writeIndex) :
    (Access.buildString p len).Allowed b ↔ 0 ≤ len ∧ p + len ≤ b.writeIndex := by
  simp only [Access.Allowed, Access.Fits, Access.Inside, Access.pos, Access.len]
  constructor
  · rintro ⟨h0, h⟩
    refine ⟨h0, ?_⟩
    by_cases hz : len = 0
    · omega
    · have := h (p + len - 1) (by omega) (by omega)
      omega
  · rintro ⟨h0, h⟩
    exact ⟨h0, by intro q h1 h2; omega⟩

structure Frame.Within (f : Frame) (b : TcpBuffer) : Prop where
  start_ge : b.readIndex ≤ f.start
  start_lt : f.start < b.writeIndex
  stop_ge : b.readIndex ≤ f.stop
  stop_lt : f.stop < b.writeIndex
  stop_eq : f.stop = f.start + f.pkLen - 1

theorem parsePbData_safe (hv : b.Valid) (hf : f.Within b) {m n k : Int}
    (hm : data.msgReqLen = m ∧ 0 ≤ m ∧ m < 50) (hn : data.serviceNameLen = n ∧ 0 ≤ n ∧ n < 512)
    (hk : data.errInfoLen = k ∧ 0 ≤ k ∧ k < 512) (hpk : data.pkLen = f.pkLen)
    (hw : f.start + 21 + m + n + k ≤ b.writeIndex) :
    (parsePbData b.buffer f data (f.start + 21 + m + n + k)).Safe (Access.Allowed b) ↔
      PbDataOk f m n k := by
  have hr := hv.read_nonneg
  have hsz := hv.size_lt
  have hws := hv.write_le_size
  obtain ⟨h1, h2, h3, h4, h5⟩ := hf
  obtain ⟨rfl, hm⟩ := hm
  obtain ⟨rfl, hn⟩ := hn
  obtain ⟨rfl, hk⟩ := hk
  simp only [PbDataOk]
  by_cases hd : f.start + 21 + data.msgReqLen + data.serviceNameLen + data.errInfoLen ≥ f.stop
  · simp only [parsePbData, hd, ↓reduceIte, Traced.safe_pure, true_iff]
    omega
  · have hlen : wrap32 (data.pkLen - data.serviceNameLen - data.msgReqLen - data.errInfoLen - 26) =
        f.pkLen - data.serviceNameLen - data.msgReqLen - data.errInfoLen - 26 := by
      rw [hpk]; exact wrap32_eq ⟨by omega, by omega⟩
    simp only [parsePbData, hd, ↓reduceIte, hlen, Traced.safe_pure, Traced.safe_bind, buildString,
      Traced.safe_access, implies_true, and_true]
    rw [allowed_buildString (by omega) hw]
    exact ⟨fun h => by omega, fun h => by omega⟩

theorem copyField_ensures {cap : Nat} {p len : Int} (hv : b.Valid) (hp : b.readIndex ≤ p)
    (hw : p ≤ b.writeIndex) :
    (copyField cap b.buffer p len).Ensures (Access.Allowed b) fun _ =>
      0 ≤ len ∧ len < cap ∧ p + len ≤ b.writeIndex := by
  refine Traced.ensures_access ?_
  intro ha
  obtain ⟨h0, h1, h2⟩ := (allowed_copyField hp hw).mp ha
  have hr := hv.read_nonneg
  have hws := hv.write_le_size
  have hread := readRange_some (v := b.buffer) (show 0 ≤ p by omega) h0 (by omega)
  have hlen := readRange_length hread
  rw [if_pos (by omega), hread, Option.bind_some]
  simp only [cString]
  rw [if_pos (by
    rw [List.mem_append, List.mem_replicate]
    exact .inr ⟨by omega, rfl⟩)]
  exact ⟨_, rfl, h0, h1, h2⟩

theorem getInt32_ensures {p : Int} (hv : b.Valid) :
    (getInt32FromNetByte b.buffer p).Ensures (Access.Allowed b) fun x =>
      wordAt b.buffer p = some x ∧ p + 4 ≤ b.writeIndex := by
  refine Traced.ensures_access ?_
  intro ha
  obtain ⟨h0, h1⟩ := allowed_loadWord.mp ha
  obtain ⟨x, hx⟩ : ∃ x, wordAt b.buffer p = some x :=
    wordAt_isSome (by have := hv.read_nonneg; omega) (by have := hv.write_le_size; omega)
  exact ⟨x, hx, hx, h1⟩

theorem copyField_bind_safe {cap : Nat} {p len : Int} {g : Bytes → Traced Access TinyPbStruct}
    {C : Prop} (hv : b.Valid) (hp : b.readIndex ≤ p) (hw : p ≤ b.writeIndex)
    (hg : 0 ≤ len → len < cap → p + len ≤ b.writeIndex → ∀ s, (g s).Safe (Access.Allowed b) ↔ C) :
    (copyField cap b.buffer p len >>= g).Safe (Access.Allowed b) ↔
      0 ≤ len ∧ len < cap ∧ p + len ≤ b.writeIndex ∧ C := by
  rw [Traced.safe_bind]
  have hcopy : (copyField cap b.buffer p len).Safe (Access.Allowed b) ↔
      0 ≤ len ∧ len < cap ∧ p + len ≤ b.writeIndex :=
    (Traced.safe_access _ _).trans (allowed_copyField hp hw)
  constructor
  · rintro ⟨h1, h2⟩
    obtain ⟨h3, h4, h5⟩ := hcopy.mp h1
    obtain ⟨s, hs, -⟩ := copyField_ensures hv hp hw h1
    exact ⟨h3, h4, h5, (hg h3 h4 h5 s).mp (h2 s hs)⟩
  · rintro ⟨h3, h4, h5, hC⟩
    exact ⟨hcopy.mpr ⟨h3, h4, h5⟩, fun s _ => (hg h3 h4 h5 s).mpr hC⟩

theorem getInt32_bind_safe {p : Int} {g : Int → Traced Access TinyPbStruct} {C : Int → Prop}
    (hp : b.readIndex ≤ p)
    (hg : ∀ x, p + 4 ≤ b.writeIndex → wordAt b.buffer p = some x →
      ((g x).Safe (Access.Allowed b) ↔ C x)) :
    (getInt32FromNetByte b.buffer p >>= g).Safe (Access.Allowed b) ↔
      p + 4 ≤ b.writeIndex ∧ ∀ x, wordAt b.buffer p = some x → C x := by
  rw [Traced.safe_bind]
  have hload : (getInt32FromNetByte b.buffer p).Safe (Access.Allowed b) ↔
      b.readIndex ≤ p ∧ p + 4 ≤ b.writeIndex :=
    (Traced.safe_access _ _).trans allowed_loadWord
  constructor
  · rintro ⟨h1, h2⟩
    have h3 := (hload.mp h1).2
    exact ⟨h3, fun x hx => (hg x h3 hx).mp (h2 x hx)⟩
  · rintro ⟨h3, hC⟩
    exact ⟨hload.mpr ⟨hp, h3⟩, fun x hx => (hg x h3 hx).mpr (hC x hx)⟩

theorem parseErrInfo_safe (hv : b.Valid) (hf : f.Within b) {m n : Int}
    (hm : data.msgReqLen = m ∧ 0 ≤ m ∧ m < 50) (hn : data.serviceNameLen = n ∧ 0 ≤ n ∧ n < 512)
    (hpk : data.pkLen = f.pkLen) (hw : f.start + 17 + m + n ≤ b.writeIndex) :
    (parseErrInfo b.buffer f data (f.start + 17 + m + n)).Safe (Access.Allowed b) ↔
      ErrInfoOk b f m n := by
  have hr := hv.read_nonneg
  have hsz := hv.size_lt
  have hws := hv.write_le_size
  have h1 := hf.start_ge
  unfold ErrInfoOk
  dsimp only
  by_cases hd : f.start + 17 + m + n ≥ f.stop
  · simp only [parseErrInfo, hd, ↓reduceIte, Traced.safe_pure, true_iff]
    exact .inl ⟨by omega, hd⟩
  · have hnd : ¬Dropped f (f.start + 17 + m + n) := fun h => hd h.2
    simp only [parseErrInfo, hd, ↓reduceIte, hnd, false_or]
    apply getInt32_bind_safe (by omega)
    intro k hx hk
    rw [wrap32_eq (x := f.start + 17 + m + n + 4) ⟨by omega, by omega⟩]
    apply copyField_bind_safe hv (by omega) (by omega)
    intro hk0 hk1 hk2 s
    rw [wrap32_eq (x := f.start + 17 + m + n + 4 + k) ⟨by omega, by omega⟩,
      show f.start + 17 + m + n + 4 + k = f.start + 21 + m + n + k by omega]
    exact parsePbData_safe hv hf hm hn ⟨rfl, hk0, by omega⟩ hpk (by omega)

theorem parseServiceName_safe (hv : b.Valid) (hf : f.Within b) {m : Int}
    (hm : data.msgReqLen = m ∧ 0 ≤ m ∧ m < 50) (hpk : data.pkLen = f.pkLen)
    (hw : f.start + 9 + m ≤ b.writeIndex) :
    (parseServiceName b.buffer f data (f.start + 9 + m)).Safe (Access.Allowed b) ↔
      ServiceNameOk b f m := by
  have hr := hv.read_nonneg
  have hsz := hv.size_lt
  have hws := hv.write_le_size
  have h1 := hf.start_ge
  have h2 := hf.stop_ge
  have h3 := hf.stop_lt
  unfold ServiceNameOk
  dsimp only
  by_cases hd : f.start + 9 + m ≥ f.stop
  · simp only [parseServiceName, hd, ↓reduceIte, Traced.safe_pure, true_iff]
    exact .inl ⟨by omega, hd⟩
  · have hnd : ¬Dropped f (f.start + 9 + m) := fun h => hd h.2
    simp only [parseServiceName, hd, ↓reduceIte, hnd, false_or]
    by_cases hd' : wrap32 (f.start + 9 + m + 4) ≥ f.stop
    · have hdrop : Dropped f (f.start + 9 + m + 4) := by
        simp only [wrap32] at hd'
        exact ⟨by omega, by omega⟩
      simp only [hd', ↓reduceIte, Traced.safe_pure, hdrop, true_or]
    · have hnd' : ¬Dropped f (f.start + 9 + m + 4) := by
        intro h
        rw [wrap32_eq ⟨by omega, h.1⟩] at hd'
        exact hd' h.2
      simp only [hd', ↓reduceIte, hnd', false_or]
      apply getInt32_bind_safe (by omega)
      intro n hx hn
      rw [wrap32_eq (x := f.start + 9 + m + 4) ⟨by omega, by omega⟩]
      by_cases hbig : n > f.pkLen
      · simp only [hbig, ↓reduceIte, Traced.safe_pure, true_or]
      · simp only [hbig, ↓reduceIte, false_or]
        rw [copyField_bind_safe (C := f.start + 9 + m + 4 + n + 4 ≤ b.writeIndex ∧ ErrInfoOk b f m n) hv
          (by omega) (by omega)]
        · exact ⟨fun h => ⟨h.1, h.2.1, by omega, h.2.2.2.2⟩,
            fun h => ⟨h.1, h.2.1, by omega, by omega, h.2.2.2⟩⟩
        · intro hn0 hn1 hn2 s
          have hnext : f.start + 9 + m + 4 + n + 4 = f.start + 17 + m + n := by omega
          rw [wrap32_eq (x := f.start + 9 + m + 4 + n) ⟨by omega, by omega⟩,
            getInt32_bind_safe (C := fun _ => ErrInfoOk b f m n) (by omega)]
          · refine ⟨fun h => ⟨h.1, ?_⟩, fun h => ⟨h.1, fun _ _ => h.2⟩⟩
            obtain ⟨e, he⟩ : ∃ e, wordAt b.buffer (f.start + 9 + m + 4 + n) = some e :=
              wordAt_isSome (by omega) (by omega)
            exact h.2 e he
          · intro e he _
            rw [wrap32_eq (x := f.start + 9 + m + 4 + n + 4) ⟨by omega, by omega⟩, hnext]
            exact parseErrInfo_safe hv hf hm ⟨rfl, hn0, by omega⟩ hpk (by omega)

theorem parseFrame_safe (hv : b.Valid) (hf : f.Within b) :
    (parseFrame b.buffer f data).Safe (Access.Allowed b) ↔ MsgReqOk b f := by
  have hr := hv.read_nonneg
  have hsz := hv.size_lt
  have hws := hv.write_le_size
  have h1 := hf.start_ge
  have h2 := hf.stop_ge
  have h3 := hf.stop_lt
  have h4 := hf.start_lt
  unfold MsgReqOk
  dsimp only
  by_cases hd : wrap32 (f.start + 5) ≥ f.stop
  · have hdrop : Dropped f (f.start + 5) := by
      simp only [wrap32] at hd
      exact ⟨by omega, by omega⟩
    simp only [parseFrame, hd, ↓reduceIte, Traced.safe_pure, hdrop, true_or]
  · have hnd : ¬Dropped f (f.start + 5) := by
      intro h
      rw [wrap32_eq ⟨by omega, h.1⟩] at hd
      exact hd h.2
    simp only [parseFrame, hd, ↓reduceIte, hnd, false_or]
    by_cases hover : f.start + 5 < 2147483648
    · rw [wrap32_eq (x := f.start + 5) ⟨by omega, hover⟩]
      apply getInt32_bind_safe (by omega)
      intro m hx hm
      by_cases hz : m = 0
      · simp only [hz, ↓reduceIte, Traced.safe_pure, true_or]
      · simp only [hz, ↓reduceIte, false_or]
        rw [wrap32_eq (x := f.start + 5 + 4) ⟨by omega, by omega⟩]
        apply copyField_bind_safe hv (by omega) (by omega)
        intro hm0 hm1 hm2 s
        rw [wrap32_eq (x := f.start + 5 + 4 + m) ⟨by omega, by omega⟩,
          show f.start + 5 + 4 + m = f.start + 9 + m by omega]
        exact parseServiceName_safe hv hf ⟨rfl, hm0, by omega⟩ rfl (by omega)
    · -- The index has wrapped round: the code reads in front of the buffer.
      rw [Traced.safe_bind]
      refine ⟨fun h => ?_, fun h => by omega⟩
      have hload := allowed_loadWord.mp ((Traced.safe_access _ _).mp h.1)
      simp only [wrap32] at hload
      omega

/-! ## What an accepted package looks like -/

theorem dropped_ensures {Q : TinyPbStruct → Prop} (h : data.decodeSucc = false) :
    (pure data : Traced Access TinyPbStruct).Ensures (Access.Allowed b) fun d => d.decodeSucc → Q d := by
  refine Traced.ensures_pure ?_
  intro hd
  rw [h] at hd
  cases hd

theorem parsePbData_ensures (hv : b.Valid) (hf : f.Within b) (hs : data.decodeSucc = false)
    (hpk : data.pkLen = f.pkLen) (hm : 0 < data.msgReqLen ∧ data.msgReqLen < 50)
    (hn : 0 ≤ data.serviceNameLen ∧ data.serviceNameLen < 512)
    (hk : 0 ≤ data.errInfoLen ∧ data.errInfoLen < 512) {p : Int}
    (hp : p = f.start + 21 + data.msgReqLen + data.serviceNameLen + data.errInfoLen)
    (hw : p ≤ b.writeIndex) :
    (parsePbData b.buffer f data p).Ensures (Access.Allowed b) fun d => d.decodeSucc → FieldsFit d := by
  have hr := hv.read_nonneg
  have hsz := hv.size_lt
  have hws := hv.write_le_size
  obtain ⟨h1, h2, h3, h4, h5⟩ := hf
  unfold parsePbData
  dsimp only
  refine .ite (fun _ => dropped_ensures hs) (fun hd => ?_)
  rw [wrap32_eq (x := data.pkLen - data.serviceNameLen - data.msgReqLen - data.errInfoLen - 26)
    ⟨by omega, by omega⟩]
  refine Traced.Ensures.bind (Q := fun _ =>
    0 ≤ data.pkLen - data.serviceNameLen - data.msgReqLen - data.errInfoLen - 26) ?_ ?_
  · refine Traced.ensures_access ?_
    intro ha
    obtain ⟨hl, hend⟩ := (allowed_buildString (by omega) hw).mp ha
    exact ⟨_, readRange_some (by omega) hl (by omega), hl⟩
  · intro s hl
    refine Traced.ensures_pure ?_
    intro _
    exact ⟨hm, hn, hk, by dsimp only; omega⟩

theorem parseErrInfo_ensures (hv : b.Valid) (hf : f.Within b) (hs : data.decodeSucc = false)
    (hpk : data.pkLen = f.pkLen) (hm : 0 < data.msgReqLen ∧ data.msgReqLen < 50)
    (hn : 0 ≤ data.serviceNameLen ∧ data.serviceNameLen < 512) {p : Int}
    (hp : p = f.start + 17 + data.msgReqLen + data.serviceNameLen) :
    (parseErrInfo b.buffer f data p).Ensures (Access.Allowed b) fun d => d.decodeSucc → FieldsFit d := by
  have hr := hv.read_nonneg
  have hsz := hv.size_lt
  have hws := hv.write_le_size
  have h1 := hf.start_ge
  unfold parseErrInfo
  dsimp only
  refine .ite (fun _ => dropped_ensures hs) (fun hd => ?_)
  refine Traced.Ensures.bind (getInt32_ensures hv) ?_
  rintro k ⟨_, hx⟩
  rw [wrap32_eq (x := p + 4) ⟨by omega, by omega⟩]
  refine Traced.Ensures.bind (copyField_ensures hv (by omega) (by omega)) ?_
  rintro s ⟨hk0, hk1, hk2⟩
  rw [wrap32_eq (x := p + 4 + k) ⟨by omega, by omega⟩]
  apply parsePbData_ensures hv hf
  · exact hs
  · exact hpk
  · exact hm
  · exact hn
  · exact ⟨hk0, hk1⟩
  · dsimp only; omega
  · omega

theorem parseServiceName_ensures (hv : b.Valid) (hf : f.Within b) (hs : data.decodeSucc = false)
    (hpk : data.pkLen = f.pkLen) (hm : 0 < data.msgReqLen ∧ data.msgReqLen < 50) {p : Int}
    (hp : p = f.start + 9 + data.msgReqLen) :
    (parseServiceName b.buffer f data p).Ensures (Access.Allowed b) fun d =>
      d.decodeSucc → FieldsFit d := by
  have hr := hv.read_nonneg
  have hsz := hv.size_lt
  have hws := hv.write_le_size
  have h1 := hf.start_ge
  unfold parseServiceName
  dsimp only
  refine .ite (fun _ => dropped_ensures hs) (fun _ => ?_)
  refine .ite (fun _ => dropped_ensures hs) (fun _ => ?_)
  refine Traced.Ensures.bind (getInt32_ensures hv) ?_
  rintro n ⟨_, hx⟩
  refine .ite (fun _ => dropped_ensures hs) (fun _ => ?_)
  rw [wrap32_eq (x := p + 4) ⟨by omega, by omega⟩]
  refine Traced.Ensures.bind (copyField_ensures hv (by omega) (by omega)) ?_
  rintro s ⟨hn0, hn1, hn2⟩
  rw [wrap32_eq (x := p + 4 + n) ⟨by omega, by omega⟩]
  refine Traced.Ensures.bind (getInt32_ensures hv) ?_
  rintro e ⟨_, hx'⟩
  rw [wrap32_eq (x := p + 4 + n + 4) ⟨by omega, by omega⟩]
  apply parseErrInfo_ensures hv hf
  · exact hs
  · exact hpk
  · exact hm
  · exact ⟨hn0, hn1⟩
  · dsimp only; omega

theorem parseFrame_ensures (hv : b.Valid) (hf : f.Within b) :
    (parseFrame b.buffer f data).Ensures (Access.Allowed b) fun d => d.decodeSucc → FieldsFit d := by
  have hr := hv.read_nonneg
  have hsz := hv.size_lt
  have hws := hv.write_le_size
  have h1 := hf.start_ge
  have h4 := hf.start_lt
  unfold parseFrame
  dsimp only
  refine .ite (fun _ => dropped_ensures rfl) (fun hd => ?_)
  intro hsafe
  have hover : f.start + 5 < 2147483648 := by
    have hload := ((Traced.safe_bind _ _).mp hsafe).1
    have := allowed_loadWord.mp ((Traced.safe_access _ _).mp hload)
    simp only [wrap32] at this
    omega
  revert hsafe
  rw [wrap32_eq (x := f.start + 5) ⟨by omega, hover⟩]
  refine Traced.Ensures.bind (getInt32_ensures hv) ?_
  rintro m ⟨_, hx⟩
  refine .ite (fun _ => dropped_ensures rfl) (fun hz => ?_)
  rw [wrap32_eq (x := f.start + 5 + 4) ⟨by omega, by omega⟩]
  refine Traced.Ensures.bind (copyField_ensures hv (by omega) (by omega)) ?_
  rintro s ⟨hm0, hm1, hm2⟩
  rw [wrap32_eq (x := f.start + 5 + 4 + m) ⟨by omega, by omega⟩]
  apply parseServiceName_ensures hv hf
  · rfl
  · rfl
  · exact ⟨by dsimp only; omega, hm1⟩
  · dsimp only; omega

/-! ## The fields of accepted data -/

/-- The text fields are NUL-free and shorter than the arrays that they went through. -/
structure ShortFields (d : TinyPbStruct) : Prop where
  msgSeq : d.msgSeq.length < 50 ∧ (0 : UInt8) ∉ d.msgSeq
  serviceName : d.serviceFullName.length < 512 ∧ (0 : UInt8) ∉ d.serviceFullName
  errInfo : d.errInfo.length < 512 ∧ (0 : UInt8) ∉ d.errInfo

theorem copyField_delivers {cap : Nat} {tmp : Bytes} {p len : Int} :
    (copyField cap tmp p len).Delivers fun s => s.length < cap ∧ (0 : UInt8) ∉ s := by
  refine Traced.delivers_access fun s hs => ?_
  split at hs
  · rename_i hcap
    obtain ⟨r, hr, hs⟩ := Option.bind_eq_some_iff.mp hs
    have hlen := readRange_length hr
    have hlt := cString_length_lt hs
    rw [List.length_append, List.length_replicate] at hlt
    exact ⟨by omega, cString_no_zero hs⟩
  · cases hs

theorem dropped_delivers {d : TinyPbStruct} (h : d.decodeSucc = false) :
    (pure d : Traced Access TinyPbStruct).Delivers fun d => d.decodeSucc → ShortFields d :=
  Traced.delivers_pure fun hd => by rw [h] at hd; cases hd

theorem parsePbData_delivers {tmp : Bytes} {p : Int} (hs : ShortFields data) :
    (parsePbData tmp f data p).Delivers fun d => d.decodeSucc → ShortFields d := by
  unfold parsePbData
  refine .ite (fun _ => Traced.delivers_pure fun _ => hs) (fun _ => ?_)
  exact .bind Traced.delivers_any fun pb _ => Traced.delivers_pure fun _ => ⟨hs.msgSeq, hs.serviceName, hs.errInfo⟩

theorem parseErrInfo_delivers {tmp : Bytes} {p : Int} (hd : data.decodeSucc = false)
    (hm : data.msgSeq.length < 50 ∧ (0 : UInt8) ∉ data.msgSeq)
    (hn : data.serviceFullName.length < 512 ∧ (0 : UInt8) ∉ data.serviceFullName) :
    (parseErrInfo tmp f data p).Delivers fun d => d.decodeSucc → ShortFields d := by
  unfold parseErrInfo
  refine .ite (fun _ => dropped_delivers hd) (fun _ => ?_)
  refine .bind Traced.delivers_any fun k _ => ?_
  exact .bind copyField_delivers fun s hs => parsePbData_delivers ⟨hm, hn, hs⟩

theorem parseServiceName_delivers {tmp : Bytes} {p : Int} (hd : data.decodeSucc = false)
    (hm : data.msgSeq.length < 50 ∧ (0 : UInt8) ∉ data.msgSeq) :
    (parseServiceName tmp f data p).Delivers fun d => d.decodeSucc → ShortFields d := by
  unfold parseServiceName
  refine .ite (fun _ => dropped_delivers hd) (fun _ => ?_)
  refine .ite (fun _ => dropped_delivers hd) (fun _ => ?_)
  refine .bind Traced.delivers_any fun n _ => ?_
  refine .ite (fun _ => dropped_delivers hd) (fun _ => ?_)
  refine .bind copyField_delivers fun s hs => ?_
  exact .bind Traced.delivers_any fun e _ => parseErrInfo_delivers hd hm hs

theorem parseFrame_delivers {tmp : Bytes} :
    (parseFrame tmp f data).Delivers fun d => d.decodeSucc → ShortFields d := by
  unfold parseFrame
  refine .ite (fun _ => dropped_delivers rfl) (fun _ => ?_)
  refine .bind Traced.delivers_any fun m _ => ?_
  refine .ite (fun _ => dropped_delivers rfl) (fun _ => ?_)
  exact .bind copyField_delivers fun s hs => parseServiceName_delivers rfl hs

end Tirpc
