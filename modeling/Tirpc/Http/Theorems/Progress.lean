import Tirpc.Http.Lemmas.Decode

/-!
# A request that is accepted is complete, and gone

`Decode` reports success for a lone request line without parsing or consuming anything, so `Execute`
calls it for ever. A negative length of a POST moves the read index back, and the body that a GET
announces stays in the buffer. In all other calls a success stands for one complete request.
-/

namespace Tirpc

open Lib TcpBuffer HttpCodeC

/-- `r` is the request at the front of `q`, with the body that it announces. -/
def CompleteRequest (q : Bytes) (r : HttpRequest) : Prop :=
  ∃ r₂ rest, parsedHead q = some (r₂, rest) ∧ announcedLength r₂ ≤ rest.length ∧
    r = { lookedUp r₂ with requestBody := rest.take (announcedLength r₂).toNat, decodeSucc := true }

def Advances (b b' : TcpBuffer) : Prop :=
  b'.Valid ∧ ∃ k, 1 ≤ k ∧ k ≤ b.content.length ∧ b'.content = b.content.drop k

/-- If the call of `Decode` succeeds, it has parsed a complete request and advanced. -/
def SuccessIsRequest (b : TcpBuffer) : Prop :=
  ∀ b' r, HttpCodeC.decode b {} = some (b', r) → r.decodeSucc = true → CompleteRequest b.content r ∧ Advances b b'

/-- A POST announces a length that is a positive `int`, or a negative one with nothing behind the
header block and less than that to go back; everything else announces no body. -/
def BodyFits (method : Option HttpMethod) (announced : Int) (rest : Bytes) (head : Int) : Prop :=
  if method = some .POST ∧ longToInt announced ≠ 0 then
    0 < longToInt announced ∧ announced = longToInt announced ∨
      longToInt announced < 0 ∧ announced ≤ 0 ∧ rest = [] ∧ 1 ≤ head + longToInt announced
  else announced ≤ 0

instance (method : Option HttpMethod) (announced : Int) (rest : Bytes) (head : Int) :
    Decidable (BodyFits method announced rest head) := by unfold BodyFits; infer_instance

/-- The text is no lone line, and a request whose body has arrived fits its announcement. -/
def TextFits (q : Bytes) : Prop :=
  find g_crlf q ≠ some (q.length - 2) ∧
    ∀ r rest, parsedHead q = some (r, rest) → longToInt (announcedLength r) ≤ rest.length →
      BodyFits r.requestMethod (announcedLength r) rest ((q.length : Int) - rest.length)

instance (q : Bytes) : Decidable (TextFits q) :=
  decidable_of_iff (find g_crlf q ≠ some (q.length - 2) ∧ ∀ p ∈ parsedHead q,
      longToInt (announcedLength p.1) ≤ p.2.length →
        BodyFits p.1.requestMethod (announcedLength p.1) p.2 ((q.length : Int) - p.2.length))
    ⟨fun h => ⟨h.1, fun r rest hp => h.2 (r, rest) hp⟩, fun h => ⟨h.1, fun p hp => h.2 p.1 p.2 hp⟩⟩

variable {b b' : TcpBuffer} {q rest : Bytes} {r : HttpRequest} {σ : Type}

/-! ## One call -/

theorem CompleteRequest.body (h : CompleteRequest q r) {r₂ : HttpRequest}
    (hp : parsedHead q = some (r₂, rest)) :
    announcedLength r₂ ≤ rest.length ∧ r.requestBody = rest.take (announcedLength r₂).toNat := by
  obtain ⟨r₂', rest', hp', hle, rfl⟩ := h
  rw [hp] at hp'
  cases hp'
  exact ⟨hle, rfl⟩

theorem advances_length (h : Advances b b') : b'.content.length < b.content.length := by
  obtain ⟨-, k, h1, h2, h3⟩ := h
  rw [h3, List.length_drop]
  omega

theorem readSize_le (method : Option HttpMethod) (head : Int) {n : Int} (h : n ≤ rest.length) :
    readSize method n head ≤ head + rest.length := by
  simp only [readSize]
  split <;> omega

/-- The announcement fits exactly if the call moves forward and stores the body that is announced. -/
theorem bodyFits_iff {method : Option HttpMethod} {n head : Int} (hhead : 1 ≤ head)
    (hrest : rest.length < 2147483648) (hle : longToInt n ≤ rest.length) :
    BodyFits method n rest head ↔ 1 ≤ readSize method (longToInt n) head ∧ n ≤ rest.length ∧
      storedBody method (longToInt n) rest = rest.take n.toNat := by
  simp only [BodyFits, readSize, storedBody]
  by_cases hpost : method = some .POST ∧ longToInt n ≠ 0
  · rw [if_pos hpost, if_pos hpost, if_pos hpost]
    by_cases hneg : longToInt n < 0
    · rw [if_pos hneg]
      constructor
      · rintro (⟨hpos, -⟩ | ⟨-, hn, rfl, hback⟩)
        · omega
        · exact ⟨by omega, by simpa using hn, List.take_nil.symm⟩
      · rintro ⟨hsize, hfit, hbody⟩
        -- the whole rest is a body of the announced length only if both are empty
        have hn : n ≤ 0 := by
          refine Int.not_lt.mp fun hpos => ?_
          have hint : longToInt n = n := longToInt_eq ⟨by omega, by omega⟩
          omega
        rw [Int.toNat_of_nonpos hn, List.take_zero] at hbody
        exact .inr ⟨hneg, hn, hbody, hsize⟩
    · rw [if_neg hneg]
      constructor
      · rintro (⟨hpos, heq⟩ | ⟨hneg', -⟩)
        · exact ⟨by omega, by omega, by rw [← heq]⟩
        · exact absurd hneg' hneg
      · rintro ⟨-, hfit, hbody⟩
        have hlen := congrArg List.length hbody
        rw [List.length_take, List.length_take] at hlen
        exact .inl ⟨by omega, by omega⟩
  · rw [if_neg hpost, if_neg hpost, if_neg hpost]
    constructor
    · intro hn
      exact ⟨hhead, by omega, by rw [Int.toNat_of_nonpos hn, List.take_zero]⟩
    · rintro ⟨-, hfit, hbody⟩
      have hlen := congrArg List.length hbody
      rw [List.length_take, List.length_nil] at hlen
      omega

theorem successIsRequest_of_textFits (hv : b.Valid) (h : TextFits b.content) : SuccessIsRequest b := by
  intro b' r hd hsucc
  obtain ⟨hline, hfits⟩ := h
  have hshort := hv.content_lt
  cases hp : parsedHead b.content with
  | none =>
      rw [(decode_no_head hv.holds hline hp hd).2] at hsucc
      cases hsucc
  | some p =>
      obtain ⟨r₂, rest⟩ := p
      have hhead := parsedHead_length hp
      rw [decode_of_head hv.holds hline hp] at hd
      split at hd
      · cases hd
        rw [show (lookedUp r₂).decodeSucc = r₂.decodeSucc from rfl, parsedHead_decodeSucc hp] at hsucc
        cases hsucc
      · rename_i hle
        have hle' : longToInt (announcedLength r₂) ≤ rest.length := Int.not_lt.mp hle
        obtain ⟨h1, h2, h3⟩ := (bodyFits_iff (by omega) (by omega) hle').mp (hfits r₂ rest hp hle')
        have hmax := readSize_le r₂.requestMethod (b.content.length - rest.length) hle'
        obtain ⟨b₁, hb₁, hr⟩ := Option.map_eq_some_iff.mp hd
        cases hr
        obtain ⟨b₂, e, hb₂, -⟩ := hv.holds.recycleRead (Int.le_trans (by decide) h1) (by omega)
        rw [e] at hb₁
        cases hb₁
        exact ⟨⟨r₂, rest, hp, h2, by rw [h3]⟩, hb₂.valid, _, by omega, by omega, hb₂.content_eq⟩

theorem bodyFits_of_success (hv : b.Valid) (h : SuccessIsRequest b)
    (hline : find g_crlf b.content ≠ some (b.content.length - 2)) (hp : parsedHead b.content = some (r, rest))
    (hle : longToInt (announcedLength r) ≤ rest.length) :
    BodyFits r.requestMethod (announcedLength r) rest ((b.content.length : Int) - rest.length) := by
  have hhead := parsedHead_length hp
  have hrange : IsInt32 (longToInt (announcedLength r)) := isInt32_wrap32 _
  have hread := hv.read_nonneg
  have hshort := hv.content_lt
  have hd := decode_of_head hv.holds hline hp
  rw [if_neg (Int.not_lt.mpr hle)] at hd
  have hmax := readSize_le r.requestMethod (b.content.length - rest.length) hle
  obtain ⟨b', e, hlen⟩ := hv.holds.recycleRead_any (Int.le_trans hmax (by omega)) (by
    simp only [IsInt32] at hrange
    simp only [readSize]
    split <;> omega)
  rw [e] at hd
  obtain ⟨hcomplete, hadv⟩ := h _ _ hd rfl
  obtain ⟨hfit, hbody⟩ := hcomplete.body hp
  have hlt := advances_length hadv
  have hl := hlen hadv.1
  exact (bodyFits_iff (by omega) (by omega) hle).mpr ⟨by omega, hfit, hbody⟩

theorem successIsRequest_iff (hv : b.Valid) : SuccessIsRequest b ↔ TextFits b.content := by
  refine ⟨fun h => ?_, successIsRequest_of_textFits hv⟩
  have hline : find g_crlf b.content ≠ some (b.content.length - 2) := by
    intro hfound
    obtain ⟨-, hadv⟩ := h _ _ (decode_lone_line hv.holds hfound) rfl
    exact absurd (advances_length hadv) (Nat.lt_irrefl _)
  exact ⟨hline, fun r rest hp hle => bodyFits_of_success hv h hline hp hle⟩

/-! ## `Execute` -/

theorem decode_fails (hv : b.Valid) (hline : find g_crlf b.content ≠ some (b.content.length - 2))
    (hd : HttpCodeC.decode b {} = some (b', r)) (hsucc : r.decodeSucc = false) : b' = b := by
  cases hp : parsedHead b.content with
  | none => exact (decode_no_head hv.holds hline hp hd).1
  | some p =>
      obtain ⟨r₂, rest⟩ := p
      rw [decode_of_head hv.holds hline hp] at hd
      split at hd
      · cases hd
        rfl
      · obtain ⟨b₁, -, hr⟩ := Option.map_eq_some_iff.mp hd
        cases hr
        cases hsucc

variable {handle : HttpRequest → σ → Option σ} {t : σ}

theorem execute_step {s s' : TcpBuffer × σ} (hv : s.1.Valid)
    (hfits : 0 < s.1.readable → TextFits s.1.content) (ht : executeTurn httpCodeC handle s = .again s') :
    s'.1.Valid ∧ s'.1.content.length < s.1.content.length := by
  obtain ⟨hr, d, hd, hsucc, -⟩ := executeTurn_again ht
  obtain ⟨-, hadv⟩ := successIsRequest_of_textFits hv (hfits hr) _ _ hd hsucc
  exact ⟨hadv.1, advances_length hadv⟩

/-- The states from which such a run calls `Decode`. -/
def CallsFit (handle : HttpRequest → σ → Option σ) (b : TcpBuffer) (t : σ) : Prop :=
  ∀ k s, afterTurns (executeTurn httpCodeC handle) k (b, t) = some s → 0 < s.1.readable → TextFits s.1.content

theorem execute_terminates (hv : b.Valid) (h : CallsFit handle b t) :
    Terminates (executeTurn httpCodeC handle) (b, t) ∧
      ∀ s, Ends (executeTurn httpCodeC handle) (b, t) (some s) → s.1.Valid := by
  have hstep : ∀ s s', (s.1.Valid ∧ ∃ k, afterTurns (executeTurn httpCodeC handle) k (b, t) = some s) →
      executeTurn httpCodeC handle s = .again s' →
      (s'.1.Valid ∧ ∃ k, afterTurns (executeTurn httpCodeC handle) k (b, t) = some s') ∧
        s'.1.content.length < s.1.content.length := by
    rintro s s' ⟨hs, k, hk⟩ ht
    obtain ⟨hs', hlt⟩ := execute_step hs (h k s hk) ht
    exact ⟨⟨hs', k + 1, afterTurns_succ.mpr ⟨s, hk, ht⟩⟩, hlt⟩
  have hstart : b.Valid ∧ ∃ k, afterTurns (executeTurn httpCodeC handle) k (b, t) = some (b, t) :=
    ⟨hv, 0, rfl⟩
  refine ⟨terminates_of_measure (fun s => s.1.content.length) hstep hstart, ?_⟩
  intro s hs
  obtain ⟨s₀, ⟨hv₀, k, hk⟩, hexit⟩ := hs.invariant (fun s s' hI ht => (hstep s s' hI ht).1) hstart
  rcases executeTurn_exit hexit with rfl | ⟨hr, d, hd, hsucc⟩
  · exact hv₀
  · rw [decode_fails hv₀ (h k s₀ hk hr).1 hd hsucc]
    exact hv₀

/-- For every buffer: a success of `Decode` stands for one complete request that is consumed exactly if
the text fits; and `Execute` terminates with a buffer in order if the text of each of its calls does. -/
theorem http_execute_fits (hv : b.Valid) (handle : HttpRequest → σ → Option σ) (t : σ) :
    (SuccessIsRequest b ↔ TextFits b.content) ∧
      (CallsFit handle b t → Terminates (executeTurn httpCodeC handle) (b, t) ∧
        ∀ s, Ends (executeTurn httpCodeC handle) (b, t) (some s) → s.1.Valid) :=
  ⟨successIsRequest_iff hv, execute_terminates hv⟩

/-! ## A lone request line -/

def loneLine : TcpBuffer :=
  { buffer := text "GET / HTTP/1.1" ++ g_crlf, readIndex := 0, writeIndex := 16 }

/-- `Decode` accepts the lone line over and over. -/
theorem lone_line_loops : loneLine.Valid ∧ ¬SuccessIsRequest loneLine ∧
    ¬Terminates (executeTurn httpCodeC fun _ (t : Unit) => some t) (loneLine, ()) := by
  have hv : loneLine.Valid := by decide
  have hd : HttpCodeC.decode loneLine {} = some (loneLine, { decodeSucc := true }) := by decide
  refine ⟨hv, ?_, ?_⟩
  · intro h
    exact absurd (advances_length (h _ _ hd rfl).2) (Nat.lt_irrefl _)
  · refine not_terminates (I := fun s => s.1 = loneLine) ?_ rfl
    rintro ⟨b, t⟩ hb
    simp only at hb
    subst hb
    refine ⟨(loneLine, t), ?_, rfl⟩
    have hr : loneLine.readable > 0 := by decide
    simp only [executeTurn, if_pos hr, httpCodeC, hd, ↓reduceIte]

def postReceived : TcpBuffer :=
  { buffer := text "POST /a HTTP/1.1" ++ g_crlf ++ text "Content-Length:2" ++ g_crlf_double ++ text "hi"
    readIndex := 0, writeIndex := 40 }

theorem post_callsFit : CallsFit (fun _ (t : Unit) => some t) postReceived () := by
  have hr : postReceived.readable > 0 := by decide
  have hturn : executeTurn httpCodeC (fun _ (t : Unit) => some t) (postReceived, ()) =
      .again (.new 40, ()) := by
    obtain ⟨r, hd, hsucc⟩ : ∃ r, HttpCodeC.decode postReceived {} = some (.new 40, r) ∧ r.decodeSucc = true :=
      ⟨((HttpCodeC.decode postReceived {}).getD (.new 40, {})).2, by decide, by decide⟩
    simp only [executeTurn, if_pos hr, httpCodeC, hd, hsucc, ↓reduceIte]
  have hafter : ∀ k s, afterTurns (executeTurn httpCodeC fun _ (t : Unit) => some t) (k + 1)
      (postReceived, ()) = some s → s = (.new 40, ()) := by
    intro k
    induction k with
    | zero =>
        intro s hs
        obtain ⟨m, hm, ht⟩ := afterTurns_succ.mp hs
        cases hm
        rw [hturn] at ht
        cases ht
        rfl
    | succ k ih =>
        intro s hs
        obtain ⟨m, hm, ht⟩ := afterTurns_succ.mp hs
        obtain rfl := ih m hm
        exact absurd (executeTurn_again ht).1 (by decide)
  intro k s hs hpos
  cases k with
  | zero =>
      cases hs
      show TextFits postReceived.content
      decide
  | succ k =>
      obtain rfl := hafter k s hs
      exact absurd hpos (by decide)

theorem http_execute_fits_post : (SuccessIsRequest postReceived ↔ TextFits postReceived.content) ∧
    Terminates (executeTurn httpCodeC fun _ (t : Unit) => some t) (postReceived, ()) := by
  have hv : postReceived.Valid := by decide
  obtain ⟨hcall, hrun⟩ := http_execute_fits hv (fun _ (t : Unit) => some t) ()
  exact ⟨hcall, (hrun post_callsFit).1⟩

end Tirpc
