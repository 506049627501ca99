import Mathlib.Logic.Relation
import Tirpc.Http.Lemmas.Decode

/-!
# Requests that arrive in pieces

`Decode` accepts a lone request line at each call, and takes all that has arrived for the body of a POST
with a negative length. In runs that meet neither, the requests handed on are the front requests of the
text, taken off one by one, however it was cut.
-/

namespace Tirpc

open Lib TcpBuffer HttpCodeC

/-! ## The request at the front of a text -/

/-- The number of bytes behind the header block that belong to the request. -/
def bodySize (r : HttpRequest) : Nat :=
  if r.requestMethod = some .POST then (longToInt (announcedLength r)).toNat else 0

/-- The request at the front, once its announced length has arrived, and the text behind it. -/
def frontRequest (q : Bytes) : Option (HttpRequest × Bytes) :=
  (parsedHead q).bind fun p =>
    if p.2.length < longToInt (announcedLength p.1) then none
    else
      some ({ lookedUp p.1 with requestBody := p.2.take (bodySize p.1), decodeSucc := true },
        p.2.drop (bodySize p.1))

/-- An exception leaves the parse of the request line or of the header block. -/
def Throws (q : Bytes) : Prop :=
  ∃ i, find g_crlf q = some i ∧
    (parseHttpRequestLine {} (q.take i) = none ∨
      ∃ r j, parseHttpRequestLine {} (q.take i) = some (true, r) ∧
        find g_crlf_double (q.drop (i + 2)) = some j ∧
        parseHttpRequestHeader r ((q.drop (i + 2)).take j) = none)

/-- The text is no lone line, and a POST whose head has arrived announces no negative length. -/
def CutFits (q : Bytes) : Prop :=
  find g_crlf q ≠ some (q.length - 2) ∧
    ∀ r rest, parsedHead q = some (r, rest) → r.requestMethod = some .POST → 0 ≤ longToInt (announcedLength r)

instance (q : Bytes) : Decidable (CutFits q) :=
  decidable_of_iff (find g_crlf q ≠ some (q.length - 2) ∧ ∀ p ∈ parsedHead q,
      p.1.requestMethod = some .POST → 0 ≤ longToInt (announcedLength p.1))
    ⟨fun h => ⟨h.1, fun r rest hp => h.2 (r, rest) hp⟩, fun h => ⟨h.1, fun p hp => h.2 p.1 p.2 hp⟩⟩

variable {b b' : TcpBuffer} {q rest t : Bytes} {r d : HttpRequest}

theorem find_crlf_drop {i j : Nat} (hi : find g_crlf q = some i)
    (hj : find g_crlf_double (q.drop (i + 2)) = some j) : i + 2 ≤ q.length ∧ j + 4 ≤ (q.drop (i + 2)).length := by
  have h1 := find_le hi
  have h2 := find_le hj
  simp only [g_crlf, g_crlf_double, List.length_cons, List.length_nil] at h1 h2
  exact ⟨h1, h2⟩

theorem parsedHead_append (x : Bytes) (h : parsedHead q = some (r, rest)) :
    parsedHead (q ++ x) = some (r, rest ++ x) := by
  obtain ⟨i, j, r₁, hi, hj, hline, hheader, rfl⟩ := parsedHead_eq h
  obtain ⟨h1, h2⟩ := find_crlf_drop hi hj
  have hdrop : (q ++ x).drop (i + 2) = q.drop (i + 2) ++ x := List.drop_append_of_le_length h1
  simp only [parsedHead, splitRequest, find_append x hi, Option.bind_some, hdrop, find_append x hj,
    Option.map_some]
  rw [List.take_append_of_le_length (by omega), hline, List.take_append_of_le_length (by omega),
    List.drop_append_of_le_length h2]
  simp only [Option.bind_some, ↓reduceIte, hheader, Option.map_some]

/-- The request at the front is the same when more text follows. -/
theorem frontRequest_append (x : Bytes) (h : frontRequest q = some (d, t)) :
    frontRequest (q ++ x) = some (d, t ++ x) := by
  obtain ⟨⟨r, rest⟩, hp, h⟩ := Option.bind_eq_some_iff.mp h
  simp only at h
  split at h
  · cases h
  · rename_i hle
    cases h
    have hsize : bodySize r ≤ rest.length := by
      simp only [bodySize]
      split <;> omega
    simp only [frontRequest, parsedHead_append x hp, Option.bind_some]
    rw [if_neg (by rw [List.length_append]; omega), List.take_append_of_le_length hsize,
      List.drop_append_of_le_length hsize]

theorem throws_append (x : Bytes) (h : Throws q) : Throws (q ++ x) := by
  obtain ⟨i, hi, h⟩ := h
  have hle : i + 2 ≤ q.length := find_le hi
  refine ⟨i, find_append x hi, ?_⟩
  rw [List.take_append_of_le_length (by omega), List.drop_append_of_le_length hle]
  refine h.imp id ?_
  rintro ⟨r, j, hline, hj, hheader⟩
  have hle' := (find_crlf_drop hi hj).2
  exact ⟨r, j, hline, find_append x hj, by rwa [List.take_append_of_le_length (by omega)]⟩

theorem frontRequest_throws (h : Throws q) : frontRequest q = none := by
  cases hp : parsedHead q with
  | none => simp only [frontRequest, hp, Option.bind_none]
  | some p =>
      obtain ⟨r₂, rest⟩ := p
      obtain ⟨i, j, r₁, hi, hj, hline, hheader, -⟩ := parsedHead_eq hp
      obtain ⟨i', hi', h⟩ := h
      cases hi.symm.trans hi'
      rcases h with h | ⟨r, j', hline', hj', hheader'⟩
      · cases hline.symm.trans h
      · cases hline.symm.trans hline'
        cases hj.symm.trans hj'
        cases hheader.symm.trans hheader'

/-! ## One call of `Decode` -/

theorem parsedHead_rest (h : parsedHead q = some (r, rest)) :
    rest.length ≤ q.length ∧ q.drop (q.length - rest.length) = rest := by
  obtain ⟨i, j, r₁, hi, hj, -, -, rfl⟩ := parsedHead_eq h
  obtain ⟨h1, h2⟩ := find_crlf_drop hi hj
  rw [List.drop_drop]
  simp only [List.length_drop] at h2 ⊢
  exact ⟨by omega, by congr 1; omega⟩

theorem decode_frontRequest (hb : b.Holds q) (hfit : CutFits q) (h : frontRequest q = some (d, t)) :
    ∃ b', HttpCodeC.decode b {} = some (b', d) ∧ d.decodeSucc = true ∧ b'.Holds t ∧ t.length < q.length := by
  obtain ⟨⟨r, rest⟩, hp, h⟩ := Option.bind_eq_some_iff.mp h
  simp only at h
  split at h
  · cases h
  · rename_i hle
    cases h
    have hhead := parsedHead_length hp
    obtain ⟨hrest, hdrop⟩ := parsedHead_rest hp
    have hpost := hfit.2 r rest hp
    have hsize : readSize r.requestMethod (longToInt (announcedLength r)) (q.length - rest.length) =
        (q.length - rest.length : Int) + bodySize r := by
      simp only [readSize, bodySize]
      by_cases hm : r.requestMethod = some .POST
      · have hn := hpost hm
        simp only [hm, true_and, ↓reduceIte]
        split <;> omega
      · simp [hm]
    have hbody : storedBody r.requestMethod (longToInt (announcedLength r)) rest = rest.take (bodySize r) := by
      simp only [storedBody, bodySize]
      by_cases hm : r.requestMethod = some .POST
      · by_cases hz : longToInt (announcedLength r) = 0
        · simp [hz]
        · simp [hm, hz, Int.not_lt.mpr (hpost hm)]
      · simp [hm]
    have hle' : bodySize r ≤ rest.length := by
      simp only [bodySize]
      split <;> omega
    obtain ⟨b', e, hb', -⟩ := hb.recycleRead (k := (q.length - rest.length : Int) + bodySize r) (by omega) (by omega)
    refine ⟨b', ?_, rfl, ?_, ?_⟩
    · rw [decode_of_head hb hfit.1 hp, if_neg hle, hsize, e, hbody]
      rfl
    · rw [show (((q.length : Int) - rest.length) + bodySize r).toNat =
          (q.length - rest.length) + bodySize r by omega, ← List.drop_drop, hdrop] at hb'
      exact hb'
    · rw [List.length_drop]
      omega

theorem decode_no_request (hb : b.Holds q) (hfit : CutFits q) (h : frontRequest q = none)
    (hd : HttpCodeC.decode b {} = some (b', r)) : b' = b ∧ r.decodeSucc = false := by
  cases hp : parsedHead q with
  | none => exact decode_no_head hb hfit.1 hp hd
  | some p =>
      obtain ⟨r₂, rest⟩ := p
      have hlt : (rest.length : Int) < longToInt (announcedLength r₂) := by
        simpa [frontRequest, hp] using h
      rw [decode_of_head hb hfit.1 hp, if_pos hlt] at hd
      cases hd
      have hsucc := parsedHead_decodeSucc hp
      exact ⟨rfl, hsucc⟩

theorem decode_throws (hb : b.Holds q) (hfit : CutFits q) (hd : HttpCodeC.decode b {} = none) : Throws q := by
  cases hp : parsedHead q with
  | some p =>
      obtain ⟨r₂, rest⟩ := p
      cases hf : frontRequest q with
      | some f =>
          obtain ⟨b', hd', -⟩ := decode_frontRequest hb hfit (d := f.1) (t := f.2) hf
          cases hd.symm.trans hd'
      | none =>
          have hlt : (rest.length : Int) < longToInt (announcedLength r₂) := by
            simpa [frontRequest, hp] using hf
          rw [decode_of_head hb hfit.1 hp, if_pos hlt] at hd
          cases hd
  | none =>
      simp only [HttpCodeC.decode, hb.getBufferString_eq, Option.bind_some] at hd
      split at hd
      · cases hd
      · rename_i i hi
        refine ⟨i, hi, ?_⟩
        have hne : i ≠ q.length - 2 := fun he => hfit.1 (he ▸ hi)
        rw [if_neg hne] at hd
        cases hline : parseHttpRequestLine {} (q.take i) with
        | none => exact .inl rfl
        | some l =>
            obtain ⟨ok, r₁⟩ := l
            rw [hline, Option.bind_some] at hd
            cases ok with
            | false => cases hd
            | true =>
                simp only [↓reduceIte, decodeHeader] at hd
                split at hd
                · cases hd
                · rename_i j hj
                  cases hheader : parseHttpRequestHeader r₁ ((q.drop (i + 2)).take j) with
                  | none => exact .inr ⟨r₁, j, rfl, hj, hheader⟩
                  | some l =>
                      simp [parsedHead, splitRequest, hi, hj, hline, hheader] at hp

/-! ## Runs -/

/-- The front request is taken off the text and handed on. -/
def FrontStep (a b : List HttpRequest × Bytes) : Prop :=
  ∃ d, frontRequest a.2 = some (d, b.2) ∧ b.1 = a.1 ++ [d]

theorem frontStep_unique : Relator.RightUnique FrontStep := by
  rintro a ⟨ds, t⟩ ⟨es, u⟩ ⟨d, hd, hds⟩ ⟨e, he, hes⟩
  cases hd.symm.trans he
  cases hds
  cases hes
  rfl

theorem frontSteps_prefix {a b : List HttpRequest × Bytes} (h : Relation.ReflTransGen FrontStep a b) :
    a.1 <+: b.1 := by
  induction h with
  | refl => exact List.prefix_rfl
  | tail _ h ih =>
      obtain ⟨d, -, hb⟩ := h
      exact ih.trans ⟨[d], hb.symm⟩

def FitTurns (s : StreamState HttpRequest) : StreamStep → Prop
  | .arrive _ => True
  | .turn => 0 < s.buf.readable → CutFits s.buf.content

instance : (s : StreamState HttpRequest) → (l : StreamStep) → Decidable (FitTurns s l)
  | _, .arrive _ => inferInstanceAs (Decidable True)
  | s, .turn => inferInstanceAs (Decidable (0 < s.buf.readable → CutFits s.buf.content))

abbrev FitRun (chunks : List Bytes) (s : StreamState HttpRequest) : Prop :=
  Reachable (streamNext httpCodeC) (StreamStart chunks) FitTurns s

/-- The text that has not been taken off: what is readable and what has not arrived. -/
def StreamState.ahead (s : StreamState HttpRequest) : Bytes := s.buf.content ++ s.pending.flatten

/-- The data handed on are the front requests of `sent`, in their order. -/
structure TakenFrom (sent : Bytes) (s : StreamState HttpRequest) : Prop where
  valid : s.buf.Valid
  taken : Relation.ReflTransGen FrontStep ([], sent) (s.dispatched, s.ahead)
  waiting : s.executing = false → frontRequest s.buf.content = none

variable {s s' : StreamState HttpRequest} {sent : Bytes}

/-- One turn of `Execute`: a front request is handed on, or `Execute` waits for more, or an exception
leaves it. -/
theorem TakenFrom.turn (h : TakenFrom sent s) (he : s.executing = true) (hok : FitTurns s .turn) :
    (∃ s', streamNext httpCodeC s .turn = some s' ∧ TakenFrom sent s' ∧
      (s'.executing = false ∨ s'.buf.content.length < s.buf.content.length)) ∨
    streamNext httpCodeC s .turn = none ∧ Throws s.buf.content := by
  by_cases hr : 0 < s.buf.readable
  · have hfit := hok hr
    cases hf : frontRequest s.buf.content with
    | some f =>
        obtain ⟨b', hd, hsucc, hb', hlt⟩ := decode_frontRequest h.valid.holds hfit (d := f.1) (t := f.2) hf
        refine .inl ⟨_, streamNext_decoded httpCodeC he hr hd, ?_⟩
        rw [show httpCodeC.decodeSucc f.1 = true from hsucc]
        refine ⟨⟨hb'.valid, h.taken.tail ⟨f.1, ?_, rfl⟩, fun hno => ?_⟩, .inr ?_⟩
        · show frontRequest (s.buf.content ++ s.pending.flatten) = some (f.1, b'.content ++ s.pending.flatten)
          rw [hb'.content_eq]
          exact frontRequest_append _ hf
        · cases he.symm.trans hno
        · show b'.content.length < _
          rw [hb'.content_eq]
          exact hlt
    | none =>
        cases hd : HttpCodeC.decode s.buf {} with
        | none =>
            refine .inr ⟨?_, decode_throws h.valid.holds hfit hd⟩
            have hd' : httpCodeC.decode s.buf httpCodeC.genDataPtr = none := hd
            simp only [streamNext, executeTurn, he, ↓reduceIte, if_pos hr, hd']
        | some p =>
            obtain ⟨b', r⟩ := p
            obtain ⟨hb', hsucc⟩ := decode_no_request h.valid.holds hfit hf hd
            refine .inl ⟨{ s with buf := b', executing := false }, ?_, ?_, .inl rfl⟩
            · rw [streamNext_decoded httpCodeC he hr hd, show httpCodeC.decodeSucc r = false from hsucc]
              rfl
            · rw [hb']
              exact ⟨h.valid, h.taken, fun _ => hf⟩
  · refine .inl ⟨{ s with executing := false }, ?_, ⟨h.valid, h.taken, fun _ => ?_⟩, .inl rfl⟩
    · simp only [streamNext, executeTurn, he, ↓reduceIte, if_neg hr]
    · rw [h.valid.content_nil hr]
      rfl

theorem takenFrom_step {l : StreamStep} (h : TakenFrom sent s) (hok : FitTurns s l)
    (hn : streamNext httpCodeC s l = some s') : TakenFrom sent s' := by
  cases l with
  | arrive buf =>
      obtain ⟨c, cs, hp, -, happ, rfl⟩ := streamNext_arrive hn
      refine ⟨happ.1, ?_, fun hf => by cases hf⟩
      have hahead : s.ahead = buf.content ++ cs.flatten := by
        simp only [StreamState.ahead, hp, happ.2, List.flatten_cons, List.append_assoc]
      have htaken := h.taken
      rw [hahead] at htaken
      exact htaken
  | turn =>
      have he : s.executing = true := by
        rcases streamNext_turn hn with ⟨_, _, he, -⟩ | ⟨he, -⟩ <;> exact he
      rcases h.turn he hok with ⟨t, ht, hin, -⟩ | ⟨ht, -⟩
      · cases hn.symm.trans ht
        exact hin
      · cases hn.symm.trans ht

theorem takenFrom_reachable {chunks : List Bytes} (hc : chunks.flatten = sent) (h : FitRun chunks s) :
    TakenFrom sent s := by
  refine h.invariant (I := TakenFrom sent) ?_ fun s s' l h hok hn => takenFrom_step h hok hn
  rintro s ⟨hb, rfl, he, hd⟩
  have hahead : s.ahead = sent := by rw [StreamState.ahead, hb.content_eq, hc, List.nil_append]
  refine ⟨hb.valid, ?_, fun _ => ?_⟩
  · rw [hd, hahead]
  · rw [hb.content_eq]
    rfl

/-- All chunks have been decoded as far as they go, or an exception has stopped the run. -/
def Over (s : StreamState HttpRequest) : Prop :=
  s.Done ∨ s.executing = true ∧ FitTurns s .turn ∧ streamNext httpCodeC s .turn = none

theorem over_no_step (h : TakenFrom sent s) (hover : Over s) : frontRequest s.ahead = none := by
  rcases hover with ⟨hp, he⟩ | ⟨he, hok, hn⟩
  · rw [StreamState.ahead, hp, List.flatten_nil, List.append_nil]
    exact h.waiting he
  · rcases h.turn he hok with ⟨t, ht, -⟩ | ⟨-, ht⟩
    · cases hn.symm.trans ht
    · exact frontRequest_throws (throws_append _ ht)

theorem over_steps_eq {a b : List HttpRequest × Bytes} (h : Relation.ReflTransGen FrontStep a b)
    (ha : frontRequest a.2 = none) : a.1 = b.1 := by
  cases h using Relation.ReflTransGen.head_induction_on with
  | refl => rfl
  | head hstep _ =>
      obtain ⟨d, hd, -⟩ := hstep
      cases ha.symm.trans hd

/-- Runs over the same text whose calls all fit: every turn hands on a request and shortens the buffer, or
ends its `Execute`, or throws; of the sequences handed on, one goes on from the other; and when both
runs are over, the sequences are the same. -/
theorem http_segmentation_irrelevant (sent : Bytes) :
    (∀ c s, c.flatten = sent → FitRun c s → s.executing = true → FitTurns s .turn →
      (∃ s', streamNext httpCodeC s .turn = some s' ∧
        (s'.executing = false ∨ s'.buf.content.length < s.buf.content.length)) ∨ Over s) ∧
    ∀ c₁ c₂ s₁ s₂, c₁.flatten = sent → c₂.flatten = sent → FitRun c₁ s₁ → FitRun c₂ s₂ →
      (s₁.dispatched <+: s₂.dispatched ∨ s₂.dispatched <+: s₁.dispatched) ∧
      (Over s₁ → Over s₂ → s₁.dispatched = s₂.dispatched) := by
  refine ⟨fun c s hc hs he hok => ?_, fun c₁ c₂ s₁ s₂ hc₁ hc₂ hs₁ hs₂ => ?_⟩
  · rcases (takenFrom_reachable hc hs).turn he hok with ⟨s', hn, -, hcase⟩ | ⟨hn, -⟩
    · exact .inl ⟨s', hn, hcase⟩
    · exact .inr (.inr ⟨he, hok, hn⟩)
  · have h₁ := takenFrom_reachable hc₁ hs₁
    have h₂ := takenFrom_reachable hc₂ hs₂
    have htotal := Relation.ReflTransGen.total_of_right_unique frontStep_unique h₁.taken h₂.taken
    refine ⟨htotal.imp frontSteps_prefix frontSteps_prefix, fun ho₁ ho₂ => ?_⟩
    rcases htotal with h | h
    · exact over_steps_eq h (over_no_step h₁ ho₁)
    · exact (over_steps_eq h (over_no_step h₂ ho₂)).symm

/-! ## A request of 26 bytes -/

def hostText : Bytes := text "GET / HTTP/1.1" ++ g_crlf ++ text "Host:x" ++ g_crlf_double

def hostRequest : HttpRequest :=
  { decodeSucc := true, requestMethod := some .GET, requestPath := text "/", requestVersion := text "HTTP/1.1"
    requesetHeader := (StringMap.empty.insert (text "Host") (text "x")).insert (text "Content-Length") [] }

/-- A buffer of `size` bytes with the first `n` of the request. -/
def hostReceived (size n : Nat) : TcpBuffer :=
  { buffer := hostText.take n ++ List.replicate (size - n) 0, readIndex := 0, writeIndex := n }

def hostRun : List StreamStep := [.arrive (hostReceived 26 26), .turn, .turn]

def hostWhole : StreamState HttpRequest := ⟨.new 26, [], false, [hostRequest]⟩

theorem hostRun_eq : runLabels (streamNext httpCodeC) ⟨.new 26, [hostText], false, []⟩ hostRun = some hostWhole := by
  decide

/-- Cut behind its first line, the request is preceded by an empty one. -/
theorem segmentation_hands_on_lone_line :
    ¬∀ c₁ c₂ s₁ s₂, c₁.flatten = hostText → c₂.flatten = hostText → [] ∉ c₁ → [] ∉ c₂ →
      Reachable (streamNext httpCodeC) (StreamStart c₁) anyStep s₁ →
      Reachable (streamNext httpCodeC) (StreamStart c₂) anyStep s₂ →
      s₁.dispatched <+: s₂.dispatched ∨ s₂.dispatched <+: s₁.dispatched := by
  intro h
  have hcut : runLabels (streamNext httpCodeC) ⟨.new 26, [hostText.take 16, hostText.drop 16], false, []⟩
      [.arrive (hostReceived 26 16), .turn] =
        some ⟨hostReceived 26 16, [hostText.drop 16], true, [{ decodeSucc := true }]⟩ := by decide
  have h₁ := Reachable.of_run (.start (streamStart_new [hostText] (by decide))) hostRun_eq
  have h₂ := Reachable.of_run (.start (streamStart_new [hostText.take 16, hostText.drop 16] (by decide))) hcut
  rcases h _ _ _ _ (by decide) (by decide) (by decide) (by decide) h₁ h₂ with hp | hp
  · exact absurd (hp.eq_of_length rfl) (by decide)
  · exact absurd (hp.eq_of_length rfl) (by decide)

/-- The cuts stand inside the method and inside the end of the header block. -/
def hostChunks : List Bytes := [hostText.take 2, (hostText.drop 2).take 22, hostText.drop 24]

def hostCutRun : List StreamStep :=
  [.arrive (hostReceived 40 2), .turn, .arrive (hostReceived 40 24), .turn, .arrive (hostReceived 40 26), .turn, .turn]

def hostCut : StreamState HttpRequest := ⟨.new 40, [], false, [hostRequest]⟩

theorem hostCutRun_eq : runLabels (streamNext httpCodeC) ⟨.new 26, hostChunks, false, []⟩ hostCutRun = some hostCut := by
  decide

theorem http_segmentation_irrelevant_host : hostWhole.dispatched = hostCut.dispatched := by
  have hwhole : FitRun [hostText] hostWhole :=
    Reachable.of_runOk (.start (streamStart_new _ (by decide))) (by decide) hostRun_eq
  have hcut : FitRun hostChunks hostCut :=
    Reachable.of_runOk (.start (streamStart_new _ (by decide))) (by decide) hostCutRun_eq
  have hboth := ((http_segmentation_irrelevant hostText).2 _ _ _ _ (by decide) (by decide) hwhole hcut).2
  exact hboth (.inl ⟨rfl, rfl⟩) (.inl ⟨rfl, rfl⟩)

end Tirpc
