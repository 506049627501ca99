import Tirpc.Http.Lemmas.Framing
import Tirpc.Http.Theorems.Progress

/-!
# Pipelined requests

Without a header line the blank line is missed, since the search for it begins behind the end of the request
line; the body of a `GET` stays in the buffer; and a header block of less than four bytes is passed over. Of all
other requests each call takes one, and its bytes only.
-/

namespace Tirpc

open Lib TcpBuffer HttpCodeC

namespace WrittenRequest

variable {b : TcpBuffer} {r r' : WrittenRequest} {rs : List WrittenRequest} {t rest : Bytes} {d : HttpRequest}
  {c : Int}

/-! ## One call -/

/-- The call takes the bytes of `r` in front of `t`. -/
def FramedCall (b : TcpBuffer) (r : WrittenRequest) (t : Bytes) : Prop :=
  ∃ b' d, HttpCodeC.decode b {} = some (b', d) ∧ d.decodeSucc = true ∧ b'.Holds t ∧ r.StoredIn d

/-- The request as the last stage leaves it. -/
def taken (d : HttpRequest) (rest : Bytes) : HttpRequest :=
  { lookedUp d with
    requestBody := storedBody d.requestMethod (longToInt (announcedLength d)) rest
    decodeSucc := true }

/-- Once the head has been parsed, the length that it announces decides. -/
theorem framedCall_iff (hb : b.Holds (r.text ++ t)) (hp : parsedHead (r.text ++ t) = some (d, rest)) :
    FramedCall b r t ↔ longToInt (announcedLength d) ≤ rest.length ∧
      readSize d.requestMethod (longToInt (announcedLength d)) ((r.text ++ t).length - rest.length) = r.text.length ∧
      r.StoredIn (taken d rest) := by
  have hd := decode_of_head hb (r.text_not_lone t) hp
  have hhead := parsedHead_length hp
  have hshort := hb.valid.content_lt
  rw [hb.content_eq] at hshort
  have hrange : IsInt32 (longToInt (announcedLength d)) := isInt32_wrap32 _
  have hread := hb.valid.read_nonneg
  by_cases hle : longToInt (announcedLength d) ≤ rest.length
  · rw [if_neg (Int.not_lt.mpr hle)] at hd
    have hmax := readSize_le d.requestMethod ((r.text ++ t).length - rest.length) hle
    constructor
    · rintro ⟨b', d', he, -, hb', hstored⟩
      obtain ⟨b₁, hb₁, hlen⟩ := hb.recycleRead_any (Int.le_trans hmax (by omega)) (by
        simp only [IsInt32] at hrange
        simp only [readSize]
        split <;> omega)
      rw [hb₁] at hd
      cases he.symm.trans hd
      have hl := hlen hb'.valid
      rw [hb'.content_eq, List.length_append] at hl
      exact ⟨hle, by rw [List.length_append]; omega, hstored⟩
    · rintro ⟨-, hsize, hstored⟩
      obtain ⟨b₁, hb₁, hholds, -⟩ := hb.recycleRead (k := r.text.length) (by omega) (by
        rw [List.length_append]
        omega)
      rw [hsize, hb₁] at hd
      refine ⟨b₁, _, hd, rfl, ?_, hstored⟩
      rwa [Int.toNat_natCast, List.drop_left] at hholds
  · rw [if_pos (Int.not_le.mp hle)] at hd
    constructor
    · rintro ⟨b', d', he, hsucc, -⟩
      have hno : d.decodeSucc = false := parsedHead_decodeSucc hp
      cases he.symm.trans hd
      cases hsucc.symm.trans hno
    · exact fun h => absurd h.1 hle

theorem not_framedCall (hb : b.Holds (r.text ++ t)) (hp : parsedHead (r.text ++ t) = none) : ¬FramedCall b r t := by
  rintro ⟨b', d, hd, hsucc, -⟩
  cases hsucc.symm.trans (decode_no_head hb (r.text_not_lone t) hp hd).2

/-! ## Which calls are exact -/

theorem announcedLength_eq
    (h : d.requesetHeader.get? (Lib.text "Content-Length") = r.header? (Lib.text "Content-Length")) :
    longToInt (announcedLength d) = r.contentLength := by
  rw [announcedLength, StringMap.index_value, h]
  rfl

theorem storedIn_taken (hd : HeadOf r d) (hget : ∀ h ∈ r.headers, d.requesetHeader.get? h.1 = some h.2) :
    r.StoredIn (taken d rest) ↔ storedBody d.requestMethod (longToInt (announcedLength d)) rest = r.body :=
  ⟨fun h => h.body, fun h => ⟨hd.method, hd.version, fun e he => StringMap.get?_index (hget e he), h⟩⟩

theorem body_le_text (r : WrittenRequest) : r.body.length + 4 ≤ r.text.length := by
  rw [text]
  simp only [List.length_append, g_crlf, List.length_cons, List.length_nil]
  omega

/-- The body of a `GET` is not taken. -/
theorem exact_get {n : Int} (hn : n = r.text.length - r.body.length) :
    readSize (some .GET) c n = r.text.length ∧ storedBody (some .GET) c rest = r.body ↔ r.body = [] := by
  have hget : ¬(some HttpMethod.GET = some .POST ∧ c ≠ 0) := fun h => absurd h.1 (by decide)
  rw [readSize, storedBody, if_neg hget, if_neg hget]
  constructor
  · exact fun h => h.2.symm
  · intro hnil
    rw [hnil] at hn ⊢
    exact ⟨by simpa using hn, rfl⟩

theorem exact_post {n : Int} (hn : n = r.text.length - r.body.length) :
    c ≤ (r.body ++ t).length ∧ readSize (some .POST) c n = r.text.length ∧
      storedBody (some .POST) c (r.body ++ t) = r.body ↔ c = r.body.length := by
  by_cases hc : c = 0
  · have hzero : ¬(some HttpMethod.POST = some .POST ∧ c ≠ 0) := fun h => h.2 hc
    rw [readSize, storedBody, if_neg hzero, if_neg hzero]
    constructor
    · rintro ⟨-, hsize, -⟩
      omega
    · intro hlen
      exact ⟨by omega, by omega, (List.eq_nil_of_length_eq_zero (by omega)).symm⟩
  · have hpost : some HttpMethod.POST = some .POST ∧ c ≠ 0 := ⟨rfl, hc⟩
    rw [readSize, storedBody, if_pos hpost, if_pos hpost]
    constructor
    · rintro ⟨-, hsize, -⟩
      omega
    · intro hlen
      refine ⟨by rw [List.length_append]; omega, by omega, ?_⟩
      rw [if_neg (by omega), hlen, Int.toNat_natCast, List.take_left]

theorem framedCall_headers (hb : b.Holds (r.text ++ texts rs)) (hs : ¬r.EndsInScheme)
    (hlen : 4 ≤ r.headerBlock.length) : FramedCall b r (texts rs) ↔ r.BodyAnnounced rs := by
  have hshort := hb.valid.content_lt
  rw [hb.content_eq, List.length_append] at hshort
  obtain ⟨d, hp, hd, hget⟩ := parsedHead_headers hs hlen (by omega) (texts rs)
  have hn : ((r.text ++ texts rs).length : Int) - (r.body ++ texts rs).length = r.text.length - r.body.length := by
    simp only [List.length_append]
    omega
  rw [framedCall_iff hb hp, storedIn_taken hd fun h hh => (hget h.1).trans (header?_mem hh),
    announcedLength_eq (hget _), hd.method, BodyAnnounced]
  cases r.method with
  | GET =>
      rw [exact_get hn]
      constructor
      · rintro ⟨hle, hnil⟩
        rw [hnil, List.nil_append] at hle
        exact ⟨hnil, hle⟩
      · rintro ⟨hnil, hle⟩
        rw [hnil, List.nil_append]
        exact ⟨hle, rfl⟩
  | POST => exact exact_post hn

/-- A block of less than four bytes is not parsed, so its line is lost. -/
theorem framedCall_short (hb : b.Holds (r.text ++ t)) (hs : ¬r.EndsInScheme) (hh : r.headers ≠ [])
    (hlen : r.headerBlock.length < 4) : ¬FramedCall b r t := by
  obtain ⟨d, hp, hempty⟩ := parsedHead_short hs hh hlen t
  obtain ⟨h, hmem, hname⟩ := short_block_name hh hlen
  intro hcall
  obtain ⟨-, -, hstored⟩ := (framedCall_iff hb hp).mp hcall
  have hget := hstored.headers h hmem
  rw [taken, lookedUp] at hget
  simp only [hempty, StringMap.get?_index_empty, if_neg hname] at hget
  cases hget

theorem texts_nil (h : texts rs = []) : rs = [] := by
  cases rs with
  | nil => rfl
  | cons r rs =>
      have hlen := r.body_le_text
      rw [(List.append_eq_nil_iff.mp h).1, List.length_nil] at hlen
      omega

theorem framedCall_bare (hb : b.Holds (r.text ++ (r'.text ++ texts rs))) (hs : ¬r.EndsInScheme) (hh : r.headers = []) :
    FramedCall b r (r'.text ++ texts rs) ↔ r.BorrowsHead (r' :: rs) := by
  have hshort : r'.text.length < 2147483648 := by
    have hcontent := hb.valid.content_lt
    rw [hb.content_eq, List.length_append, List.length_append] at hcontent
    omega
  obtain ⟨d, hp, hd, hget⟩ := parsedHead_bare hs hh hshort (texts rs)
  have hle := r'.body_le_text
  rw [framedCall_iff hb hp, storedIn_taken hd (by simp [hh]), announcedLength_eq hget, hd.method, body_nil hh]
  constructor
  · rintro ⟨-, hsize, hbody⟩
    rw [readSize] at hsize
    rw [storedBody] at hbody
    split at hsize
    · rename_i hpost
      simp only [List.length_append] at hsize
      rw [if_pos hpost, if_pos (by omega)] at hbody
      obtain ⟨hbody, hrest⟩ := List.append_eq_nil_iff.mp hbody
      refine ⟨Option.some.inj hpost.1, r', ?_, hbody, ?_⟩
      · rw [texts_nil hrest]
      · rw [hbody, hrest] at hsize
        simp only [List.length_nil] at hsize
        omega
    · simp only [List.length_append] at hsize
      omega
  · rintro ⟨hpost, r'', he, hbody, hlen⟩
    obtain ⟨rfl, rfl⟩ := List.cons.inj he
    have hneg : some r.method = some .POST ∧ r'.contentLength ≠ 0 := ⟨congrArg some hpost, by omega⟩
    rw [readSize, storedBody, if_pos hneg, if_pos hneg, if_pos (by omega), hbody]
    refine ⟨by omega, ?_, rfl⟩
    simp only [texts, List.flatMap_nil, List.append_nil, List.length_append, List.length_nil]
    omega

theorem framedCall_iff_framable (hb : b.Holds (texts (r :: rs))) : FramedCall b r (texts rs) ↔ r.Framable rs := by
  have htext : texts (r :: rs) = r.text ++ texts rs := rfl
  rw [htext] at hb
  rw [Framable]
  by_cases hs : r.EndsInScheme
  · exact iff_of_false (not_framedCall hb (parsedHead_rejects hs _)) fun h => h.1 hs
  · by_cases hh : r.headers = []
    · rw [if_pos hh, and_iff_right hs]
      cases rs with
      | nil =>
          have halone : parsedHead (r.text ++ texts []) = none := by
            rw [texts, List.flatMap_nil, List.append_nil]
            exact parsedHead_alone hh
          refine iff_of_false (not_framedCall hb halone) ?_
          rintro ⟨-, r', he, -⟩
          cases he
      | cons r' rs => exact framedCall_bare hb hs hh
    · rw [if_neg hh, and_iff_right hs]
      by_cases hlen : 4 ≤ r.headerBlock.length
      · rw [framedCall_headers hb hs hlen, and_iff_right hlen]
      · exact iff_of_false (framedCall_short hb hs hh (Nat.not_le.mp hlen)) fun h => hlen h.1

/-! ## All calls -/

/-- For every list of requests and every buffer that holds their texts: the calls frame the requests exactly if
and only if each of them is framable in front of those that follow it. -/
theorem framed_exactly_iff (rs : List WrittenRequest) (b : TcpBuffer) (hb : b.Holds (texts rs)) :
    FramedExactly b rs ↔ AllFramable rs := by
  induction rs generalizing b with
  | nil => exact Iff.rfl
  | cons r rs ih =>
      constructor
      · rintro ⟨b', d, hd, hsucc, hb', hstored, hrest⟩
        exact ⟨(framedCall_iff_framable hb).mp ⟨b', d, hd, hsucc, hb', hstored⟩, (ih b' hb').mp hrest⟩
      · rintro ⟨hr, hrest⟩
        obtain ⟨b', d, hd, hsucc, hb', hstored⟩ := (framedCall_iff_framable hb).mpr hr
        exact ⟨b', d, hd, hsucc, hb', hstored, (ih b' hb').mpr hrest⟩

end WrittenRequest

open WrittenRequest

/-! ## Without a header line -/

def bareRequest : WrittenRequest where
  method := .GET
  target := text "/"
  version := text "HTTP/1.1"
  headers := []
  body := []
  target_origin := by decide
  target_clean := by decide +kernel
  version_known := .inr rfl
  names_nodup := List.nodup_nil
  names_clean := nofun
  values_clean := nofun
  length_announced := fun h => absurd rfl h

def bareReceived : TcpBuffer := { buffer := bareRequest.text, writeIndex := 18 }

/-- The blank line is not found, and the call waits. -/
theorem bare_request_not_framed : ¬∀ rs b, b.Holds (texts rs) → FramedExactly b rs := by
  intro h
  have hb : bareReceived.Holds (texts [bareRequest]) := ⟨by decide, by decide⟩
  have hwaits : (HttpCodeC.decode bareReceived {}).map (·.2.decodeSucc) = some false := by decide
  obtain ⟨b', d, hd, hsucc, -⟩ := h _ _ hb
  rw [hd, Option.map_some, hsucc] at hwaits
  cases hwaits

/-! ## A body that looks like a request -/

def postRequest : WrittenRequest where
  method := .POST
  target := text "/a?b=c"
  version := text "HTTP/1.0"
  headers := [(text "Host", text "x"), (text "Content-Length", text " 18")]
  body := bareRequest.text
  target_origin := by decide
  target_clean := by decide +kernel
  version_known := .inl rfl
  names_nodup := by decide
  names_clean := by decide +kernel
  values_clean := by decide +kernel
  length_announced := fun _ => ⟨text " 18", by decide, by decide⟩

def getRequest : WrittenRequest where
  method := .GET
  target := text "/"
  version := text "HTTP/1.1"
  headers := [(text "Host", text "y")]
  body := []
  target_origin := by decide
  target_clean := by decide +kernel
  version_known := .inr rfl
  names_nodup := by decide
  names_clean := by decide +kernel
  values_clean := by decide +kernel
  length_announced := fun h => absurd rfl h

def postGetReceived : TcpBuffer := { buffer := texts [postRequest, getRequest], writeIndex := 96 }

theorem framed_exactly_post_get : FramedExactly postGetReceived [postRequest, getRequest] := by
  have hb : postGetReceived.Holds (texts [postRequest, getRequest]) := ⟨by decide, by decide⟩
  refine (framed_exactly_iff _ _ hb).mpr ⟨⟨?_, ?_⟩, ⟨?_, ?_⟩, trivial⟩
  · unfold EndsInScheme
    decide
  · exact ⟨by decide, show postRequest.contentLength = postRequest.body.length by decide⟩
  · unfold EndsInScheme
    decide
  · exact ⟨by decide, rfl, show getRequest.contentLength ≤ (texts []).length by decide⟩

end Tirpc
