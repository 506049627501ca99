import Tirpc.Http.Theorems.Headers
import Tirpc.Http.Theorems.Responses
import Tirpc.Lib.Numeral

/-!
# What a client makes of the responses

A client finds the end of a head at its blank line and the end of a body by the announced length. Without such a length
the body goes on until the connection is closed, so that the client gets no further.
-/

namespace Tirpc

open Lib TcpBuffer HttpCodeC

open WrittenRequest (headerLine headerLine_eq)

/-! ## The client -/

structure ReadResponse where
  statusLine : Bytes
  headerLines : List Bytes
  body : Bytes
  deriving DecidableEq

def announced (headerLines : List Bytes) : Option Nat :=
  (headerLines.find? fun l => (text "Content-Length:").isPrefixOf l).map fun l => decimalNat (l.drop 15)

/-- The first response of a stream, and what follows it. -/
def readResponse (s : Bytes) : Option (ReadResponse × Bytes) :=
  (find g_crlf_double s).bind fun i =>
    match cutAt g_crlf (s.take (i + 2)) with
    | [] => none
    | statusLine :: lines =>
        let rest := s.drop (i + 4)
        (announced lines.dropLast).bind fun n =>
          if rest.length < n then none
          else some ({ statusLine := statusLine, headerLines := lines.dropLast, body := rest.take n }, rest.drop n)

/-- The client reads the responses `rs` one after the other, and cannot go on at `t`. -/
inductive Reads : Bytes → List ReadResponse → Bytes → Prop
  | stuck {s : Bytes} (h : readResponse s = none) : Reads s [] s
  | read {s t u : Bytes} {r : ReadResponse} {rs : List ReadResponse} (h : readResponse s = some (r, t))
      (hrest : Reads t rs u) : Reads s (r :: rs) u

theorem Reads.unique {s t t' : Bytes} {rs rs' : List ReadResponse} (h : Reads s rs t) (h' : Reads s rs' t') :
    rs = rs' ∧ t = t' := by
  induction h generalizing rs' with
  | stuck h =>
      cases h' with
      | stuck => exact ⟨rfl, rfl⟩
      | read h₁ => cases h.symm.trans h₁
  | read h _ ih =>
      cases h' with
      | stuck h₁ => cases h.symm.trans h₁
      | read h₁ hrest =>
          cases h.symm.trans h₁
          obtain ⟨rfl, rfl⟩ := ih hrest
          exact ⟨rfl, rfl⟩

/-! ## Responses that can be told apart -/

/-- The head has no stray carriage return, no name has a colon, and the length that is announced is that of the body. -/
structure Sound (res : HttpResponse) : Prop where
  version : 13 ∉ res.responseVersion
  info : 13 ∉ res.responseInfo
  entries : ∀ e ∈ res.responseHeader.entries, 58 ∉ e.1 ∧ 13 ∉ e.1 ∧ 13 ∉ e.2
  length : res.responseHeader.get? (text "Content-Length") = some (decimal res.responseBody.length) ∨
    res.responseHeader.get? (text "Content-Length") = none ∧ res.responseBody = []

def Announces (res : HttpResponse) : Prop := (res.responseHeader.get? (text "Content-Length")).isSome

instance (res : HttpResponse) : Decidable (Announces res) := inferInstanceAs (Decidable (_ = true))

/-- What is to be read of a response. -/
def readBack (res : HttpResponse) : ReadResponse where
  statusLine := statusLine res
  headerLines := res.responseHeader.entries.map headerLine
  body := res.responseBody

variable {res res' : HttpResponse} {t : Bytes}

theorem decimal_no_cr (n : Int) : 13 ∉ decimal n := by
  cases n with
  | ofNat n => exact fun hc => absurd (decimal_digits n 13 hc).1 (by decide)
  | negSucc n =>
      have hneg : decimal (Int.negSucc n) = text "-" ++ decimal (n + 1 : Nat) := by
        have hrepr : toString (Int.negSucc n) = "-" ++ toString (n + 1 : Nat) := rfl
        rw [decimal, hrepr, text, String.toList_append, List.map_append]
        rfl
      rw [hneg, List.mem_append, not_or]
      exact ⟨by decide, fun hc => absurd (decimal_digits (n + 1) 13 hc).1 (by decide)⟩

theorem Sound.statusLine_no_cr (h : Sound res) : 13 ∉ statusLine res := by
  have hspace : 13 ∉ text " " := by decide
  simp only [statusLine, List.mem_append, not_or]
  exact ⟨⟨⟨⟨h.version, hspace⟩, decimal_no_cr _⟩, hspace⟩, h.info⟩

theorem Sound.line (h : Sound res) {l : Bytes} (hl : l ∈ res.responseHeader.entries.map headerLine) :
    l ≠ [] ∧ 13 ∉ l := by
  obtain ⟨e, he, rfl⟩ := List.mem_map.mp hl
  obtain ⟨-, hname, hvalue⟩ := h.entries e he
  rw [headerLine_eq]
  refine ⟨by simp, ?_⟩
  rw [List.mem_append, List.mem_cons, not_or, not_or]
  exact ⟨hname, by decide, hvalue⟩

theorem headerLine_name {e : Bytes × Bytes} (h : 58 ∉ e.1) : (headerLine e).takeWhile (· ≠ 58) = e.1 := by
  have hne : ∀ c ∈ e.1, decide (c ≠ 58) = true := fun c hc => decide_eq_true fun heq => h (heq ▸ hc)
  rw [headerLine_eq, List.takeWhile_append_of_pos hne]
  simp

/-- The client looks for a line with the name, the map for an entry. -/
theorem announced_lines {es : List (Bytes × Bytes)} (h : ∀ e ∈ es, 58 ∉ e.1) :
    announced (es.map headerLine) =
      ((es.find? fun e => e.1 = text "Content-Length").map Prod.snd).map decimalNat := by
  have hname : text "Content-Length:" = text "Content-Length" ++ [58] := by decide
  have hlength : (text "Content-Length" ++ [58]).length = 15 := by decide
  have hsame : ∀ e ∈ es, (text "Content-Length:").isPrefixOf (headerLine e) =
      decide (e.1 = text "Content-Length") := by
    intro e he
    rw [hname, Bool.eq_iff_iff, List.isPrefixOf_iff_prefix, decide_eq_true_iff]
    constructor
    · rintro ⟨t, ht⟩
      rw [List.append_assoc, List.singleton_append] at ht
      rw [← headerLine_name (h e he), ← ht, List.takeWhile_append_of_pos (by decide +kernel)]
      simp
    · rintro heq
      rw [headerLine_eq, heq]
      exact ⟨e.2, by rw [List.append_assoc, List.singleton_append]⟩
  induction es with
  | nil => rfl
  | cons e es ih =>
      have hrest := ih (fun e' he' => h e' (List.mem_cons_of_mem e he')) fun e' he' =>
        hsame e' (List.mem_cons_of_mem e he')
      have hhere := hsame e List.mem_cons_self
      by_cases he : e.1 = text "Content-Length"
      · rw [decide_eq_true he] at hhere
        have hdrop : (headerLine e).drop 15 = e.2 := by
          rw [headerLine_eq, he, ← List.singleton_append, ← List.append_assoc, List.drop_left' hlength]
        simp only [announced, List.map_cons, List.find?_cons, hhere, decide_eq_true he, Option.map_some, hdrop]
      · rw [decide_eq_false he] at hhere
        simp only [announced, List.map_cons, List.find?_cons, hhere, decide_eq_false he] at hrest ⊢
        exact hrest

theorem httpRes_eq (res : HttpResponse) :
    httpRes res = g_crlf.intercalate (statusLine res :: res.responseHeader.entries.map headerLine) ++
      (g_crlf_double ++ res.responseBody) := by
  have hblock := intercalate_append_sep g_crlf (statusLine res) (res.responseHeader.entries.map headerLine)
  have hdouble : g_crlf_double = g_crlf ++ g_crlf := rfl
  rw [hdouble, List.append_assoc, ← List.append_assoc, hblock, httpRes, toHttpString_lines]
  simp only [statusLine, List.flatMap_cons, List.append_assoc]

theorem readResponse_httpRes (h : Sound res) (t : Bytes) :
    readResponse (httpRes res ++ t) = if Announces res then some (readBack res, t) else none := by
  obtain ⟨head, hhead⟩ : ∃ head, head = g_crlf.intercalate
      (statusLine res :: res.responseHeader.entries.map headerLine) := ⟨_, rfl⟩
  have htext : httpRes res ++ t = head ++ (g_crlf_double ++ (res.responseBody ++ t)) := by
    rw [httpRes_eq, hhead, List.append_assoc, List.append_assoc]
  have hfind : find g_crlf_double (httpRes res ++ t) = some head.length := by
    rw [htext, hhead]
    exact find_blank_line (by decide) _ h.statusLine_no_cr fun l hl => h.line hl
  have hlines : cutAt g_crlf ((httpRes res ++ t).take (head.length + 2)) =
      statusLine res :: (res.responseHeader.entries.map headerLine ++ [[]]) := by
    have htake : (httpRes res ++ t).take (head.length + 2) =
        (statusLine res :: res.responseHeader.entries.map headerLine).flatMap (· ++ g_crlf) := by
      rw [htext, List.take_length_add_append, hhead, ← intercalate_append_sep]
      rfl
    rw [htake]
    exact cutAt_pieces fun l hl => by
      rcases List.mem_cons.mp hl with rfl | hl
      · exact h.statusLine_no_cr
      · exact (h.line hl).2
  have hrest : (httpRes res ++ t).drop (head.length + 4) = res.responseBody ++ t := by
    rw [htext, List.drop_length_add_append]
    rfl
  have hann := announced_lines fun e he => (h.entries e he).1
  rw [readResponse, hfind, Option.bind_some, hlines]
  simp only [List.dropLast_concat, hann, hrest]
  rcases h.length with hlen | ⟨hnone, -⟩
  · have hann : Announces res := by rw [Announces, hlen]; rfl
    have hnat : decimalNat (decimal res.responseBody.length) = res.responseBody.length := by
      rw [decimalNat_numeral (decimal_isDigit _), numeral_decimal]
    rw [StringMap.get?] at hlen
    rw [hlen, Option.map_some, Option.bind_some, hnat, if_neg (by rw [List.length_append]; omega), List.take_left,
      List.drop_left, if_pos hann]
    rfl
  · have hann : ¬Announces res := by rw [Announces, hnone]; decide
    rw [StringMap.get?] at hnone
    rw [hnone, if_neg hann]
    rfl

/-- The client reads the responses in front of the first one that does not announce its length, and gets no further. -/
theorem reads_responses {rs : List HttpResponse} (h : ∀ res ∈ rs, Sound res) :
    Reads (rs.flatMap httpRes) ((rs.takeWhile fun res => Announces res).map readBack)
      ((rs.dropWhile fun res => Announces res).flatMap httpRes) := by
  induction rs with
  | nil => exact .stuck rfl
  | cons res rs ih =>
      have hrest := ih fun res' hres' => h res' (List.mem_cons_of_mem res hres')
      have hread := readResponse_httpRes (h res List.mem_cons_self) (rs.flatMap httpRes)
      by_cases hann : Announces res
      · rw [if_pos hann] at hread
        simp only [List.takeWhile_cons, List.dropWhile_cons, decide_eq_true hann, if_true, List.map_cons]
        exact .read hread hrest
      · rw [if_neg hann] at hread
        simp only [List.takeWhile_cons, List.dropWhile_cons, decide_eq_false hann, Bool.false_eq_true, if_false]
        exact .stuck hread

/-! ## What the servlets build -/

/-- From `res`, with the functions of the base class. -/
inductive Builds (res : HttpResponse) : HttpResponse → Prop
  | refl : Builds res res
  | setHttpCode {res' : HttpResponse} (h : Builds res res') (code : Int) : Builds res (HttpServlet.setHttpCode res' code)
  | handleNotFound {res' : HttpResponse} (h : Builds res res') : Builds res (HttpServlet.handleNotFound res')
  | setHttpContentType {res' : HttpResponse} (h : Builds res res') {contentType : Bytes} (hclean : 13 ∉ contentType) :
      Builds res (HttpServlet.setHttpContentType res' contentType)
  | setHttpContentTypeForFile {res' : HttpResponse} (h : Builds res res') (filepath : Bytes) :
      Builds res (HttpServlet.setHttpContentTypeForFile res' filepath)
  | setHttpBody {res' : HttpResponse} (h : Builds res res') (body : Bytes) : Builds res (HttpServlet.setHttpBody res' body)

theorem httpCodeToString_no_cr (code : Int) : 13 ∉ httpCodeToString code := by
  unfold httpCodeToString
  repeat' split
  all_goals decide

/-- An entry of the header is replaced or added. -/
theorem Sound.insert_entries (h : Sound res) {k v : Bytes} (hk : 58 ∉ k ∧ 13 ∉ k) (hv : 13 ∉ v) :
    ∀ e ∈ (res.responseHeader.insert k v).entries, 58 ∉ e.1 ∧ 13 ∉ e.1 ∧ 13 ∉ e.2 := by
  intro e he
  rcases mem_insertEntry he with rfl | he
  · exact ⟨hk.1, hk.2, hv⟩
  · exact h.entries e he

theorem Sound.setHttpContentType (h : Sound res) {contentType : Bytes} (hclean : 13 ∉ contentType) :
    Sound (HttpServlet.setHttpContentType res contentType) where
  version := h.version
  info := h.info
  entries := h.insert_entries (by decide) hclean
  length := by
    have hne : text "Content-Type" ≠ text "Content-Length" := by decide
    simp only [HttpServlet.setHttpContentType, StringMap.get?_insert, if_neg hne]
    exact h.length

theorem Sound.setHttpBody (h : Sound res) (body : Bytes) : Sound (HttpServlet.setHttpBody res body) where
  version := h.version
  info := h.info
  entries := h.insert_entries (by decide) (decimal_no_cr _)
  length := .inl (by simp only [HttpServlet.setHttpBody, StringMap.get?_insert, if_true])

theorem Sound.setHttpCode (h : Sound res) (code : Int) : Sound (HttpServlet.setHttpCode res code) where
  version := h.version
  info := httpCodeToString_no_cr code
  entries := h.entries
  length := h.length

theorem Sound.handleNotFound (h : Sound res) : Sound (HttpServlet.handleNotFound res) :=
  ((h.setHttpCode HTTP_NOTFOUND).setHttpContentType (by decide)).setHttpBody
    (default_html_template (decimal HTTP_NOTFOUND) (httpCodeToString HTTP_NOTFOUND))

theorem Builds.sound (h : Builds res res') (hres : Sound res) : Sound res' := by
  induction h with
  | refl => exact hres
  | setHttpCode _ code ih => exact ih.setHttpCode code
  | handleNotFound _ ih => exact ih.handleNotFound
  | setHttpContentType _ hclean ih => exact ih.setHttpContentType hclean
  | setHttpContentTypeForFile _ filepath ih => exact ih.setHttpContentType (getContentType_noLineEnd _).1
  | setHttpBody _ body ih => exact ih.setHttpBody body

/-! ## What `Decode` accepts -/

variable {r r' : HttpRequest} {ok : Bool} {b b' : TcpBuffer}

theorem parsePath_version {url : Bytes} (h : parsePath r url = some (ok, r')) :
    r'.requestVersion = r.requestVersion := by
  rw [parsePath] at h
  split at h
  · cases h
    rfl
  · obtain ⟨maps, -, he⟩ := Option.map_eq_some_iff.mp h
    cases he
    rfl

theorem parseUrl_version {url : Bytes} {s1 s2 : Nat} (h : parseUrl r url s1 s2 = some (ok, r')) :
    r'.requestVersion = r.requestVersion := by
  rw [parseUrl] at h
  split at h
  · exact parsePath_version h
  · split at h
    · cases h
      rfl
    · dsimp only at h
      split at h
      · cases h
        rfl
      · split at h
        · cases h
          rfl
        · exact parsePath_version h

theorem parseVersion_no_cr {tmp : Bytes} {s1 s2 : Nat} (hr : 13 ∉ r.requestVersion)
    (h : parseVersion r tmp s1 s2 = some (ok, r')) : 13 ∉ r'.requestVersion := by
  rw [parseVersion] at h
  split at h
  · cases h
    exact hr
  · rename_i hknown
    have hnew : 13 ∉ text "HTTP/1.1" := by decide
    have hold : 13 ∉ text "HTTP/1.0" := by decide
    rw [parseUrl_version h]
    rcases not_and_or.mp hknown with hv | hv
    · rw [not_not.mp hv]
      exact hnew
    · rw [not_not.mp hv]
      exact hold

theorem parseHttpRequestLine_no_cr {tmp : Bytes} (hr : 13 ∉ r.requestVersion)
    (h : parseHttpRequestLine r tmp = some (ok, r')) : 13 ∉ r'.requestVersion := by
  rw [parseHttpRequestLine] at h
  split at h
  · split at h
    · cases h
      exact hr
    · dsimp only at h
      split at h
      · exact parseVersion_no_cr (r := { r with requestMethod := some .GET }) hr h
      · split at h
        · exact parseVersion_no_cr (r := { r with requestMethod := some .POST }) hr h
        · cases h
          exact hr
  · cases h
    exact hr

theorem parseHttpRequestContent_version (r : HttpRequest) (str : Bytes) :
    (parseHttpRequestContent r str).2.requestVersion = r.requestVersion := by
  rw [parseHttpRequestContent]
  split <;> rfl

theorem decodeContent_version {tmp : Bytes} {total size : Int} (h : decodeContent b r tmp total size = some (b', r')) :
    r'.requestVersion = r.requestVersion := by
  rw [decodeContent] at h
  dsimp only at h
  split at h
  · cases h
    rfl
  · split at h
    · generalize hp : parseHttpRequestContent _ _ = p at h
      have hversion : p.2.requestVersion = r.requestVersion := by rw [← hp, parseHttpRequestContent_version]
      split at h
      · obtain ⟨b₁, -, he⟩ := Option.map_eq_some_iff.mp h
        cases he
        exact hversion
      · cases h
        exact hversion
    · obtain ⟨b₁, -, he⟩ := Option.map_eq_some_iff.mp h
      cases he
      rfl

theorem decodeHeader_version {tmp : Bytes} {total size : Int} (h : decodeHeader b r tmp total size = some (b', r')) :
    r'.requestVersion = r.requestVersion := by
  rw [decodeHeader] at h
  split at h
  · cases h
    rfl
  · obtain ⟨⟨ok, r₁⟩, hhead, h⟩ := Option.bind_eq_some_iff.mp h
    have hr₁ : r₁.requestVersion = r.requestVersion := by
      rw [parseHttpRequestHeader] at hhead
      split at hhead
      · cases hhead
        rfl
      · obtain ⟨maps, -, he⟩ := Option.map_eq_some_iff.mp hhead
        cases he
        rfl
    dsimp only at h
    split at h
    · rw [decodeContent_version h, hr₁]
    · cases h
      exact hr₁

/-- A request from which a sound response can be built. -/
structure CleanRequest (r : HttpRequest) : Prop where
  version : 13 ∉ r.requestVersion
  header : NoLineEnds r.requesetHeader

theorem decode_clean (h : HttpCodeC.decode b {} = some (b', r)) : CleanRequest r := by
  refine ⟨?_, decode_noLineEnds noLineEnds_empty h⟩
  rw [HttpCodeC.decode] at h
  obtain ⟨strs, -, h⟩ := Option.bind_eq_some_iff.mp h
  split at h
  · cases h
    exact List.not_mem_nil
  · split at h
    · cases h
      exact List.not_mem_nil
    · obtain ⟨⟨ok, r₁⟩, hline, h⟩ := Option.bind_eq_some_iff.mp h
      have hr₁ := parseHttpRequestLine_no_cr List.not_mem_nil hline
      dsimp only at h
      split at h
      · exact decodeHeader_version h ▸ hr₁
      · cases h
        exact hr₁

theorem accepts_clean {reqs : List HttpRequest} (h : Accepts httpCodeC b reqs b') : ∀ r ∈ reqs, CleanRequest r := by
  induction h with
  | drained | refused => exact fun r hr => absurd hr List.not_mem_nil
  | accepted hr hd hs _ ih =>
      intro r hr
      rcases List.mem_cons.mp hr with rfl | hr
      · exact decode_clean hd
      · exact ih r hr

/-! ## What is encoded -/

variable {ρ α : Type} [DecidableEq ρ] {env : HttpEnv} {d : HttpDispatcher ρ} {w : Servlets ρ α}
  {conn conn' : HttpConnection ρ α}

/-- The handlers build their responses with the functions of the base class. -/
structure Servlets.Built (w : Servlets ρ α) : Prop where
  get : ∀ p r res app, Builds res ((w.objects p).handleGet r res app).1
  post : ∀ p r res app, Builds res ((w.objects p).handlePost r res app).1

theorem setCommParam_sound (h : CleanRequest r) (code : Int) :
    Sound (HttpServlet.setCommParam r { responseCode := code }).2 := by
  have hconnection : NoLineEnd (text "Connection") := by unfold NoLineEnd; decide
  have hfresh : Sound { responseVersion := r.requestVersion, responseCode := code } :=
    ⟨h.version, List.not_mem_nil, fun e he => absurd he List.not_mem_nil, .inr ⟨rfl, rfl⟩⟩
  refine ⟨h.version, List.not_mem_nil, ?_, .inr ⟨?_, rfl⟩⟩
  · exact hfresh.insert_entries (by decide) (h.header.index hconnection).1.1
  · have hne : text "Connection" ≠ text "Content-Length" := by decide
    simp only [HttpServlet.setCommParam, StringMap.get?_insert, if_neg hne]
    rfl

namespace HttpDispatcher

omit [DecidableEq ρ] in
theorem handle_builds (hw : w.Built) (p : ρ) (res : HttpResponse) :
    Builds res ((w.objects p).handle r res w.app).2.1 := by
  rw [HttpServlet.handle]
  split
  · exact hw.get p _ _ _
  · exact hw.post p _ _ _
  · exact .refl

theorem handleRequest_sound (hw : w.Built) (h : CleanRequest r) : Sound (d.handleRequest env r w).1 := by
  have hfresh := setCommParam_sound h (env.staleCode r)
  rw [handleRequest]
  dsimp only
  split
  · exact hfresh.handleNotFound
  · exact (handle_builds hw _ _).sound hfresh

/-- Only the flag of a servlet changes. -/
theorem handleRequest_handlers (p : ρ) :
    ((d.handleRequest env r w).2.2.objects p).handleGet = (w.objects p).handleGet ∧
      ((d.handleRequest env r w).2.2.objects p).handlePost = (w.objects p).handlePost := by
  have hkept : ∀ (servlet : HttpServlet α) (r : HttpRequest) (res : HttpResponse),
      (servlet.handle r res w.app).1.handleGet = servlet.handleGet ∧
        (servlet.handle r res w.app).1.handlePost = servlet.handlePost := by
    intro servlet r res
    have hnote : (servlet.noteVersion r).handleGet = servlet.handleGet ∧
        (servlet.noteVersion r).handlePost = servlet.handlePost := by
      rw [HttpServlet.noteVersion]
      split <;> exact ⟨rfl, rfl⟩
    rw [HttpServlet.handle]
    split
    · exact hnote
    · exact hnote
    · exact ⟨rfl, rfl⟩
  rw [handleRequest]
  dsimp only
  split
  · exact ⟨rfl, rfl⟩
  · rename_i q hq
    dsimp only
    by_cases hp : p = q
    · rw [hp, Function.update_self]
      exact hkept _ _ _
    · rw [Function.update_of_ne hp]
      exact ⟨rfl, rfl⟩

theorem handleRequest_built (hw : w.Built) : (d.handleRequest env r w).2.2.Built := by
  refine ⟨fun p res app => ?_, fun p res app => ?_⟩
  · rw [(handleRequest_handlers p).1]
    exact hw.get p res app
  · rw [(handleRequest_handlers p).2]
    exact hw.post p res app

/-- Behind what it held at first, the write buffer holds the responses that have been encoded. -/
structure Encoded (q : Bytes) (conn : HttpConnection ρ α) : Prop where
  built : conn.servlets.Built
  sound : ∀ p ∈ conn.encoded, Sound p.2
  valid : conn.writeBuffer.Valid
  holds : (∀ p ∈ conn.encoded, (httpRes p.2).length < 2147483648) →
    conn.writeBuffer.Holds (q ++ (conn.encoded.map Prod.snd).flatMap httpRes)

theorem Encoded.dispatch {q : Bytes} (h : Encoded q conn) (hr : CleanRequest r)
    (hd : d.dispatch env r conn = some conn') : Encoded q conn' := by
  rw [HttpDispatcher.dispatch] at hd
  split at hd
  · cases hd
    exact h
  · dsimp only at hd
    obtain ⟨buf, hencode, rfl⟩ := Option.map_eq_some_iff.mp hd
    have hbuf : (if (d.handleRequest env r conn.servlets).2.1 then conn.shutdownConnection else conn).writeBuffer =
        conn.writeBuffer := by
      rw [HttpConnection.shutdownConnection]
      repeat' split
      all_goals rfl
    have hencoded : (if (d.handleRequest env r conn.servlets).2.1 then conn.shutdownConnection else conn).encoded =
        conn.encoded := by
      rw [HttpConnection.shutdownConnection]
      repeat' split
      all_goals rfl
    rw [HttpCodeC.encode, hbuf] at hencode
    obtain ⟨n, -, hany⟩ := h.valid.writeToBuffer_any hencode
    refine ⟨handleRequest_built h.built, ?_, hany.valid, ?_⟩
    · rw [hencoded]
      intro p hp
      rcases List.mem_append.mp hp with hp | hp
      · exact h.sound p hp
      · rw [List.mem_singleton.mp hp]
        exact handleRequest_sound h.built hr
    · rw [hencoded]
      intro hlen
      have hshort := hlen _ (List.mem_append_right _ (List.mem_singleton_self _))
      have hroom := h.valid.room_of_writeToBuffer hshort hencode
      obtain ⟨b', hb', hholds⟩ := (h.holds fun p hp => hlen p (List.mem_append_left _ hp)).writeToBuffer hshort hroom
      obtain rfl := Option.some.inj (hencode.symm.trans hb')
      rw [List.map_append, List.flatMap_append, ← List.append_assoc]
      simpa using hholds

theorem Encoded.dispatch_all {q : Bytes} {reqs : List HttpRequest} (h : Encoded q conn)
    (hreqs : ∀ r ∈ reqs, CleanRequest r) (hd : reqs.foldlM (fun conn r => d.dispatch env r conn) conn = some conn') :
    Encoded q conn' := by
  induction reqs generalizing conn with
  | nil =>
      cases hd
      exact h
  | cons r reqs ih =>
      rw [List.foldlM_cons] at hd
      obtain ⟨c, hc, hd⟩ := Option.bind_eq_some_iff.mp hd
      exact ih (h.dispatch (hreqs r List.mem_cons_self) hc) (fun r' hr' => hreqs r' (List.mem_cons_of_mem r hr')) hd

end HttpDispatcher

open HttpDispatcher

/-- For every content of the read buffer, any servlets that build their responses with the functions of the base class,
and an empty write buffer: the client reads what is encoded, response by response, up to the first response that a
servlet has left without a body. When each has a body, it reads them all and nothing is left. -/
theorem responses_read {out : TcpBuffer} (hw : w.Built) (hout : out.Holds [])
    (hends : Ends (executeTurn httpCodeC (d.dispatch env)) (b, { servlets := w, writeBuffer := out }) (some (b', conn)))
    (hlen : ∀ p ∈ conn.encoded, (httpRes p.2).length < 2147483648) :
    Reads conn.writeBuffer.content (((conn.encoded.map Prod.snd).takeWhile fun res => Announces res).map readBack)
        (((conn.encoded.map Prod.snd).dropWhile fun res => Announces res).flatMap httpRes) ∧
      (Reads conn.writeBuffer.content ((conn.encoded.map Prod.snd).map readBack) [] ↔
        ∀ p ∈ conn.encoded, Announces p.2) := by
  obtain ⟨reqs, hacc, hfold⟩ := execute_iff.mp hends
  have hstart : Encoded [] ({ servlets := w, writeBuffer := out } : HttpConnection ρ α) :=
    ⟨hw, fun p hp => absurd hp List.not_mem_nil, hout.valid, fun _ => hout⟩
  have hencoded := hstart.dispatch_all (accepts_clean hacc) hfold
  have hcontent := (hencoded.holds hlen).content_eq
  rw [List.nil_append] at hcontent
  have hsound : ∀ res ∈ conn.encoded.map Prod.snd, Sound res := fun res hres => by
    obtain ⟨p, hp, rfl⟩ := List.mem_map.mp hres
    exact hencoded.sound p hp
  have hreads := reads_responses hsound
  rw [hcontent]
  refine ⟨hreads, fun hall p hp => ?_, fun hall => ?_⟩
  · obtain ⟨hsame, -⟩ := hall.unique hreads
    have hlength := congrArg List.length hsame
    simp only [List.length_map] at hlength
    have hself := (List.takeWhile_prefix fun res => decide (Announces res)).eq_of_length
      (by rw [List.length_map, hlength])
    exact of_decide_eq_true (List.takeWhile_eq_self_iff.mp hself p.2 (List.mem_map_of_mem hp))
  · have hself : (conn.encoded.map Prod.snd).takeWhile (fun res => Announces res) = conn.encoded.map Prod.snd := by
      refine List.takeWhile_eq_self_iff.mpr fun res hres => ?_
      obtain ⟨p, hp, rfl⟩ := List.mem_map.mp hres
      exact decide_eq_true (hall p hp)
    have hnone : (conn.encoded.map Prod.snd).dropWhile (fun res => Announces res) = [] := by
      refine List.dropWhile_eq_nil_iff.mpr fun res hres => ?_
      obtain ⟨p, hp, rfl⟩ := List.mem_map.mp hres
      exact decide_eq_true (hall p hp)
    rw [hself, hnone] at hreads
    exact hreads

/-- No servlet is registered, so that the response is a 404 with its page. -/
theorem responses_read_not_found : ∃ conn : HttpConnection Unit Unit, conn.encoded.length = 1 ∧
    Reads conn.writeBuffer.content ((conn.encoded.map Prod.snd).map readBack) [] := by
  have hacc : Accepts httpCodeC (readBufferOf hostText) [hostRequest] (.new 26) :=
    accepts_one (by decide) (by decide) rfl rfl
  have hrun : ([hostRequest].foldlM (fun conn r => HttpDispatcher.dispatch noGlobs ({} : HttpDispatcher Unit) r conn)
      { servlets := freshServlet, writeBuffer := .new 512 }).map (fun conn =>
        decide (conn.encoded.length = 1 ∧ (∀ p ∈ conn.encoded, (httpRes p.2).length < 2147483648) ∧
          ∀ p ∈ conn.encoded, Announces p.2)) = some true := by decide +kernel
  obtain ⟨conn, hfold, hlast⟩ := Option.map_eq_some_iff.mp hrun
  obtain ⟨hone, hlen, hann⟩ := of_decide_eq_true hlast
  have hbuilt : (freshServlet : Servlets Unit Unit).Built := ⟨fun _ _ _ _ => .setHttpCode .refl _, fun _ _ _ _ => .refl⟩
  have hends := execute_iff.mpr ⟨_, hacc, hfold⟩
  exact ⟨conn, hone, (responses_read hbuilt (new_holds (by decide)) hends hlen).2.mpr hann⟩

end Tirpc
