import Tirpc.Http.Lemmas.Framing
import Tirpc.Http.Servlet
import Tirpc.Lib.Pieces

/-!
# Header blocks

A block that is written from a map is parsed to the map again. What `Decode` stores has no line ends, so the block
of a response has one line for each of its entries.
-/

namespace Tirpc

open Lib HttpCodeC StringUtil WrittenRequest

variable {m m' : StringMap} {r r' : HttpRequest}

theorem toHttpString_lines (m : StringMap) : toHttpString m = (m.entries.map headerLine).flatMap (· ++ g_crlf) := by
  simp only [toHttpString, List.flatMap, List.map_map]
  rfl

/-! ## From the map to the text and back -/

/-- Keys are not empty and have neither a colon nor a line end nor a NUL, and values have no line end. -/
def PlainEntries (m : StringMap) : Prop :=
  ∀ e ∈ m.entries, (e.1 ≠ [] ∧ 58 ∉ e.1 ∧ 13 ∉ e.1 ∧ 10 ∉ e.1 ∧ 0 ∉ e.1) ∧ 13 ∉ e.2 ∧ 10 ∉ e.2

theorem insertEntry_last {k v : Bytes} {es : List (Bytes × Bytes)} (h : ∀ e ∈ es, e.1 < k) :
    insertEntry k v es = es ++ [(k, v)] := by
  induction es with
  | nil => rfl
  | cons e es ih =>
      have hlt := h e List.mem_cons_self
      have hnot : ¬k < e.1 := fun hgt => List.lt_irrefl k (List.lt_trans hgt hlt)
      have hne : k ≠ e.1 := fun he => List.lt_irrefl k (he ▸ hlt)
      rw [insertEntry, if_neg hnot, if_neg hne, ih fun e' he' => h e' (List.mem_cons_of_mem e he'), List.cons_append]

/-- The lines of a sorted block are put behind each other. -/
theorem insertPieces_sorted {es : List (Bytes × Bytes)} (hes : ∀ e ∈ es, e.1 ≠ [] ∧ 58 ∉ e.1 ∧ 0 ∉ e.1)
    (hsorted : (m.entries ++ es).Pairwise fun a b => a.1 < b.1) :
    ∃ m', (es.map headerLine).foldlM (insertPiece [58]) m = some m' ∧ m'.entries = m.entries ++ es := by
  induction es generalizing m with
  | nil => exact ⟨m, rfl, (List.append_nil _).symm⟩
  | cons e es ih =>
      obtain ⟨hne, hcolon, hzero⟩ := hes e List.mem_cons_self
      have hbefore : ∀ e' ∈ m.entries, e'.1 < e.1 := fun e' he' =>
        (List.pairwise_append.mp hsorted).2.2 e' he' e List.mem_cons_self
      have hinsert : (m.insert e.1 e.2).entries = m.entries ++ [e] := insertEntry_last hbefore
      obtain ⟨m', hm', hentries⟩ := ih (m := m.insert e.1 e.2) (fun e' he' => hes e' (List.mem_cons_of_mem e he'))
        (by rw [hinsert, List.append_assoc]; exact hsorted)
      refine ⟨m', ?_, ?_⟩
      · rw [List.map_cons, List.foldlM_cons, headerLine_eq, insertPiece_line hne hcolon hzero]
        exact hm'
      · rw [hentries, hinsert, List.append_assoc]
        rfl

theorem PlainEntries.line (h : PlainEntries m) {l : Bytes} (hl : l ∈ m.entries.map headerLine) :
    l ≠ [] ∧ ∀ c ∈ l, c ∉ g_crlf := by
  obtain ⟨e, he, rfl⟩ := List.mem_map.mp hl
  obtain ⟨⟨-, -, hcr, hlf, -⟩, hcr', hlf'⟩ := h e he
  rw [headerLine_eq]
  refine ⟨by simp, fun c hc hmem => ?_⟩
  rcases List.mem_pair.mp hmem with rfl | rfl
  · rcases List.mem_append.mp hc with hc | hc
    · exact hcr hc
    · exact hcr' ((List.mem_cons.mp hc).resolve_left (by decide))
  · rcases List.mem_append.mp hc with hc | hc
    · exact hlf hc
    · exact hlf' ((List.mem_cons.mp hc).resolve_left (by decide))

theorem PlainEntries.keys (h : PlainEntries m) {e : Bytes × Bytes} (he : e ∈ m.entries) :
    e.1 ≠ [] ∧ 58 ∉ e.1 ∧ 0 ∉ e.1 := by
  obtain ⟨⟨hne, hc, -, -, hzero⟩, -⟩ := h e he
  exact ⟨hne, hc, hzero⟩

/-- From no line on does the `int` of the length hold less than the length, and still that line. -/
def LengthsKept (m : StringMap) : Prop :=
  ∀ l ls, l :: ls <:+ m.entries.map headerLine →
    ¬CutsRest ((l :: ls).flatMap (· ++ g_crlf)).length (l.length + g_crlf.length)

theorem keepsRest_lines (h : PlainEntries m) : KeepsRest g_crlf (m.entries.map headerLine) ↔ LengthsKept m :=
  keepsRest_iff fun _ hl => (h.line hl).1

theorem lengthsKept_of_short (h : PlainEntries m) (hshort : (toHttpString m).length < 4294967296) : LengthsKept m := by
  rw [toHttpString_lines] at hshort
  exact (keepsRest_lines h).mp (keepsRest_of_short hshort)

theorem toHttpString_nil (hnil : toHttpString m = []) : m = .empty := by
  rw [toHttpString_lines, List.flatMap_eq_nil_iff] at hnil
  have hlines : m.entries.map headerLine = [] :=
    List.eq_nil_iff_forall_not_mem.mpr fun l hl => List.cons_ne_nil _ _ (List.append_eq_nil_iff.mp (hnil l hl)).2
  cases m
  cases List.map_eq_nil_iff.mp hlines
  rfl

theorem g_crlf_ne : g_crlf ≠ [] := List.cons_ne_nil _ _

/-- The pieces of a block that is not empty are put into the map one after another. -/
theorem splitStrToMap_block (hne : toHttpString m ≠ []) :
    splitStrToMap (toHttpString m) g_crlf (Lib.text ":") .empty =
      (splitLoop g_crlf (toHttpString m).length ((m.entries.map headerLine).flatMap (· ++ g_crlf))).bind fun vec =>
        vec.foldlM (insertPiece [58]) .empty := by
  have hcolon : Lib.text ":" = [58] := by decide
  have hvec := splitStrToVector_terminated g_crlf_ne (m.entries.map headerLine)
  rw [← toHttpString_lines] at hvec
  rw [splitStrToMap, hcolon, if_neg (by simp [hne, g_crlf_ne]), hvec, ← toHttpString_lines]

theorem round_trip_of_kept (h : PlainEntries m) (hsize : (toHttpString m).length < 9223372036854775808)
    (hkept : LengthsKept m) : splitStrToMap (toHttpString m) g_crlf (Lib.text ":") .empty = some m := by
  by_cases hnil : toHttpString m = []
  · rw [splitStrToMap, if_pos (.inl hnil), toHttpString_nil hnil]
  · obtain ⟨m', hm', hentries⟩ := insertPieces_sorted (m := .empty) (fun e he => h.keys he) m.sorted
    have hsame : m' = m := by
      cases m
      cases m'
      cases hentries
      rfl
    have hlines : (m.entries.map headerLine).filter (· ≠ []) = m.entries.map headerLine :=
      List.filter_eq_self.mpr fun l hl => decide_eq_true (h.line hl).1
    have hsplit := (splitLoop_pieces_iff g_crlf_ne (fun l hl => (h.line hl).2)
      (pieces_length_le g_crlf_ne _) (toHttpString_lines m ▸ hsize)).mpr ((keepsRest_lines h).mpr hkept)
    rw [splitStrToMap_block hnil, toHttpString_lines, hsplit, hlines, Option.bind_some, hm', hsame]

/-- A line that is cut off is missing in the map. -/
theorem kept_of_round_trip (h : PlainEntries m) (hsize : (toHttpString m).length < 9223372036854775808)
    (hback : splitStrToMap (toHttpString m) g_crlf (Lib.text ":") .empty = some m) : LengthsKept m := by
  by_cases hnil : toHttpString m = []
  · exact lengthsKept_of_short h (by rw [hnil]; decide)
  · have hlines := toHttpString_lines m
    have hcount := pieces_length_le g_crlf_ne (m.entries.map headerLine)
    have hclean : ∀ l ∈ m.entries.map headerLine, ∀ c ∈ l, c ∉ g_crlf := fun l hl => (h.line hl).2
    rw [splitStrToMap_block hnil, hlines] at hback
    rw [hlines] at hsize
    obtain ⟨vec, hvec, hfold⟩ := Option.bind_eq_some_iff.mp hback
    obtain ⟨j, rfl⟩ := splitLoop_front g_crlf_ne hclean hcount hsize hvec
    have hfront : ((m.entries.map headerLine).take j).filter (· ≠ []) = (m.entries.take j).map headerLine := by
      rw [← List.map_take, List.filter_eq_self]
      exact fun l hl => decide_eq_true (h.line (List.map_subset _ (List.take_subset j _) hl)).1
    have hkeys : ∀ e ∈ m.entries.take j, e.1 ≠ [] ∧ 58 ∉ e.1 ∧ 0 ∉ e.1 := fun e he =>
      h.keys (List.mem_of_mem_take he)
    obtain ⟨m', hm', hentries⟩ := insertPieces_sorted (m := .empty) hkeys (m.sorted.sublist (List.take_sublist j _))
    rw [hfront, hm'] at hfold
    cases hfold
    have hall : m.entries.take j = m.entries := hentries.symm
    refine (keepsRest_lines h).mp ((splitLoop_pieces_iff g_crlf_ne hclean hcount hsize).mp ?_)
    rw [hvec, hfront, hall, List.filter_eq_self.mpr fun l hl => decide_eq_true (h.line hl).1]

/-- For every map of plain entries whose block a `std::string` can hold: the block is split into the same map if and
only if the `int` of the length cuts no line off. -/
theorem header_round_trip_iff (h : PlainEntries m) (hsize : (toHttpString m).length < 9223372036854775808) :
    splitStrToMap (toHttpString m) g_crlf (Lib.text ":") .empty = some m ↔ LengthsKept m :=
  ⟨kept_of_round_trip h hsize, round_trip_of_kept h hsize⟩

/-- A value may be empty, and it may have a colon. -/
def proxied : StringMap := (StringMap.empty.insert (Lib.text "Host") (Lib.text "h:80")).insert (Lib.text "Via") []

theorem header_round_trip_proxied :
    splitStrToMap (toHttpString proxied) g_crlf (Lib.text ":") .empty = some proxied := by
  have hplain : PlainEntries proxied := by unfold PlainEntries; decide
  exact (header_round_trip_iff hplain (by decide)).mpr (lengthsKept_of_short hplain (by decide))

/-! ## A value of 2^32 bytes -/

/-- Two headers, the second with a value of `n` bytes. -/
def longHeader (n : Nat) : StringMap :=
  (StringMap.empty.insert (Lib.text "a") (Lib.text "1")).insert (Lib.text "b") (List.replicate n 120)

theorem longHeader_entries (n : Nat) :
    (longHeader n).entries = [(Lib.text "a", Lib.text "1"), (Lib.text "b", List.replicate n 120)] := by
  have hlt : ¬Lib.text "b" < Lib.text "a" ∧ Lib.text "b" ≠ Lib.text "a" := by decide
  simp only [longHeader, StringMap.insert, StringMap.empty, insertEntry, if_neg hlt.1, if_neg hlt.2]

theorem longHeader_length (n : Nat) : (toHttpString (longHeader n)).length = n + 9 := by
  have hfirst : (headerLine (Lib.text "a", Lib.text "1")).length = 3 := by decide
  have hsecond : (headerLine (Lib.text "b", List.replicate n 120)).length = 2 + n := by
    have hkey : (Lib.text "b").length = 1 := by decide
    rw [headerLine_eq, List.length_append, List.length_cons, List.length_replicate, hkey]
    omega
  have hcrlf : g_crlf.length = 2 := rfl
  have hnone : (([] : List Bytes).flatMap (· ++ g_crlf)).length = 0 := rfl
  rw [toHttpString_lines, longHeader_entries, List.map_cons, List.map_cons, List.map_nil, pieces_length_cons,
    pieces_length_cons]
  omega

theorem longHeader_plain (n : Nat) : PlainEntries (longHeader n) := by
  intro e he
  rw [longHeader_entries] at he
  rcases List.mem_pair.mp he with rfl | rfl
  · decide
  · have hkey : Lib.text "b" ≠ [] ∧ 58 ∉ Lib.text "b" ∧ 13 ∉ Lib.text "b" ∧ 10 ∉ Lib.text "b" ∧ 0 ∉ Lib.text "b" := by
      decide
    refine ⟨hkey, fun hc => ?_, fun hc => ?_⟩
    · exact absurd (List.eq_of_mem_replicate hc) (by decide)
    · exact absurd (List.eq_of_mem_replicate hc) (by decide)

/-- The block has 2^32 + 9 bytes, and the `int` is 9: of the second line four bytes are left, and it does not come
out. -/
theorem long_header_lost : PlainEntries (longHeader 4294967296) ∧
    splitStrToMap (toHttpString (longHeader 4294967296)) g_crlf (Lib.text ":") .empty ≠
      some (longHeader 4294967296) := by
  refine ⟨longHeader_plain _, fun hback => ?_⟩
  have hlength := longHeader_length 4294967296
  have hkept := kept_of_round_trip (longHeader_plain _) (by rw [hlength]; decide) hback
  have hline : (headerLine (Lib.text "a", Lib.text "1")).length + g_crlf.length = 5 := by decide
  rw [toHttpString_lines, longHeader_entries, List.map_cons] at hlength
  refine hkept _ _ (by rw [longHeader_entries]; exact List.suffix_rfl) ?_
  rw [hlength, hline]
  decide

/-! ## Line ends in what `Decode` stores -/

def NoLineEnd (s : Bytes) : Prop := 13 ∉ s ∧ 10 ∉ s

theorem NoLineEnd.sublist {s t : Bytes} (h : NoLineEnd t) (hs : s.Sublist t) : NoLineEnd s :=
  ⟨fun hc => h.1 (hs.subset hc), fun hc => h.2 (hs.subset hc)⟩

def NoLineEnds (m : StringMap) : Prop := ∀ e ∈ m.entries, NoLineEnd e.1 ∧ NoLineEnd e.2

theorem noLineEnds_empty : NoLineEnds .empty := fun _ he => absurd he List.not_mem_nil

theorem NoLineEnds.insert {k v : Bytes} (h : NoLineEnds m) (hk : NoLineEnd k) (hv : NoLineEnd v) :
    NoLineEnds (m.insert k v) := by
  intro e he
  rcases mem_insertEntry he with rfl | he
  · exact ⟨hk, hv⟩
  · exact h e he

theorem NoLineEnds.get {k v : Bytes} (h : NoLineEnds m) (hv : m.get? k = some v) : NoLineEnd v := by
  obtain ⟨e, he, rfl⟩ := Option.map_eq_some_iff.mp hv
  exact (h e (List.mem_of_find?_eq_some he)).2

theorem NoLineEnds.index {k : Bytes} (h : NoLineEnds m) (hk : NoLineEnd k) :
    NoLineEnd (m.index k).1 ∧ NoLineEnds (m.index k).2 := by
  have hnil : NoLineEnd [] := ⟨List.not_mem_nil, List.not_mem_nil⟩
  rw [StringMap.index]
  cases hget : m.get? k with
  | some v => exact ⟨h.get hget, h⟩
  | none => exact ⟨hnil, h.insert hk hnil⟩

theorem insertPiece_noLineEnds {joiner l : Bytes} (hm : NoLineEnds m) (hl : NoLineEnd l)
    (h : insertPiece joiner m l = some m') : NoLineEnds m' := by
  rw [insertPiece] at h
  split at h
  · cases h
    exact hm
  · split at h
    · cases h
      exact hm
    · obtain ⟨value, hvalue, rfl⟩ := Option.map_eq_some_iff.mp h
      rw [substr] at hvalue
      split at hvalue
      · cases hvalue
        refine hm.insert (hl.sublist ?_) (hl.sublist ?_)
        · exact (List.takeWhile_sublist _).trans (List.take_sublist _ _)
        · exact (List.take_sublist _ _).trans (List.drop_sublist _ _)
      · cases hvalue

theorem insertPieces_noLineEnds {joiner : Bytes} {ls : List Bytes} (hm : NoLineEnds m) (hls : ∀ l ∈ ls, NoLineEnd l)
    (h : ls.foldlM (insertPiece joiner) m = some m') : NoLineEnds m' := by
  induction ls generalizing m with
  | nil =>
      cases h
      exact hm
  | cons l ls ih =>
      rw [List.foldlM_cons] at h
      obtain ⟨m₁, hm₁, h⟩ := Option.bind_eq_some_iff.mp h
      exact ih (insertPiece_noLineEnds hm (hls l List.mem_cons_self) hm₁)
        (fun l' hl' => hls l' (List.mem_cons_of_mem l hl')) h

/-- The block is cut in front of every byte of a line end, so none comes into a key or a value. -/
theorem parseHttpRequestHeader_noLineEnds {ok : Bool} {str : Bytes} (hr : NoLineEnds r.requesetHeader)
    (h : parseHttpRequestHeader r str = some (ok, r')) : NoLineEnds r'.requesetHeader := by
  rw [parseHttpRequestHeader] at h
  split at h
  · cases h
    exact hr
  · obtain ⟨maps, hmaps, he⟩ := Option.map_eq_some_iff.mp h
    cases he
    rw [splitStrToMap] at hmaps
    split at hmaps
    · cases hmaps
      exact hr
    · obtain ⟨vec, hvec, hfold⟩ := Option.bind_eq_some_iff.mp hmaps
      refine insertPieces_noLineEnds hr (fun l hl => ?_) hfold
      rw [splitStrToVector] at hvec
      split at hvec
      · cases hvec
        exact absurd hl List.not_mem_nil
      · split at hvec
        · cases hvec
        · have hclean := (splitLoop_clean hvec l hl).2
          exact ⟨fun hc => hclean 13 hc (by decide), fun hc => hclean 10 hc (by decide)⟩

theorem contentLength_noLineEnd : NoLineEnd (Lib.text "Content-Length") := by unfold NoLineEnd; decide

theorem parseHttpRequestContent_header (r : HttpRequest) (str : Bytes) :
    (parseHttpRequestContent r str).2.requesetHeader = r.requesetHeader := by
  rw [parseHttpRequestContent]
  split <;> rfl

theorem decodeContent_noLineEnds {b b' : TcpBuffer} {tmp : Bytes} {total size : Int} (hr : NoLineEnds r.requesetHeader)
    (h : decodeContent b r tmp total size = some (b', r')) : NoLineEnds r'.requesetHeader := by
  have hindex := (hr.index contentLength_noLineEnd).2
  rw [decodeContent] at h
  dsimp only at h
  split at h
  · cases h
    exact hindex
  · split at h
    · generalize hp : parseHttpRequestContent _ _ = p at h
      have hheader : NoLineEnds p.2.requesetHeader := by
        rw [← hp, parseHttpRequestContent_header]
        exact hindex
      split at h
      · obtain ⟨b₁, -, he⟩ := Option.map_eq_some_iff.mp h
        cases he
        exact hheader
      · cases h
        exact hheader
    · obtain ⟨b₁, -, he⟩ := Option.map_eq_some_iff.mp h
      cases he
      exact hindex

theorem decodeHeader_noLineEnds {b b' : TcpBuffer} {tmp : Bytes} {total size : Int} (hr : NoLineEnds r.requesetHeader)
    (h : decodeHeader b r tmp total size = some (b', r')) : NoLineEnds r'.requesetHeader := by
  rw [decodeHeader] at h
  split at h
  · cases h
    exact hr
  · obtain ⟨⟨ok, r₁⟩, hhead, h⟩ := Option.bind_eq_some_iff.mp h
    have hr₁ := parseHttpRequestHeader_noLineEnds hr hhead
    dsimp only at h
    split at h
    · exact decodeContent_noLineEnds hr₁ h
    · cases h
      exact hr₁

/-- Whatever is in the buffer, and whatever comes of it. -/
theorem decode_noLineEnds {b b' : TcpBuffer} (hr : NoLineEnds r.requesetHeader)
    (h : HttpCodeC.decode b r = some (b', r')) : NoLineEnds r'.requesetHeader := by
  rw [HttpCodeC.decode] at h
  obtain ⟨strs, -, h⟩ := Option.bind_eq_some_iff.mp h
  split at h
  · cases h
    exact hr
  · split at h
    · cases h
      exact hr
    · obtain ⟨⟨ok, r₁⟩, hline, h⟩ := Option.bind_eq_some_iff.mp h
      have hr₁ : NoLineEnds r₁.requesetHeader := (parseHttpRequestLine_untouched hline).2.2 ▸ hr
      dsimp only at h
      split at h
      · exact decodeHeader_noLineEnds hr₁ h
      · cases h
        exact hr₁

/-! ## Lines of a response -/

theorem decimal_noLineEnd (n : Nat) : NoLineEnd (decimal n) :=
  ⟨fun hc => absurd (decimal_digits n 13 hc).1 (by decide), fun hc => absurd (decimal_digits n 10 hc).1 (by decide)⟩

theorem getContentType_noLineEnd (fileExtension : Bytes) : NoLineEnd (HttpServlet.getContentType fileExtension) := by
  have hknown : ∀ e ∈ HttpServlet.contentTypes, NoLineEnd e.2 := by unfold NoLineEnd; decide
  rw [HttpServlet.getContentType]
  split
  · exact hknown _ (List.mem_of_find?_eq_some ‹_›)
  · unfold NoLineEnd
    decide

/-- The responses to `r` that a servlet builds with the functions of its base class. The code and its text have
nothing to do with the header. -/
inductive BuiltFor (r : HttpRequest) : HttpResponse → Prop
  | setCommParam (code : Int) : BuiltFor r (HttpServlet.setCommParam r { responseCode := code }).2
  | setHttpCode {res : HttpResponse} (h : BuiltFor r res) (code : Int) : BuiltFor r (HttpServlet.setHttpCode res code)
  | handleNotFound {res : HttpResponse} (h : BuiltFor r res) : BuiltFor r (HttpServlet.handleNotFound res)
  | setHttpContentTypeForFile {res : HttpResponse} (h : BuiltFor r res) (filepath : Bytes) :
      BuiltFor r (HttpServlet.setHttpContentTypeForFile res filepath)
  | setHttpBody {res : HttpResponse} (h : BuiltFor r res) (body : Bytes) : BuiltFor r (HttpServlet.setHttpBody res body)

theorem BuiltFor.noLineEnds {res : HttpResponse} (h : BuiltFor r res) (hr : NoLineEnds r.requesetHeader) :
    NoLineEnds res.responseHeader := by
  have hlength := contentLength_noLineEnd
  have htype : NoLineEnd (Lib.text "Content-Type") := by unfold NoLineEnd; decide
  induction h with
  | setCommParam code =>
      have hconnection : NoLineEnd (Lib.text "Connection") := by unfold NoLineEnd; decide
      exact noLineEnds_empty.insert hconnection (hr.index hconnection).1
  | setHttpCode _ code ih => exact ih
  | handleNotFound _ ih =>
      have hhtml : NoLineEnd content_type_text := by unfold NoLineEnd; decide
      exact (ih.insert htype hhtml).insert hlength (decimal_noLineEnd _)
  | setHttpContentTypeForFile _ filepath ih => exact ih.insert htype (getContentType_noLineEnd _)
  | setHttpBody _ body ih => exact ih.insert hlength (decimal_noLineEnd _)

/-- Cut at its line ends, the block has one line for each entry and nothing else, and no other byte of a line end. -/
structure OneLinePerEntry (header : StringMap) (block : Bytes) : Prop where
  lines : cutAt g_crlf block = header.entries.map headerLine ++ [[]]
  clean : ∀ l ∈ header.entries.map headerLine, NoLineEnd l

theorem NoLineEnds.oneLinePerEntry (h : NoLineEnds m) : OneLinePerEntry m (toHttpString m) := by
  have hclean : ∀ l ∈ m.entries.map headerLine, NoLineEnd l := by
    intro l hl
    obtain ⟨e, he, rfl⟩ := List.mem_map.mp hl
    obtain ⟨hk, hv⟩ := h e he
    have hcolon : NoLineEnd (Lib.text ":") := by unfold NoLineEnd; decide
    rw [headerLine]
    constructor
    · simp [hk.1, hv.1, hcolon.1]
    · simp [hk.2, hv.2, hcolon.2]
  refine ⟨?_, hclean⟩
  rw [toHttpString_lines]
  exact cutAt_pieces fun l hl => (hclean l hl).1

def statusLine (res : HttpResponse) : Bytes :=
  res.responseVersion ++ Lib.text " " ++ decimal res.responseCode ++ Lib.text " " ++ res.responseInfo

/-- For every content of the buffer: no line end gets into the header lines that `Decode` stores, so the response that
is built for the request and encoded has one header line for each entry. -/
theorem no_header_injection {b b' : TcpBuffer} (h : HttpCodeC.decode b {} = some (b', r)) :
    NoLineEnds r.requesetHeader ∧ ∀ res, BuiltFor r res → ∃ block, OneLinePerEntry res.responseHeader block ∧
      httpRes res = statusLine res ++ g_crlf ++ block ++ g_crlf ++ res.responseBody := by
  have hr := decode_noLineEnds noLineEnds_empty h
  exact ⟨hr, fun res hres => ⟨toHttpString res.responseHeader, (hres.noLineEnds hr).oneLinePerEntry, rfl⟩⟩

/-- A lone carriage return, and a line that the client would like to see in the response. -/
def smuggled : TcpBuffer where
  buffer := Lib.text "GET / HTTP/1.1\r\nConnection:a\rXSet-Cookie:b\r\n\r\n"
  readIndex := 0
  writeIndex := 46

theorem no_header_injection_smuggled : ∃ b' r, HttpCodeC.decode smuggled {} = some (b', r) ∧
    r.requesetHeader.get? (Lib.text "Connection") = some (Lib.text "a") ∧ NoLineEnds r.requesetHeader := by
  have hvalue : ((HttpCodeC.decode smuggled {}).map fun p => p.2.requesetHeader.get? (Lib.text "Connection")) =
      some (some (Lib.text "a")) := by decide
  obtain ⟨⟨b', r⟩, hdec, hget⟩ := Option.map_eq_some_iff.mp hvalue
  exact ⟨b', r, hdec, hget, (no_header_injection hdec).1⟩

end Tirpc
