import Mathlib.Data.List.Nodup
import Tirpc.Common.Lemmas.Util
import Tirpc.Http.Lemmas.Decode
import Tirpc.Http.Request

/-!
# The head of a written request

How `Decode` cuts the text of a request into the request line, the header block and what follows.
-/

namespace Tirpc

open Lib TcpBuffer HttpCodeC

namespace WrittenRequest

variable {r r' : WrittenRequest} {t : Bytes} {m : StringMap} {d d' : HttpRequest} {url : Bytes} {s1 s2 : Nat}

/-! ## The text -/

theorem line_clean (r : WrittenRequest) : ∀ c ∈ r.line, c ≠ 13 ∧ c ≠ 10 := by
  have hmethod : ∀ c ∈ methodText r.method, c ≠ 13 ∧ c ≠ 10 := by cases r.method <;> decide +kernel
  have hversion : ∀ c ∈ r.version, c ≠ 13 ∧ c ≠ 10 := by
    rcases r.version_known with h | h <;> rw [h] <;> decide +kernel
  have hspace : ∀ c ∈ Lib.text " ", c ≠ 13 ∧ c ≠ 10 := by decide +kernel
  intro c hc
  simp only [line, List.mem_append] at hc
  rcases hc with (((hc | hc) | hc) | hc) | hc
  · exact hmethod c hc
  · exact hspace c hc
  · exact (r.target_clean c hc).2
  · exact hspace c hc
  · exact hversion c hc

theorem line_ne_nil (r : WrittenRequest) : r.line ≠ [] := by
  rw [line]
  cases r.method <;> simp [methodText, Lib.text]

theorem headerLine_eq (h : Bytes × Bytes) : headerLine h = h.1 ++ 58 :: h.2 := by
  rw [headerLine, show Lib.text ":" = [58] by decide, List.append_assoc, List.singleton_append]

theorem headerLine_clean {l : Bytes} (hl : l ∈ r.headers.map headerLine) : l ≠ [] ∧ 13 ∉ l ∧ 10 ∉ l := by
  obtain ⟨h, hh, rfl⟩ := List.mem_map.mp hl
  obtain ⟨hne, hname⟩ := r.names_clean h hh
  have hvalue := r.values_clean h hh
  have hclean : ∀ c ∈ headerLine h, c ≠ 13 ∧ c ≠ 10 := by
    intro c hc
    rw [headerLine_eq] at hc
    rcases List.mem_append.mp hc with hc | hc
    · exact ⟨(hname c hc).2.1, (hname c hc).2.2.1⟩
    · rcases List.mem_cons.mp hc with rfl | hc
      · decide
      · exact hvalue c hc
  refine ⟨?_, fun hc => (hclean 13 hc).1 rfl, fun hc => (hclean 10 hc).2 rfl⟩
  rw [headerLine_eq]
  simp

theorem text_eq (hh : r.headers ≠ []) :
    r.text = r.line ++ (g_crlf ++ (r.headerBlock ++ (g_crlf_double ++ r.body))) := by
  obtain ⟨h, hs, he⟩ := List.exists_cons_of_ne_nil hh
  have hblock := intercalate_append_sep g_crlf (headerLine h) (hs.map headerLine)
  have hflat : (r.headers.flatMap fun h => headerLine h ++ g_crlf) = r.headerBlock ++ g_crlf := by
    rw [headerBlock, he, List.map_cons, hblock, ← List.map_cons, List.flatMap_map]
  have hdouble : g_crlf_double = g_crlf ++ g_crlf := rfl
  rw [text, hflat, hdouble]
  simp only [List.append_assoc]

theorem body_nil (hh : r.headers = []) : r.body = [] := by
  refine Decidable.byContradiction fun hb => ?_
  obtain ⟨v, hv, -⟩ := r.length_announced hb
  rw [hh] at hv
  exact absurd hv List.not_mem_nil

theorem text_bare (hh : r.headers = []) : r.text = r.line ++ (g_crlf ++ g_crlf) := by
  simp [text, hh, body_nil hh, List.append_assoc]

/-- The first line end is that of the request line. -/
theorem find_line (r : WrittenRequest) (t : Bytes) : find g_crlf (r.line ++ (g_crlf ++ t)) = some r.line.length := by
  have hno : 13 ∉ r.line := fun hc => (r.line_clean 13 hc).1 rfl
  have hhere : find g_crlf (g_crlf ++ t) = some 0 := find_here _ _ (by decide)
  rw [show find g_crlf (r.line ++ (g_crlf ++ t)) = _ from find_skip hno (g_crlf ++ t)]
  rw [show find [13, 10] (g_crlf ++ t) = some 0 from hhere, Option.map_some, Nat.zero_add]

/-! ## The request line -/

/-- The request line gives the method and the version, and has nothing to do with the header lines. -/
def SameHead (d d' : HttpRequest) : Prop :=
  d'.requestMethod = d.requestMethod ∧ d'.requestVersion = d.requestVersion ∧ d'.requesetHeader = d.requesetHeader

theorem parsePath_accepts (d : HttpRequest) (url : Bytes) :
    ∃ d', parsePath d url = some (true, d') ∧ SameHead d d' := by
  rw [parsePath]
  split
  · exact ⟨_, rfl, rfl, rfl, rfl⟩
  · rename_i j hj
    have hamp : Lib.text "&" = [38] := by decide
    have heq : Lib.text "=" = [61] := by decide
    obtain ⟨maps, hmaps⟩ := Option.isSome_iff_exists.mp (StringUtil.splitStrToMap_isSome (a := 38) (b := 61)
      ((url.drop (j + 1)).take (url.length - j - 1)) d.queryMaps)
    simp only [hamp, heq, hmaps, Option.map_some]
    exact ⟨_, rfl, rfl, rfl, rfl⟩

theorem parseUrl_accepts (d : HttpRequest) (s1 s2 : Nat) (hurl : find (Lib.text "://") url ≠ some (url.length - 3)) :
    ∃ d', parseUrl d url s1 s2 = some (true, d') ∧ SameHead d d' := by
  rw [parseUrl]
  split
  · exact parsePath_accepts d url
  · rename_i j hj
    have hle := find_le hj
    rw [show (Lib.text "://").length = 3 by decide] at hle
    have hlt : ¬j + 3 ≥ url.length := fun hge => hurl (by rw [hj, show url.length - 3 = j by omega])
    rw [if_neg hlt]
    dsimp only
    split
    · exact ⟨d, rfl, rfl, rfl, rfl⟩
    · split
      · exact ⟨d, rfl, rfl, rfl, rfl⟩
      · exact parsePath_accepts d _

theorem parseUrl_rejects (hurl : find (Lib.text "://") url = some (url.length - 3)) :
    parseUrl d url s1 s2 = some (false, d) := by
  have hle := find_le hurl
  rw [show (Lib.text "://").length = 3 by decide] at hle
  rw [parseUrl, hurl]
  exact if_pos (by omega)

theorem parseVersion_line (r : WrittenRequest) (d : HttpRequest) :
    parseVersion d r.line (methodText r.method).length ((methodText r.method).length + 1 + r.target.length) =
      parseUrl { d with requestVersion := r.version } r.target (methodText r.method).length
        ((methodText r.method).length + 1 + r.target.length) := by
  have hline : r.line = methodText r.method ++ Lib.text " " ++ r.target ++ Lib.text " " ++ r.version := rfl
  have hspace : (Lib.text " ").length = 1 := by decide
  have hlen : r.line.length = (methodText r.method).length + 1 + r.target.length + 1 + r.version.length := by
    simp only [hline, List.length_append, hspace]
  have hbehind : r.line.drop ((methodText r.method).length + 1 + r.target.length + 1) = r.version := by
    rw [hline, List.drop_left']
    simp only [List.length_append, hspace]
  have htarget : (r.line.drop ((methodText r.method).length + 1)).take r.target.length = r.target := by
    rw [hline, List.append_assoc, List.append_assoc, List.drop_left', List.take_left]
    simp only [List.length_append, hspace]
  have hupper : r.version.map toUpper = r.version := by
    rcases r.version_known with h | h <;> rw [h] <;> decide
  have hknown : ¬(r.version ≠ Lib.text "HTTP/1.1" ∧ r.version ≠ Lib.text "HTTP/1.0") := by
    rintro ⟨h1, h0⟩
    exact r.version_known.elim h0 h1
  have hbetween : (methodText r.method).length + 1 + r.target.length - (methodText r.method).length - 1 =
      r.target.length := by omega
  rw [parseVersion, hbehind, List.take_of_length_le (by omega), hupper, if_neg hknown, hbetween, htarget]

theorem parseHttpRequestLine_line (r : WrittenRequest) :
    parseHttpRequestLine {} r.line =
      parseUrl { requestMethod := some r.method, requestVersion := r.version } r.target (methodText r.method).length
        ((methodText r.method).length + 1 + r.target.length) := by
  have hspace : Lib.text " " = [32] := by decide
  have hmethod : ∀ c ∈ methodText r.method, c ∉ [32] := by cases r.method <;> decide +kernel
  have hversion : ∀ c ∈ r.version, c ∉ [32] := by
    rcases r.version_known with h | h <;> rw [h] <;> decide +kernel
  have hfirst : findFirstOf (Lib.text " ") r.line = some (methodText r.method).length := by
    have h := findFirstOf_skip hmethod List.mem_cons_self (r.target ++ 32 :: r.version)
    rw [line, hspace]
    simpa [List.append_assoc] using h
  have hlast : findLastOf (Lib.text " ") r.line = some ((methodText r.method).length + 1 + r.target.length) := by
    have h := findLastOf_skip hversion List.mem_cons_self (methodText r.method ++ [32] ++ r.target)
    rw [line, hspace]
    simpa [List.append_assoc, Nat.add_assoc, Nat.add_comm 1] using h
  have htake : r.line.take (methodText r.method).length = methodText r.method := by
    rw [line, List.append_assoc, List.append_assoc, List.append_assoc, List.take_left]
  have hupper : (methodText r.method).map toUpper = methodText r.method := by cases r.method <;> decide
  rw [parseHttpRequestLine, hfirst, hlast]
  dsimp only
  rw [if_neg (by omega), htake, hupper]
  have hversion := parseVersion_line r
  cases hm : r.method with
  | GET =>
      simp only [hm] at hversion
      rw [if_pos (by rfl), hversion]
  | POST =>
      simp only [hm] at hversion
      rw [if_neg (by decide), if_pos (by rfl), hversion]

/-! ## The header block -/

/-- Lines with line ends between them, of which at most the first is empty. -/
theorem parseHttpRequestHeader_lines {l : Bytes} {ls : List Bytes} (hl : 13 ∉ l ∧ 10 ∉ l)
    (hls : ∀ l ∈ ls, l ≠ [] ∧ 13 ∉ l ∧ 10 ∉ l) (hne : ls = [] → l ≠ [])
    (hlen : 4 ≤ (g_crlf.intercalate (l :: ls)).length)
    (hshort : (g_crlf.intercalate (l :: ls)).length < 4294967294) :
    parseHttpRequestHeader d (g_crlf.intercalate (l :: ls)) =
      (((l :: ls).filter (· ≠ [])).foldlM (StringUtil.insertPiece [58]) d.requesetHeader).map fun maps =>
        (true, { d with requesetHeader := maps }) := by
  have hcolon : Lib.text ":" = [58] := by decide
  obtain ⟨x, c, hlast, hc⟩ := intercalate_last g_crlf (b := 10) (fun l hl => ⟨(hls l hl).1, (hls l hl).2.2⟩)
    fun hnil => ⟨hne hnil, hl.2⟩
  have hnil : g_crlf.intercalate (l :: ls) ≠ [] := by
    rw [hlast]
    exact List.append_ne_nil_of_right_ne_nil x (List.cons_ne_nil c [])
  have hdouble : g_crlf.intercalate (l :: ls) ≠ g_crlf_double := by
    intro he
    have hend := congrArg List.getLast? (hlast.symm.trans he)
    rw [List.getLast?_concat] at hend
    exact hc (Option.some.inj hend)
  have hskip : ¬(g_crlf.intercalate (l :: ls) = [] ∨ (g_crlf.intercalate (l :: ls)).length < 4 ∨
      g_crlf.intercalate (l :: ls) = g_crlf_double) := by
    rintro (h | h | h)
    · exact hnil h
    · exact absurd hlen (Nat.not_le.mpr h)
    · exact hdouble h
  have hstr : ¬(g_crlf.intercalate (l :: ls) = [] ∨ g_crlf = [] ∨ [58] = ([] : Bytes)) := by
    rintro (h | h | h)
    · exact hnil h
    · exact absurd h (by decide)
    · exact absurd h (by decide)
  have hvec : StringUtil.splitStrToVector (g_crlf.intercalate (l :: ls)) g_crlf = some ((l :: ls).filter (· ≠ [])) :=
    StringUtil.splitStrToVector_lines (List.forall_mem_cons.mpr ⟨hl, fun l' hl' => (hls l' hl').2⟩)
      (List.cons_ne_nil l ls) (Nat.le_trans (by decide) hlen) hshort
  rw [parseHttpRequestHeader, if_neg hskip, hcolon, StringUtil.splitStrToMap, if_neg hstr, hvec, Option.bind_some]

/-- Header lines with distinct names: each of them ends up in the map. -/
theorem insertPieces_headers {hs : List (Bytes × Bytes)} (hclean : ∀ h ∈ hs, h.1 ≠ [] ∧ 58 ∉ h.1 ∧ 0 ∉ h.1)
    (hnodup : (hs.map Prod.fst).Nodup) (m : StringMap) :
    ∃ m', (hs.map headerLine).foldlM (StringUtil.insertPiece [58]) m = some m' ∧
      ∀ k, m'.get? k = ((hs.find? fun h => h.1 = k).map Prod.snd).or (m.get? k) := by
  induction hs generalizing m with
  | nil => exact ⟨m, rfl, fun k => rfl⟩
  | cons h hs ih =>
      obtain ⟨hne, hcolon, hzero⟩ := hclean h List.mem_cons_self
      obtain ⟨hnot, hrest⟩ := List.nodup_cons.mp hnodup
      obtain ⟨m', hm', hget⟩ := ih (fun h' hh' => hclean h' (List.mem_cons_of_mem h hh')) hrest (m.insert h.1 h.2)
      refine ⟨m', ?_, fun k => ?_⟩
      · rw [List.map_cons, List.foldlM_cons, headerLine_eq, StringUtil.insertPiece_line hne hcolon hzero]
        exact hm'
      · rw [hget, StringMap.get?_insert, List.find?_cons]
        by_cases hk : h.1 = k
        · have hnone : (hs.find? fun h => h.1 = k) = none := by
            rw [List.find?_eq_none]
            intro h' hh' he
            exact hnot (List.mem_map.mpr ⟨h', hh', (of_decide_eq_true he).trans hk.symm⟩)
          simp [hk, hnone]
        · simp [hk]

theorem insertPieces_header? (r : WrittenRequest) (m : StringMap) :
    ∃ m', (r.headers.map headerLine).foldlM (StringUtil.insertPiece [58]) m = some m' ∧
      ∀ k, m'.get? k = (r.header? k).or (m.get? k) := by
  refine insertPieces_headers (fun h hh => ?_) r.names_nodup m
  obtain ⟨hne, hname⟩ := r.names_clean h hh
  exact ⟨hne, fun hc => (hname 58 hc).1 rfl, fun hc => (hname 0 hc).2.2.2 rfl⟩

theorem header?_mem {h : Bytes × Bytes} (hh : h ∈ r.headers) : r.header? h.1 = some h.2 := by
  have hsome : (r.headers.find? fun h' => h'.1 = h.1).isSome := by
    rw [List.find?_isSome]
    exact ⟨h, hh, decide_eq_true rfl⟩
  obtain ⟨h', hh'⟩ := Option.isSome_iff_exists.mp hsome
  have hname := List.find?_some hh'
  simp only [decide_eq_true_eq] at hname
  have heq : h' = h := List.inj_on_of_nodup_map r.names_nodup (List.mem_of_find?_eq_some hh') hh hname
  rw [header?, hh', heq]
  rfl

/-! ## The head -/

theorem text_line (r : WrittenRequest) : ∃ x, r.text = r.line ++ (g_crlf ++ x) ∧ 2 ≤ x.length := by
  refine ⟨(r.headers.flatMap fun h => headerLine h ++ g_crlf) ++ (g_crlf ++ r.body), ?_, ?_⟩
  · rw [text]
    simp only [List.append_assoc]
  · simp only [List.length_append, g_crlf, List.length_cons, List.length_nil]
    omega

theorem text_not_lone (r : WrittenRequest) (t : Bytes) :
    find g_crlf (r.text ++ t) ≠ some ((r.text ++ t).length - 2) := by
  obtain ⟨x, hx, hlen⟩ := r.text_line
  have hcrlf : g_crlf.length = 2 := rfl
  rw [hx, List.append_assoc, List.append_assoc, r.find_line]
  intro he
  have hat := Option.some.inj he
  simp only [List.length_append, hcrlf] at hat
  omega

theorem parsedHead_rejects (hs : r.EndsInScheme) (t : Bytes) : parsedHead (r.text ++ t) = none := by
  obtain ⟨x, hx, -⟩ := r.text_line
  rw [hx, List.append_assoc, List.append_assoc, parsedHead, splitRequest, r.find_line, Option.bind_some, List.take_left]
  cases find g_crlf_double ((r.line ++ (g_crlf ++ (x ++ t))).drop (r.line.length + 2)) with
  | none => rfl
  | some j =>
      rw [Option.map_some, Option.bind_some]
      dsimp only
      rw [parseHttpRequestLine_line, parseUrl_rejects hs]
      rfl

/-- A line without a scheme at its end, and a block that ends with the first blank line behind it. -/
theorem parsedHead_block (hs : ¬r.EndsInScheme) {block rest : Bytes}
    (hblock : find g_crlf_double (block ++ (g_crlf_double ++ rest)) = some block.length) :
    ∃ d, SameHead { requestMethod := some r.method, requestVersion := r.version } d ∧
      parsedHead (r.line ++ (g_crlf ++ (block ++ (g_crlf_double ++ rest)))) =
        (parseHttpRequestHeader d block).map fun p => (p.2, rest) := by
  obtain ⟨d, hd, hsame⟩ := parseUrl_accepts { requestMethod := some r.method, requestVersion := r.version }
    (methodText r.method).length ((methodText r.method).length + 1 + r.target.length) hs
  refine ⟨d, hsame, ?_⟩
  have hdrop : (r.line ++ (g_crlf ++ (block ++ (g_crlf_double ++ rest)))).drop (r.line.length + 2) =
      block ++ (g_crlf_double ++ rest) := by
    rw [← List.append_assoc, List.drop_left']
    rw [List.length_append]
    rfl
  have hrest : (block ++ (g_crlf_double ++ rest)).drop (block.length + 4) = rest := by
    rw [← List.append_assoc, List.drop_left']
    rw [List.length_append]
    rfl
  rw [parsedHead, splitRequest, r.find_line, Option.bind_some, List.take_left, hdrop, hblock, Option.map_some,
    Option.bind_some, List.take_left, hrest]
  dsimp only
  rw [parseHttpRequestLine_line, hd]
  rfl

/-- The lines of the block, the first of them apart. -/
theorem headerLines_cons (hh : r.headers ≠ []) : ∃ l ls, r.headers.map headerLine = l :: ls ∧
    r.headerBlock = g_crlf.intercalate (l :: ls) ∧ (l ≠ [] ∧ 13 ∉ l ∧ 10 ∉ l) ∧
    ∀ l ∈ ls, l ≠ [] ∧ 13 ∉ l ∧ 10 ∉ l := by
  obtain ⟨l, ls, he⟩ : ∃ l ls, r.headers.map headerLine = l :: ls :=
    List.exists_cons_of_ne_nil (mt List.map_eq_nil_iff.mp hh)
  have hclean : ∀ l' ∈ l :: ls, l' ≠ [] ∧ 13 ∉ l' ∧ 10 ∉ l' := fun l' hl' => headerLine_clean (r := r) (he ▸ hl')
  exact ⟨l, ls, he, by rw [headerBlock, he], hclean l List.mem_cons_self,
    fun l' hl' => hclean l' (List.mem_cons_of_mem l hl')⟩

theorem headerLines_filter (r : WrittenRequest) :
    (r.headers.map headerLine).filter (· ≠ []) = r.headers.map headerLine := by
  rw [List.filter_eq_self]
  exact fun l hl => decide_eq_true (headerLine_clean hl).1

theorem find_headerBlock (hh : r.headers ≠ []) (x : Bytes) :
    find g_crlf_double (r.headerBlock ++ (g_crlf_double ++ x)) = some r.headerBlock.length := by
  obtain ⟨l, ls, -, hblock, ⟨-, hl, -⟩, hls⟩ := headerLines_cons hh
  rw [hblock]
  exact find_blank_line (by decide) x hl fun l hl => ⟨(hls l hl).1, (hls l hl).2.1⟩

theorem parsedHead_text (hs : ¬r.EndsInScheme) (hh : r.headers ≠ []) (t : Bytes) :
    ∃ d, SameHead { requestMethod := some r.method, requestVersion := r.version } d ∧
      parsedHead (r.text ++ t) = (parseHttpRequestHeader d r.headerBlock).map fun p => (p.2, r.body ++ t) := by
  have htext : r.text ++ t = r.line ++ (g_crlf ++ (r.headerBlock ++ (g_crlf_double ++ (r.body ++ t)))) := by
    rw [text_eq hh]
    simp only [List.append_assoc]
  rw [htext]
  exact parsedHead_block hs (find_headerBlock hh (r.body ++ t))

/-- What the head of `r` has been parsed into. -/
structure HeadOf (r : WrittenRequest) (d : HttpRequest) : Prop where
  method : d.requestMethod = some r.method
  version : d.requestVersion = r.version

theorem parsedHead_short (hs : ¬r.EndsInScheme) (hh : r.headers ≠ []) (hlen : r.headerBlock.length < 4) (t : Bytes) :
    ∃ d, parsedHead (r.text ++ t) = some (d, r.body ++ t) ∧ d.requesetHeader = .empty := by
  obtain ⟨d, ⟨-, -, hempty⟩, hd⟩ := parsedHead_text hs hh t
  refine ⟨d, ?_, hempty⟩
  rw [hd, parseHttpRequestHeader, if_pos (.inr (.inl hlen))]
  rfl

/-- Such a block has no room for a `Content-Length`. -/
theorem short_block_name (hh : r.headers ≠ []) (hlen : r.headerBlock.length < 4) :
    ∃ h ∈ r.headers, Lib.text "Content-Length" ≠ h.1 := by
  obtain ⟨h, hs, he⟩ := List.exists_cons_of_ne_nil hh
  refine ⟨h, he ▸ List.mem_cons_self, fun heq => ?_⟩
  have hblock := congrArg List.length (intercalate_append_sep g_crlf (headerLine h) (hs.map headerLine))
  have hlong : (Lib.text "Content-Length").length = 14 := by decide
  rw [headerBlock, he, List.map_cons] at hlen
  simp only [List.flatMap_cons, List.length_append, headerLine_eq h, ← heq, hlong] at hblock
  rw [headerLine_eq h, ← heq] at hlen
  omega

theorem parsedHead_headers (hs : ¬r.EndsInScheme) (hlen : 4 ≤ r.headerBlock.length)
    (hshort : r.text.length < 2147483648) (t : Bytes) :
    ∃ d, parsedHead (r.text ++ t) = some (d, r.body ++ t) ∧ HeadOf r d ∧
      ∀ k, d.requesetHeader.get? k = r.header? k := by
  have hh : r.headers ≠ [] := by
    intro hnil
    rw [headerBlock, hnil] at hlen
    exact absurd hlen (by decide)
  obtain ⟨d, ⟨hmethod, hversion, hempty⟩, hd⟩ := parsedHead_text hs hh t
  obtain ⟨l, ls, he, hblock, ⟨hne, hl⟩, hls⟩ := headerLines_cons hh
  obtain ⟨maps, hmaps, hget⟩ := insertPieces_header? r d.requesetHeader
  have htotal := congrArg List.length (text_eq hh)
  simp only [List.length_append] at htotal
  have hlines := parseHttpRequestHeader_lines (d := d) hl hls (fun _ => hne) (hblock ▸ hlen) (by rw [← hblock]; omega)
  rw [← hblock, ← he, headerLines_filter, hmaps, Option.map_some] at hlines
  refine ⟨{ d with requesetHeader := maps }, ?_, ⟨hmethod, hversion⟩, fun k => ?_⟩
  · rw [hd, hlines]
    rfl
  · rw [show ({ d with requesetHeader := maps } : HttpRequest).requesetHeader = maps from rfl, hget, hempty]
    exact Option.or_none

/-! ## Without header lines -/

/-- Nothing follows that could end a header block. -/
theorem parsedHead_alone (hh : r.headers = []) : parsedHead r.text = none := by
  have hdrop : (r.line ++ (g_crlf ++ g_crlf)).drop (r.line.length + 2) = g_crlf := by
    rw [← List.append_assoc, List.drop_left']
    rw [List.length_append]
    rfl
  rw [text_bare hh, parsedHead, splitRequest, r.find_line, Option.bind_some, hdrop,
    show find g_crlf_double g_crlf = none by decide]
  rfl

/-- The head of the next request, which is taken for the header block. Its first line is empty. -/
def borrowedBlock (r : WrittenRequest) : Bytes := g_crlf.intercalate ([] :: r.line :: r.headers.map headerLine)

theorem borrowedBlock_lines (r : WrittenRequest) :
    ∀ l ∈ r.line :: r.headers.map headerLine, l ≠ [] ∧ 13 ∉ l ∧ 10 ∉ l := by
  intro l hl
  rcases List.mem_cons.mp hl with rfl | hl
  · exact ⟨r.line_ne_nil, fun hc => (r.line_clean 13 hc).1 rfl, fun hc => (r.line_clean 10 hc).2 rfl⟩
  · exact headerLine_clean hl

theorem borrowedBlock_text (r : WrittenRequest) : g_crlf ++ r.text = r.borrowedBlock ++ (g_crlf_double ++ r.body) := by
  have hdouble : g_crlf_double = g_crlf ++ g_crlf := rfl
  have hsep := intercalate_append_sep g_crlf [] (r.line :: r.headers.map headerLine)
  rw [hdouble, List.append_assoc, ← List.append_assoc, borrowedBlock, hsep, text]
  simp only [List.flatMap_cons, List.flatMap_map, List.nil_append, List.append_assoc]

theorem find_borrowedBlock (r : WrittenRequest) (x : Bytes) :
    find g_crlf_double (r.borrowedBlock ++ (g_crlf_double ++ x)) = some r.borrowedBlock.length :=
  find_blank_line (by decide) x List.not_mem_nil
    fun l hl => ⟨(r.borrowedBlock_lines l hl).1, (r.borrowedBlock_lines l hl).2.1⟩

theorem borrowedBlock_length (r : WrittenRequest) : 4 ≤ r.borrowedBlock.length := by
  have hlen := congrArg List.length r.borrowedBlock_text
  have hline : 2 ≤ r.line.length := by
    rw [line]
    cases r.method with
    | GET => simp [methodText, Lib.text]
    | POST => simp [methodText, Lib.text]
  simp only [text, List.length_append, g_crlf, g_crlf_double, List.length_cons, List.length_nil] at hlen
  omega

theorem line_no_length (r : WrittenRequest) : ¬Lib.text "Content-Length" <+: r.line := by
  rintro ⟨s, hs⟩
  have hfirst := congrArg List.head? hs
  rw [line] at hfirst
  cases hm : r.method <;> simp [hm, methodText, Lib.text] at hfirst

/-- The request line is split at a colon as header lines are, but its name is never that of the length. -/
theorem parseHttpRequestHeader_borrowed (hshort : r.text.length < 2147483648) (hd : d.requesetHeader = .empty) :
    ∃ maps, parseHttpRequestHeader d r.borrowedBlock = some (true, { d with requesetHeader := maps }) ∧
      maps.get? (Lib.text "Content-Length") = r.header? (Lib.text "Content-Length") := by
  obtain ⟨m, hm⟩ := Option.isSome_iff_exists.mp
    (StringUtil.insertPiece_isSome (c := 58) (m := d.requesetHeader) (l := r.line))
  obtain ⟨maps, hmaps, hget⟩ := insertPieces_header? r m
  have hcrlf : g_crlf.length = 2 := rfl
  have htotal := congrArg List.length r.borrowedBlock_text
  simp only [List.length_append] at htotal
  have hlines := parseHttpRequestHeader_lines (d := d) (l := []) ⟨List.not_mem_nil, List.not_mem_nil⟩
    r.borrowedBlock_lines nofun r.borrowedBlock_length (by rw [← borrowedBlock]; omega)
  rw [List.filter_cons_of_neg (by simp), List.filter_cons_of_pos (by simp [r.line_ne_nil]), headerLines_filter,
    List.foldlM_cons, hm, show (some m >>= _) = _ from hmaps, Option.map_some] at hlines
  refine ⟨maps, hlines, ?_⟩
  rw [hget, StringUtil.insertPiece_other hm r.line_no_length, hd]
  exact Option.or_none

theorem parsedHead_bare (hs : ¬r.EndsInScheme) (hh : r.headers = []) {r' : WrittenRequest}
    (hshort : r'.text.length < 2147483648) (t : Bytes) :
    ∃ d, parsedHead (r.text ++ (r'.text ++ t)) = some (d, r'.body ++ t) ∧ HeadOf r d ∧
      d.requesetHeader.get? (Lib.text "Content-Length") = r'.header? (Lib.text "Content-Length") := by
  have htext : r.text ++ (r'.text ++ t) =
      r.line ++ (g_crlf ++ (r'.borrowedBlock ++ (g_crlf_double ++ (r'.body ++ t)))) := by
    have hnext := r'.borrowedBlock_text
    rw [text_bare hh]
    simp only [List.append_assoc] at hnext ⊢
    rw [← List.append_assoc g_crlf r'.text, hnext]
    simp only [List.append_assoc]
  obtain ⟨d, ⟨hmethod, hversion, hempty⟩, hd⟩ := parsedHead_block hs (r'.find_borrowedBlock (r'.body ++ t))
  obtain ⟨maps, hmaps, hget⟩ := parseHttpRequestHeader_borrowed hshort hempty
  refine ⟨{ d with requesetHeader := maps }, ?_, ⟨hmethod, hversion⟩, hget⟩
  rw [htext, hd, hmaps]
  rfl

end WrittenRequest

end Tirpc
