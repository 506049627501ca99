import Tirpc.Common.Lemmas.Util
import Tirpc.Http.Codec
import Tirpc.Http.Request

/-!
# Request targets in origin form and in absolute form

The absolute form loses the first slash of its path. The origin form is taken for an absolute one where `://` stands in
it, also in its query.
-/

namespace Tirpc

open Lib HttpCodeC

variable {method version path host url : Bytes} {query : Option Bytes} {r r' : HttpRequest}

def requestLine (method target version : Bytes) : Bytes := method ++ text " " ++ target ++ text " " ++ version

def originForm (path : Bytes) : Option Bytes → Bytes
  | none => path
  | some query => path ++ text "?" ++ query

def absoluteForm (host path : Bytes) (query : Option Bytes) : Bytes := text "http://" ++ host ++ originForm path query

/-- A method and a version that the codec knows, in upper or lower case. -/
structure KnownLine (method version : Bytes) : Prop where
  method : ∃ m, method.map toUpper = methodText m
  version : version.map toUpper = text "HTTP/1.1" ∨ version.map toUpper = text "HTTP/1.0"

structure PlainTarget (host path : Bytes) (query : Option Bytes) : Prop where
  path_head : path.head? = some 47
  path_clean : 63 ∉ path ∧ 32 ∉ path
  query_clean : ∀ q ∈ query, 32 ∉ q
  host_ne : host ≠ []
  host_clean : 47 ∉ host ∧ 63 ∉ host ∧ 32 ∉ host

/-- The line is accepted, with this path and this query. -/
def Gives (line path : Bytes) (query : Option Bytes) : Prop :=
  ∃ r, parseHttpRequestLine {} line = some (true, r) ∧ r.requestPath = path ∧ r.requestQuery = query.getD []

/-- Both forms of the target give its path and its query. -/
def FormsAgree (method version host path : Bytes) (query : Option Bytes) : Prop :=
  Gives (requestLine method (originForm path query) version) path query ∧
    Gives (requestLine method (absoluteForm host path query) version) path query

/-! ## The line -/

theorem avoids {c : UInt8} {s : Bytes} (h : c ∉ s) : ∀ d ∈ s, d ∉ [c] := fun _ hd hmem =>
  h (List.mem_singleton.mp hmem ▸ hd)

/-- What stands behind a byte, read with the length that is left. -/
theorem rest_behind (s : Bytes) (c : UInt8) (rest : Bytes) :
    ((s ++ c :: rest).drop (s.length + 1)).take ((s ++ c :: rest).length - s.length - 1) = rest := by
  rw [List.drop_length_add_append, List.drop_succ_cons, List.drop_zero, List.take_of_length_le]
  simp only [List.length_append, List.length_cons]
  omega

theorem no_space_of_upper {s t : Bytes} (h : s.map toUpper = t) (ht : 32 ∉ t) : ∀ c ∈ s, c ∉ [32] := by
  intro c hc hspace
  refine ht (h ▸ List.mem_map.mpr ⟨c, hc, ?_⟩)
  rw [List.mem_singleton.mp hspace]
  rfl

/-- The parser of the line comes to the target, with a request that has neither path nor query. -/
theorem parse_requestLine (h : KnownLine method version) (target : Bytes) :
    ∃ r s1 s2, parseHttpRequestLine {} (requestLine method target version) = parseUrl r target s1 s2 ∧
      r.requestPath = [] ∧ r.requestQuery = [] ∧ s2 = s1 + 1 + target.length := by
  obtain ⟨⟨m, hm⟩, hv⟩ := h
  have hmethod : ∀ c ∈ method, c ∉ [32] := no_space_of_upper hm (by cases m <;> decide)
  have hversion : ∀ c ∈ version, c ∉ [32] := by
    rcases hv with hv | hv
    · exact no_space_of_upper hv (by decide)
    · exact no_space_of_upper hv (by decide)
  have hspace : text " " = [32] := text_singleton ' '
  have hline : requestLine method target version = method ++ 32 :: (target ++ 32 :: version) := by
    simp [requestLine, hspace]
  have hline' : requestLine method target version = (method ++ 32 :: target) ++ 32 :: version := by simp [hline]
  have hfirst : findFirstOf (text " ") (requestLine method target version) = some method.length := by
    rw [hline, hspace]
    exact findFirstOf_skip hmethod List.mem_cons_self _
  have hlast : findLastOf (text " ") (requestLine method target version) =
      some (method.length + 1 + target.length) := by
    rw [hline', hspace, findLastOf_skip hversion List.mem_cons_self, List.length_append, List.length_cons]
    congr 1
    omega
  have htake : (requestLine method target version).take method.length = method := by rw [hline, List.take_left]
  have hlen : (requestLine method target version).length = method.length + 1 + target.length + 1 + version.length := by
    simp only [hline, List.length_append, List.length_cons]
    omega
  have hbehind : (requestLine method target version).drop (method.length + 1 + target.length + 1) = version := by
    rw [requestLine, List.drop_left']
    simp only [List.length_append, hspace, List.length_singleton]
  have htarget : ((requestLine method target version).drop (method.length + 1)).take target.length = target := by
    rw [requestLine, List.append_assoc, List.append_assoc, List.drop_left', List.take_left]
    simp only [List.length_append, hspace, List.length_singleton]
  have hbetween : method.length + 1 + target.length - method.length - 1 = target.length := by omega
  have hknown : ¬(version.map toUpper ≠ text "HTTP/1.1" ∧ version.map toUpper ≠ text "HTTP/1.0") := by
    rintro ⟨h1, h0⟩
    exact hv.elim h1 h0
  have hparse : ∀ d : HttpRequest, parseVersion d (requestLine method target version) method.length
      (method.length + 1 + target.length) = parseUrl { d with requestVersion := version.map toUpper } target
        method.length (method.length + 1 + target.length) := by
    intro d
    rw [parseVersion, hbehind, List.take_of_length_le (by omega), if_neg hknown, hbetween, htarget]
  refine ⟨{ requestMethod := some m, requestVersion := version.map toUpper }, method.length,
    method.length + 1 + target.length, ?_, rfl, rfl, rfl⟩
  rw [parseHttpRequestLine, hfirst, hlast]
  dsimp only
  rw [if_neg (by omega), htake, hm]
  cases m with
  | GET => rw [if_pos (by rfl), hparse]
  | POST => rw [if_neg (by decide), if_pos (by rfl), hparse]

/-! ## Path and query -/

theorem splitQuery_isSome (q : Bytes) (m : StringMap) :
    ∃ maps, StringUtil.splitStrToMap q (text "&") (text "=") m = some maps := by
  rw [show text "&" = [38] from text_singleton '&', show text "=" = [61] from text_singleton '=']
  exact Option.isSome_iff_exists.mp (StringUtil.splitStrToMap_isSome q m)

theorem parsePath_origin (hpath : 63 ∉ path) (hr : r.requestQuery = []) :
    ∃ r', parsePath r (originForm path query) = some (true, r') ∧ r'.requestPath = path ∧
      r'.requestQuery = query.getD [] := by
  have hmark : text "?" = [63] := text_singleton '?'
  cases query with
  | none =>
      have hnone : findFirstOf (text "?") path = none := by
        rw [findFirstOf, hmark, List.findIdx?_eq_none_iff]
        exact fun c hc => decide_eq_false (avoids hpath c hc)
      rw [originForm, parsePath, hnone]
      exact ⟨_, rfl, rfl, hr⟩
  | some q =>
      have hform : originForm path (some q) = path ++ 63 :: q := by simp [originForm, hmark]
      have hfind : findFirstOf (text "?") (path ++ 63 :: q) = some path.length := by
        rw [hmark]
        exact findFirstOf_skip (avoids hpath) List.mem_cons_self q
      obtain ⟨maps, hmaps⟩ := splitQuery_isSome q r.queryMaps
      rw [hform, parsePath, hfind]
      simp only [rest_behind, hmaps, Option.map_some, List.take_left]
      exact ⟨_, rfl, rfl, rfl⟩

/-- Path and query are taken from the text, without any of its bytes twice. -/
theorem parsePath_length {ok : Bool} (h : parsePath r url = some (ok, r')) (hr : r.requestQuery = []) :
    r'.requestPath.length + r'.requestQuery.length ≤ url.length := by
  rw [parsePath] at h
  split at h
  · cases h
    rw [hr]
    exact Nat.le_refl _
  · rename_i j hj
    obtain ⟨maps, -, he⟩ := Option.map_eq_some_iff.mp h
    cases he
    simp only [List.length_take, List.length_drop]
    omega

/-! ## The two forms -/

theorem find_http (rest : Bytes) : find (text "://") (text "http://" ++ rest) = some 4 := by
  have hscheme : text "http://" ++ rest = text "http" ++ (text "://" ++ rest) := by
    rw [← List.append_assoc]
    exact congrArg (· ++ rest) (by decide)
  have hmark : text "://" = 58 :: [47, 47] := by decide
  have hcolon : (58 : UInt8) ∉ text "http" := by decide
  rw [hscheme, hmark, find_skip hcolon, find_here _ _ (by decide)]
  rfl

/-- The absolute form comes out without the first slash of its path. -/
theorem absolute_gives (h : KnownLine method version) (ht : PlainTarget host path query) :
    Gives (requestLine method (absoluteForm host path query) version) path.tail query := by
  obtain ⟨r, s1, s2, hparse, hrPath, hrQuery, hs⟩ := parse_requestLine h (absoluteForm host path query)
  obtain ⟨hhead, ⟨hquestion, -⟩, -, hhost, ⟨hslash, -, -⟩⟩ := ht
  obtain ⟨tail, rfl⟩ : ∃ tail, path = 47 :: tail := List.head?_eq_some_iff.mp hhead
  have htail : 63 ∉ tail := fun hmem => hquestion (List.mem_cons_of_mem _ hmem)
  have horigin : originForm (47 :: tail) query = 47 :: originForm tail query := by cases query <;> rfl
  have hlen : (text "http://").length = 7 := by decide
  have htotal : (absoluteForm host (47 :: tail) query).length =
      7 + host.length + 1 + (originForm tail query).length := by
    simp only [absoluteForm, horigin, List.length_append, hlen, List.length_cons]
    omega
  have hpos := List.length_pos_of_ne_nil hhost
  have hurl : ((absoluteForm host (47 :: tail) query).drop (4 + 3)).take (s2 - s1 - 4 - 4) =
      host ++ 47 :: originForm tail query := by
    rw [absoluteForm, List.append_assoc, List.drop_left' hlen, horigin, List.take_of_length_le]
    simp only [List.length_append, List.length_cons]
    omega
  have hfind : findFirstOf (text "/") (host ++ 47 :: originForm tail query) = some host.length := by
    rw [show text "/" = [47] from text_singleton '/']
    exact findFirstOf_skip (avoids hslash) List.mem_cons_self _
  have hscheme : find (text "://") (absoluteForm host (47 :: tail) query) = some 4 := by
    rw [absoluteForm, List.append_assoc]
    exact find_http _
  rw [Gives, hparse, parseUrl, hscheme]
  dsimp only
  rw [if_neg (by omega), hurl, hfind]
  dsimp only [List.tail_cons]
  by_cases hroot : originForm tail query = []
  · have hnil : tail = [] ∧ query = none := by
      cases query with
      | none => exact ⟨hroot, rfl⟩
      | some q => exact absurd hroot (by simp [originForm, show text "?" = [63] from text_singleton '?'])
    rw [if_pos (by simp [hroot]), hnil.1, hnil.2]
    exact ⟨r, rfl, hrPath, hrQuery⟩
  · have hlt := List.length_pos_of_ne_nil hroot
    rw [if_neg (by simp only [List.length_append, List.length_cons]; omega), rest_behind]
    exact parsePath_origin htail hrQuery

/-- Where the target has the mark of a scheme, at least four of its bytes are lost. -/
theorem marked_origin_lost (h : KnownLine method version) (hhead : path.head? = some 47)
    (hmark : find (text "://") (originForm path query) ≠ none) :
    ¬Gives (requestLine method (originForm path query) version) path query := by
  rintro ⟨r', hr', hpath, hquery⟩
  obtain ⟨r, s1, s2, hparse, hrPath, hrQuery, -⟩ := parse_requestLine h (originForm path query)
  have hne : path ≠ [] := by
    rintro rfl
    cases hhead
  have hunset : r'.requestPath ≠ [] := by
    rw [hpath]
    exact hne
  rw [hparse, parseUrl] at hr'
  split at hr'
  · exact hmark ‹_›
  · rename_i j hj
    have hle := find_le hj
    rw [show (text "://").length = 3 by decide] at hle
    split at hr'
    · cases hr'
    · dsimp only at hr'
      split at hr'
      · cases hr'
        exact hunset hrPath
      · split at hr'
        · cases hr'
          exact hunset hrPath
        · have hkept := parsePath_length hr' hrQuery
          have hform : (originForm path query).length ≤ path.length + 1 + (query.getD []).length := by
            cases query with
            | none => simp [originForm]
            | some q =>
                have hone : (text "?").length = 1 := congrArg List.length (text_singleton '?')
                simp only [originForm, hone, List.length_append, Option.getD_some]
                omega
          rw [hpath, hquery] at hkept
          simp only [List.length_take, List.length_drop] at hkept
          omega

theorem origin_gives_iff (h : KnownLine method version) (ht : PlainTarget host path query) :
    Gives (requestLine method (originForm path query) version) path query ↔
      find (text "://") (originForm path query) = none := by
  constructor
  · intro hgives
    by_contra hmark
    exact marked_origin_lost h ht.path_head hmark hgives
  · intro hnone
    obtain ⟨r, s1, s2, hparse, -, hrQuery, -⟩ := parse_requestLine h (originForm path query)
    rw [Gives, hparse, parseUrl, hnone]
    exact parsePath_origin ht.path_clean.1 hrQuery

/-- The two forms never agree: the absolute form gives the path without its slash. The origin form gives path and query
where `://` does not stand in it. -/
theorem target_forms_disagree (h : KnownLine method version) (ht : PlainTarget host path query) :
    ¬FormsAgree method version host path query ∧
      Gives (requestLine method (absoluteForm host path query) version) path.tail query ∧
      (Gives (requestLine method (originForm path query) version) path query ↔
        find (text "://") (originForm path query) = none) := by
  refine ⟨fun hagree => ?_, absolute_gives h ht, origin_gives_iff h ht⟩
  obtain ⟨r, hr, hpath, -⟩ := hagree.2
  obtain ⟨r', hr', hpath', -⟩ := absolute_gives h ht
  cases hr.symm.trans hr'
  have hlen := congrArg List.length (hpath.symm.trans hpath')
  have hne : path ≠ [] := by
    intro hnil
    have hhead := ht.path_head
    rw [hnil] at hhead
    cases hhead
  have hpos := List.length_pos_of_ne_nil hne
  rw [List.length_tail] at hlen
  omega

theorem target_forms_disagree_index :
    ¬FormsAgree (text "GET") (text "HTTP/1.1") (text "h") (text "/a") (some (text "b=c")) :=
  (target_forms_disagree ⟨⟨.GET, by decide⟩, .inl (by decide)⟩
    ⟨by decide, by decide, by decide, by decide, by decide⟩).1

/-! ## A page under both targets -/

/-- The page `/a` is not found under the second target. -/
theorem absolute_page_lost :
    (parseHttpRequestLine {} (text "GET /a?b=c HTTP/1.1")).map (fun r => r.2.requestPath) = some (text "/a") ∧
      (parseHttpRequestLine {} (text "GET http://h/a?b=c HTTP/1.1")).map (fun r => r.2.requestPath) =
        some (text "a") ∧
      ¬FormsAgree (text "GET") (text "HTTP/1.1") (text "h") (text "/a") (some (text "b=c")) := by
  have habsolute : (parseHttpRequestLine {} (text "GET http://h/a?b=c HTTP/1.1")).map (fun r => r.2.requestPath) =
      some (text "a") := by decide
  have hline : requestLine (text "GET") (absoluteForm (text "h") (text "/a") (some (text "b=c"))) (text "HTTP/1.1") =
      text "GET http://h/a?b=c HTTP/1.1" := by decide
  refine ⟨by decide, habsolute, fun hagree => ?_⟩
  obtain ⟨r, hr, hpath, -⟩ := hagree.2
  rw [hline] at hr
  rw [hr, Option.map_some, hpath] at habsolute
  exact absurd habsolute (by decide)

end Tirpc
