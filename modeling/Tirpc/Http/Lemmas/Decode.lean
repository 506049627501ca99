import Tirpc.Http.Codec
import Tirpc.Tcp.Lemmas.Buffer

/-!
# The stages of `Decode`

A call that is not given a lone line parses the request line and the header block (`parsedHead`), and
then either waits for the body or ends by moving the read index.
-/

namespace Tirpc

open Lib TcpBuffer

namespace HttpCodeC

/-! ## What the parse functions leave alone -/

/-- Neither the result flag nor the body nor the header lines have changed. -/
def Untouched (r r' : HttpRequest) : Prop :=
  r'.decodeSucc = r.decodeSucc ∧ r'.requestBody = r.requestBody ∧ r'.requesetHeader = r.requesetHeader

variable {r r' : HttpRequest} {ok : Bool}

theorem parsePath_untouched {url : Bytes} (h : parsePath r url = some (ok, r')) : Untouched r r' := by
  simp only [parsePath] at h
  split at h
  · cases h
    exact ⟨rfl, rfl, rfl⟩
  · obtain ⟨m, -, h⟩ := Option.map_eq_some_iff.mp h
    cases h
    exact ⟨rfl, rfl, rfl⟩

theorem parseUrl_untouched {url : Bytes} {s1 s2 : Nat} (h : parseUrl r url s1 s2 = some (ok, r')) :
    Untouched r r' := by
  simp only [parseUrl] at h
  split at h
  · exact parsePath_untouched h
  · split at h
    · cases h
      exact ⟨rfl, rfl, rfl⟩
    · split at h
      · cases h
        exact ⟨rfl, rfl, rfl⟩
      · split at h
        · cases h
          exact ⟨rfl, rfl, rfl⟩
        · exact parsePath_untouched h

theorem parseVersion_untouched {tmp : Bytes} {s1 s2 : Nat} (h : parseVersion r tmp s1 s2 = some (ok, r')) :
    Untouched r r' := by
  simp only [parseVersion] at h
  split at h
  · cases h
    exact ⟨rfl, rfl, rfl⟩
  · have hu := parseUrl_untouched h
    exact ⟨hu.1, hu.2.1, hu.2.2⟩

theorem parseHttpRequestLine_untouched {tmp : Bytes} (h : parseHttpRequestLine r tmp = some (ok, r')) :
    Untouched r r' := by
  simp only [parseHttpRequestLine] at h
  split at h
  · split at h
    · cases h
      exact ⟨rfl, rfl, rfl⟩
    · split at h
      · have hu := parseVersion_untouched h
        exact ⟨hu.1, hu.2.1, hu.2.2⟩
      · split at h
        · have hu := parseVersion_untouched h
          exact ⟨hu.1, hu.2.1, hu.2.2⟩
        · cases h
          exact ⟨rfl, rfl, rfl⟩
  · cases h
    exact ⟨rfl, rfl, rfl⟩

theorem parseHttpRequestHeader_untouched {str : Bytes} (h : parseHttpRequestHeader r str = some (ok, r')) :
    ok = true ∧ r'.decodeSucc = r.decodeSucc ∧ r'.requestBody = r.requestBody := by
  simp only [parseHttpRequestHeader] at h
  split at h
  · cases h
    exact ⟨rfl, rfl, rfl⟩
  · obtain ⟨m, -, h⟩ := Option.map_eq_some_iff.mp h
    cases h
    exact ⟨rfl, rfl, rfl⟩

/-! ## The head of a request -/

/-- Request line, header block, and what follows, once the ends of the first two have been received. -/
def splitRequest (q : Bytes) : Option (Bytes × Bytes × Bytes) :=
  (find g_crlf q).bind fun i =>
    (find g_crlf_double (q.drop (i + 2))).map fun j =>
      (q.take i, (q.drop (i + 2)).take j, (q.drop (i + 2)).drop (j + 4))

/-- The request as the line and the header block give it, and what follows them. -/
def parsedHead (q : Bytes) : Option (HttpRequest × Bytes) :=
  (splitRequest q).bind fun (line, header, rest) =>
    (parseHttpRequestLine {} line).bind fun (ok, r₁) =>
      if ok then (parseHttpRequestHeader r₁ header).map fun (_, r₂) => (r₂, rest) else none

/-- The number that the header field announces, whatever its size. -/
def announcedLength (r : HttpRequest) : Int := decimalInt (r.requesetHeader.index (text "Content-Length")).1

def lookedUp (r : HttpRequest) : HttpRequest :=
  { r with requesetHeader := (r.requesetHeader.index (text "Content-Length")).2 }

def storedBody (method : Option HttpMethod) (contentLen : Int) (rest : Bytes) : Bytes :=
  if method = some .POST ∧ contentLen ≠ 0 then
    if contentLen < 0 then rest else rest.take contentLen.toNat
  else []

def readSize (method : Option HttpMethod) (contentLen head : Int) : Int :=
  if method = some .POST ∧ contentLen ≠ 0 then head + contentLen else head

variable {b b' : TcpBuffer} {q rest : Bytes}

theorem parsedHead_eq (h : parsedHead q = some (r, rest)) :
    ∃ i j r₁, find g_crlf q = some i ∧ find g_crlf_double (q.drop (i + 2)) = some j ∧
      parseHttpRequestLine {} (q.take i) = some (true, r₁) ∧
      parseHttpRequestHeader r₁ ((q.drop (i + 2)).take j) = some (true, r) ∧
      rest = (q.drop (i + 2)).drop (j + 4) := by
  simp only [parsedHead, splitRequest, Option.bind_eq_some_iff, Option.map_eq_some_iff] at h
  obtain ⟨-, ⟨i, hi, j, hj, rfl⟩, ⟨ok, r₁⟩, hline, h⟩ := h
  split at h
  · rename_i hok
    obtain ⟨⟨ok', r₂⟩, hheader, h⟩ := Option.map_eq_some_iff.mp h
    cases h
    obtain ⟨rfl, -⟩ := parseHttpRequestHeader_untouched hheader
    simp only at hok
    subst hok
    exact ⟨i, j, r₁, hi, hj, hline, hheader, rfl⟩
  · cases h

theorem parsedHead_body (h : parsedHead q = some (r, rest)) : r.requestBody = [] := by
  obtain ⟨i, j, r₁, -, -, hline, hheader, -⟩ := parsedHead_eq h
  obtain ⟨-, -, hbody⟩ := parseHttpRequestHeader_untouched hheader
  exact hbody.trans (parseHttpRequestLine_untouched hline).2.1

theorem parsedHead_decodeSucc (h : parsedHead q = some (r, rest)) : r.decodeSucc = false := by
  obtain ⟨i, j, r₁, -, -, hline, hheader, -⟩ := parsedHead_eq h
  obtain ⟨-, hsucc, -⟩ := parseHttpRequestHeader_untouched hheader
  exact hsucc.trans (parseHttpRequestLine_untouched hline).1

theorem parsedHead_length (h : parsedHead q = some (r, rest)) : 6 ≤ (q.length : Int) - rest.length := by
  obtain ⟨i, j, r₁, hi, hj, -, -, rfl⟩ := parsedHead_eq h
  have h1 := find_le hi
  have h2 := find_le hj
  simp only [List.length_drop, g_crlf, g_crlf_double, List.length_cons, List.length_nil] at h1 h2 ⊢
  omega

/-! ## The three outcomes -/

theorem decode_lone_line (hb : b.Holds q) (h : find g_crlf q = some (q.length - 2)) :
    decode b {} = some (b, { decodeSucc := true }) := by
  simp only [decode, hb.getBufferString_eq, Option.bind_some, h, ↓reduceIte]

theorem decodeContent_eq {total size : Int} (hr : r.requestBody = []) :
    decodeContent b r rest total size =
      if total - size < longToInt (announcedLength r) then some (b, lookedUp r)
      else
        (b.recycleRead (readSize r.requestMethod (longToInt (announcedLength r)) size)).map fun b' =>
          (b', { lookedUp r with
            requestBody := storedBody r.requestMethod (longToInt (announcedLength r)) rest
            decodeSucc := true }) := by
  have hc : atoi (r.requesetHeader.index (text "Content-Length")).1 = longToInt (announcedLength r) := rfl
  simp only [decodeContent]
  simp only [hc, readSize, storedBody]
  split
  · rfl
  · split
    · have hcontent : ∀ str, parseHttpRequestContent (lookedUp r) str =
          (true, { lookedUp r with requestBody := str }) := by
        intro str
        simp only [parseHttpRequestContent]
        split
        · rename_i hnil
          rw [hnil, ← hr]
          rfl
        · rfl
      have hlooked : ({ r with requesetHeader := (r.requesetHeader.index (text "Content-Length")).2 } :
          HttpRequest) = lookedUp r := rfl
      simp only [hlooked, hcontent, ↓reduceIte]
    · rw [← hr]
      rfl

theorem decode_of_head (hb : b.Holds q) (hline : find g_crlf q ≠ some (q.length - 2))
    (h : parsedHead q = some (r, rest)) :
    decode b {} =
      if (rest.length : Int) < longToInt (announcedLength r) then some (b, lookedUp r)
      else
        (b.recycleRead (readSize r.requestMethod (longToInt (announcedLength r))
          ((q.length : Int) - rest.length))).map fun b' =>
          (b', { lookedUp r with
            requestBody := storedBody r.requestMethod (longToInt (announcedLength r)) rest
            decodeSucc := true }) := by
  have hbody := parsedHead_body h
  obtain ⟨i, j, r₁, hi, hj, hl, hh, hrest⟩ := parsedHead_eq h
  have h1 := find_le hi
  have h2 := find_le hj
  simp only [List.length_drop, g_crlf, g_crlf_double, List.length_cons, List.length_nil] at h1 h2
  have hlen : ((i + 2 : Nat) : Int) + (j + 4 : Nat) = (q.length : Int) - rest.length := by
    rw [hrest]
    simp only [List.length_drop]
    omega
  have hne : i ≠ q.length - 2 := fun he => hline (he ▸ hi)
  simp only [decode, hb.getBufferString_eq, Option.bind_some, hi, if_neg hne, hl, ↓reduceIte,
    decodeHeader, hj, hh, hlen, ← hrest]
  rw [decodeContent_eq hbody, show (q.length : Int) - (q.length - rest.length) = rest.length by omega]

theorem decode_no_head (hb : b.Holds q) (hline : find g_crlf q ≠ some (q.length - 2))
    (h : parsedHead q = none) (hd : decode b {} = some (b', r)) : b' = b ∧ r.decodeSucc = false := by
  simp only [decode, hb.getBufferString_eq, Option.bind_some] at hd
  split at hd
  · cases hd
    exact ⟨rfl, rfl⟩
  · rename_i i hi
    have hne : i ≠ q.length - 2 := fun he => hline (he ▸ hi)
    rw [if_neg hne] at hd
    obtain ⟨⟨ok, r₁⟩, hl, hd⟩ := Option.bind_eq_some_iff.mp hd
    have hsucc := (parseHttpRequestLine_untouched hl).1
    split at hd
    · rename_i hok
      simp only [decodeHeader] at hd
      split at hd
      · cases hd
        exact ⟨rfl, hsucc⟩
      · rename_i j hj
        obtain ⟨⟨ok', r₂⟩, hh, hd⟩ := Option.bind_eq_some_iff.mp hd
        have hsome : parsedHead q = some (r₂, (q.drop (i + 2)).drop (j + 4)) := by
          simp only [parsedHead, splitRequest, hi, hj, Option.bind_some, Option.map_some, hl]
          rw [if_pos hok, hh]
          rfl
        rw [h] at hsome
        cases hsome
    · cases hd
      exact ⟨rfl, hsucc⟩

end HttpCodeC

end Tirpc
