import Tirpc.Http.Codec

/-!
# Requests as a client writes them

A request line, header lines, a blank line, and the body. This is the abstract side of the codec: what `Decode`
is given the bytes of.
-/

namespace Tirpc

open Lib

def methodText : HttpMethod → Bytes
  | .GET => text "GET"
  | .POST => text "POST"

structure WrittenRequest where
  method : HttpMethod
  target : Bytes
  version : Bytes
  headers : List (Bytes × Bytes)
  body : Bytes
  target_origin : target.head? = some 47
  target_clean : ∀ c ∈ target, c ≠ 32 ∧ c ≠ 13 ∧ c ≠ 10
  version_known : version = text "HTTP/1.0" ∨ version = text "HTTP/1.1"
  names_nodup : (headers.map Prod.fst).Nodup
  names_clean : ∀ h ∈ headers, h.1 ≠ [] ∧ ∀ c ∈ h.1, c ≠ 58 ∧ c ≠ 13 ∧ c ≠ 10 ∧ c ≠ 0
  values_clean : ∀ h ∈ headers, ∀ c ∈ h.2, c ≠ 13 ∧ c ≠ 10
  length_announced : body ≠ [] → ∃ v, (text "Content-Length", v) ∈ headers ∧ decimalInt v = body.length

namespace WrittenRequest

def line (r : WrittenRequest) : Bytes := methodText r.method ++ text " " ++ r.target ++ text " " ++ r.version

def headerLine (h : Bytes × Bytes) : Bytes := h.1 ++ text ":" ++ h.2

def text (r : WrittenRequest) : Bytes :=
  r.line ++ g_crlf ++ (r.headers.flatMap fun h => headerLine h ++ g_crlf) ++ g_crlf ++ r.body

/-- The header lines with the line ends between them. -/
def headerBlock (r : WrittenRequest) : Bytes := g_crlf.intercalate (r.headers.map headerLine)

def header? (r : WrittenRequest) (name : Bytes) : Option Bytes :=
  (r.headers.find? fun h => h.1 = name).map Prod.snd

/-- `Content-Length` as `atoi` reads it. -/
def contentLength (r : WrittenRequest) : Int := atoi ((r.header? (Lib.text "Content-Length")).getD [])

/-- The text of pipelined requests. -/
def texts (rs : List WrittenRequest) : Bytes := rs.flatMap WrittenRequest.text

/-- `Decode` has stored the method, the version, every header line and the body. -/
structure StoredIn (r : WrittenRequest) (d : HttpRequest) : Prop where
  method : d.requestMethod = some r.method
  version : d.requestVersion = r.version
  headers : ∀ h ∈ r.headers, d.requesetHeader.get? h.1 = some h.2
  body : d.requestBody = r.body

/-- Each call of `Decode` succeeds, consumes the bytes of one request and stores it. -/
def FramedExactly : TcpBuffer → List WrittenRequest → Prop
  | _, [] => True
  | b, r :: rs => ∃ b' d, HttpCodeC.decode b {} = some (b', d) ∧ d.decodeSucc = true ∧ b'.Holds (texts rs) ∧
      r.StoredIn d ∧ FramedExactly b' rs

/-! ## What `Decode` frames -/

/-- The target ends with its first `://`. -/
def EndsInScheme (r : WrittenRequest) : Prop := find (Lib.text "://") r.target = some (r.target.length - 3)

/-- Without header lines the next head is taken for the header block. A `POST` is still framed when this head is
all that follows and announces a length that takes it back. -/
def BorrowsHead (r : WrittenRequest) (rs : List WrittenRequest) : Prop :=
  r.method = .POST ∧ ∃ r', rs = [r'] ∧ r'.body = [] ∧ r'.contentLength = -(r'.text.length : Int)

/-- A `GET` has no body, and waits for as many bytes as it announces; a `POST` announces its body. -/
def BodyAnnounced (r : WrittenRequest) (rs : List WrittenRequest) : Prop :=
  match r.method with
  | .GET => r.body = [] ∧ r.contentLength ≤ (texts rs).length
  | .POST => r.contentLength = r.body.length

def Framable (r : WrittenRequest) (rs : List WrittenRequest) : Prop :=
  ¬r.EndsInScheme ∧
    if r.headers = [] then r.BorrowsHead rs else 4 ≤ r.headerBlock.length ∧ r.BodyAnnounced rs

def AllFramable : List WrittenRequest → Prop
  | [] => True
  | r :: rs => r.Framable rs ∧ AllFramable rs

end WrittenRequest

end Tirpc
