import Tirpc.Lib.Text

/-!
# HTTP requests and responses (`http_request.hpp`, `http_response.hpp`, `http_define.cpp`)
-/

namespace Tirpc

open Lib

def g_crlf : Bytes := [13, 10]

def g_crlf_double : Bytes := [13, 10, 13, 10]

inductive HttpMethod where
  | GET
  | POST
  deriving DecidableEq, Repr

/-- A fresh request has no method: the field holds zero, which is none of the two. -/
structure HttpRequest where
  decodeSucc : Bool := false
  requestMethod : Option HttpMethod := none
  requestPath : Bytes := []
  requestQuery : Bytes := []
  requestVersion : Bytes := []
  requesetHeader : StringMap := .empty
  requestBody : Bytes := []
  queryMaps : StringMap := .empty
  deriving DecidableEq

/-! ## Responses -/

def HTTP_OK : Int := 200

def HTTP_BADREQUEST : Int := 400

def HTTP_FORBIDDEN : Int := 403

def HTTP_NOTFOUND : Int := 404

def HTTP_INTERNALSERVERERROR : Int := 500

def httpCodeToString (code : Int) : Bytes :=
  if code = HTTP_OK then text "OK"
  else if code = HTTP_BADREQUEST then text "Bad Request"
  else if code = HTTP_FORBIDDEN then text "Forbidden"
  else if code = HTTP_NOTFOUND then text "Not Found"
  else if code = HTTP_INTERNALSERVERERROR then text "Internal Server Error"
  else text "UnKnown code"

def content_type_text : Bytes := text "text/html;charset=utf-8"

/-- The template with its two places filled in. -/
def default_html_template (code info : Bytes) : Bytes :=
  text "<html><body><h1>" ++ code ++ text "</h1><p>" ++ info ++ text "</p></body></html>"

def toHttpString (header : StringMap) : Bytes :=
  (header.entries.map fun e => e.1 ++ text ":" ++ e.2 ++ g_crlf).flatten

/-- The code of a fresh response is not initialised, so it has no default. -/
structure HttpResponse where
  responseVersion : Bytes := []
  responseCode : Int
  responseInfo : Bytes := []
  responseHeader : StringMap := .empty
  responseBody : Bytes := []
  deriving DecidableEq

end Tirpc
