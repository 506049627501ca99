import Tirpc.Common.Util
import Tirpc.Http.Data
import Tirpc.Tcp.Connection

/-!
# The HTTP codec (`http_codec.cpp`)

The parse functions return whether they succeed and the request as they leave it. A result of `none`
is an exception.
-/

namespace Tirpc

open Lib

namespace HttpCodeC

/-- The length of a target, which is less than 2^31, is an `int` here and in `parseUrl`. -/
def parsePath (requset : HttpRequest) (url : Bytes) : Option (Bool × HttpRequest) :=
  match findFirstOf (text "?") url with
  | none => some (true, { requset with requestPath := url })
  | some j =>
      let query := (url.drop (j + 1)).take (url.length - j - 1)
      (StringUtil.splitStrToMap query (text "&") (text "=") requset.queryMaps).map fun maps =>
        (true, { requset with requestPath := url.take j, requestQuery := query, queryMaps := maps })

/-- The target between the spaces at `s1` and `s2`. Behind a host, the path loses its first slash. -/
def parseUrl (requset : HttpRequest) (url : Bytes) (s1 s2 : Nat) : Option (Bool × HttpRequest) :=
  match find (text "://") url with
  | none => parsePath requset url
  | some j =>
      if j + 3 ≥ url.length then some (false, requset)
      else
        let url := (url.drop (j + 3)).take (s2 - s1 - j - 4)
        match findFirstOf (text "/") url with
        | none => some (true, requset)
        | some j =>
            if j = url.length - 1 then some (true, requset)
            else parsePath requset ((url.drop (j + 1)).take (url.length - j - 1))

def parseVersion (requset : HttpRequest) (tmp : Bytes) (s1 s2 : Nat) : Option (Bool × HttpRequest) :=
  let version := ((tmp.drop (s2 + 1)).take (tmp.length - s2 - 1)).map toUpper
  if version ≠ text "HTTP/1.1" ∧ version ≠ text "HTTP/1.0" then some (false, requset)
  else
    parseUrl { requset with requestVersion := version } ((tmp.drop (s1 + 1)).take (s2 - s1 - 1)) s1 s2

def parseHttpRequestLine (requset : HttpRequest) (tmp : Bytes) : Option (Bool × HttpRequest) :=
  match findFirstOf (text " ") tmp, findLastOf (text " ") tmp with
  | some s1, some s2 =>
      if s1 = s2 then some (false, requset)
      else
        let method := (tmp.take s1).map toUpper
        if method = text "GET" then parseVersion { requset with requestMethod := some .GET } tmp s1 s2
        else if method = text "POST" then
          parseVersion { requset with requestMethod := some .POST } tmp s1 s2
        else some (false, requset)
  | _, _ => some (false, requset)

def parseHttpRequestHeader (requset : HttpRequest) (str : Bytes) : Option (Bool × HttpRequest) :=
  if str = [] ∨ str.length < 4 ∨ str = g_crlf_double then some (true, requset)
  else
    (StringUtil.splitStrToMap str g_crlf (text ":") requset.requesetHeader).map fun maps =>
      (true, { requset with requesetHeader := maps })

def parseHttpRequestContent (requset : HttpRequest) (str : Bytes) : Bool × HttpRequest :=
  if str = [] then (true, requset) else (true, { requset with requestBody := str })

/-- The last stage: `tmp` is what follows the header block, `readSize` bytes have been parsed. A
negative length is converted to an unsigned one, which takes all that is there. -/
def decodeContent (buf : TcpBuffer) (request : HttpRequest) (tmp : Bytes) (totalLength readSize : Int) :
    Option (TcpBuffer × HttpRequest) :=
  let (value, maps) := request.requesetHeader.index (text "Content-Length")
  let request := { request with requesetHeader := maps }
  let contentLen := atoi value
  if totalLength - readSize < contentLen then some (buf, request)
  else if request.requestMethod = some .POST ∧ contentLen ≠ 0 then
    let (isParseRequestContent, request) :=
      parseHttpRequestContent request (if contentLen < 0 then tmp else tmp.take contentLen.toNat)
    if isParseRequestContent then
      (buf.recycleRead (readSize + contentLen)).map fun buf => (buf, { request with decodeSucc := true })
    else some (buf, request)
  else (buf.recycleRead readSize).map fun buf => (buf, { request with decodeSucc := true })

def decodeHeader (buf : TcpBuffer) (request : HttpRequest) (tmp : Bytes) (totalLength readSize : Int) :
    Option (TcpBuffer × HttpRequest) :=
  match find g_crlf_double tmp with
  | none => some (buf, request)
  | some j =>
      (parseHttpRequestHeader request (tmp.take j)).bind fun (isParseRequestHeader, request) =>
        if isParseRequestHeader then
          decodeContent buf request (tmp.drop (j + 4)) totalLength (readSize + (j + 4 : Nat))
        else some (buf, request)

/-- `Decode`. Every turn of its loop is the last one: each stage is passed or returns. -/
def decode (buf : TcpBuffer) (request : HttpRequest) : Option (TcpBuffer × HttpRequest) :=
  buf.getBufferString.bind fun strs =>
    match find g_crlf strs with
    | none => some (buf, request)
    | some i =>
        if i = strs.length - 2 then some (buf, { request with decodeSucc := true })
        else
          (parseHttpRequestLine request (strs.take i)).bind fun (isParseRequestLine, request) =>
            if isParseRequestLine then
              decodeHeader buf request (strs.drop (i + 2)) strs.length (i + 2 : Nat)
            else some (buf, request)

/-- The text of a response, `http_res`. -/
def httpRes (response : HttpResponse) : Bytes :=
  response.responseVersion ++ text " " ++ decimal response.responseCode ++ text " " ++ response.responseInfo ++ g_crlf
    ++ toHttpString response.responseHeader ++ g_crlf ++ response.responseBody

def encode (buf : TcpBuffer) (response : HttpResponse) : Option TcpBuffer := buf.writeToBuffer (httpRes response)

end HttpCodeC

def httpCodeC : AbstractCodeC HttpRequest where
  genDataPtr := {}
  decode := HttpCodeC.decode
  decodeSucc := HttpRequest.decodeSucc

end Tirpc
