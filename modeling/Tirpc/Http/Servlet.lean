import Tirpc.Http.Data

/-!
# Servlets (`http_servlet.cpp`)

The handlers of an application are parameters. They may read and change the state `α` of the application,
and they leave the flag `is_close` alone.
-/

namespace Tirpc

open Lib

variable {α : Type}

/-- A handler that is not implemented leaves the response as it is. -/
structure HttpServlet (α : Type) where
  handleGet : HttpRequest → HttpResponse → α → HttpResponse × α := fun _ res a => (res, a)
  handlePost : HttpRequest → HttpResponse → α → HttpResponse × α := fun _ res a => (res, a)
  isClose : Bool := false

namespace HttpServlet

def setHttpCode (res : HttpResponse) (code : Int) : HttpResponse :=
  { res with responseCode := code, responseInfo := httpCodeToString code }

def handleNotFound (res : HttpResponse) : HttpResponse :=
  let res := setHttpCode res HTTP_NOTFOUND
  let body := default_html_template (decimal HTTP_NOTFOUND) (httpCodeToString HTTP_NOTFOUND)
  { res with
    responseBody := body
    responseHeader := (res.responseHeader.insert (text "Content-Type") content_type_text).insert
      (text "Content-Length") (decimal body.length) }

def setHttpContentType (res : HttpResponse) (contentType : Bytes) : HttpResponse :=
  { res with responseHeader := res.responseHeader.insert (text "Content-Type") contentType }

def contentTypes : List (Bytes × Bytes) :=
  [(text ".html", text "text/html;charset=utf-8"), (text ".css", text "text/css;charset=utf-8"),
    (text ".js", text "application/javascript;charset=utf-8"), (text ".jpg", text "image/jpeg"),
    (text ".png", text "image/png"), (text ".gif", text "image/gif"),
    (text ".json", text "application/json;charset=utf-8"), (text ".xml", text "application/xml;charset=utf-8")]

def getContentType (fileExtension : Bytes) : Bytes :=
  match contentTypes.find? fun e => e.1 = fileExtension with
  | some e => e.2
  | none => text "application/octet-stream"

def setHttpContentTypeForFile (res : HttpResponse) (filepath : Bytes) : HttpResponse :=
  let fileExtension :=
    match findLastOf (text ".") filepath with
    | some dotPos => filepath.drop dotPos
    | none => []
  setHttpContentType res (getContentType fileExtension)

def setHttpBody (res : HttpResponse) (body : Bytes) : HttpResponse :=
  { res with
    responseBody := body
    responseHeader := res.responseHeader.insert (text "Content-Length") (decimal body.length) }

/-- The lookup gives the request an empty field `Connection` where it has none. -/
def setCommParam (req : HttpRequest) (res : HttpResponse) : HttpRequest × HttpResponse :=
  let (value, maps) := req.requesetHeader.index (text "Connection")
  ({ req with requesetHeader := maps },
    { res with
      responseVersion := req.requestVersion
      responseHeader := res.responseHeader.insert (text "Connection") value })

def noteVersion (servlet : HttpServlet α) (req : HttpRequest) : HttpServlet α :=
  if req.requestVersion = text "HTTP/1.0" then { servlet with isClose := true } else servlet

def handle (servlet : HttpServlet α) (req : HttpRequest) (res : HttpResponse) (app : α) :
    HttpServlet α × HttpResponse × α :=
  match req.requestMethod with
  | some .GET => (servlet.noteVersion req, servlet.handleGet req res app)
  | some .POST => (servlet.noteVersion req, servlet.handlePost req res app)
  | none => (servlet, res, app)

end HttpServlet

end Tirpc
