import Mathlib.Logic.Function.Basic
import Tirpc.Http.Codec
import Tirpc.Http.Servlet
import Tirpc.Tcp.Output

/-!
# Dispatching HTTP requests (`http_dispatcher.cpp`)

Servlets are shared objects: `ρ` is the type of the pointers to them.
-/

namespace Tirpc

open Lib

variable {ρ α : Type} [DecidableEq ρ]

/-- `fnmatch` says whether a pattern matches a path, both as C strings; `staleCode` is what the code field of
a fresh response happens to hold. -/
structure HttpEnv where
  fnmatch : Bytes → Bytes → Bool
  staleCode : HttpRequest → Int

structure HttpDispatcher (ρ : Type) where
  servlets : List (Bytes × ρ) := []
  globs : List (Bytes × ρ) := []

/-- The servlet objects, and the state of the application that they work on. -/
structure Servlets (ρ α : Type) where
  objects : ρ → HttpServlet α
  app : α

/-- A connection of the server. `shutDown` says whether its socket has been shut down, and `encoded` are the
responses that have been encoded, with their requests. -/
structure HttpConnection (ρ α : Type) where
  servlets : Servlets ρ α
  writeBuffer : TcpBuffer
  state : TcpConnectionState := .connected
  shutDown : Bool := false
  encoded : List (HttpRequest × HttpResponse) := []

def HttpConnection.shutdownConnection (conn : HttpConnection ρ α) : HttpConnection ρ α :=
  if conn.state = .closed ∨ conn.state = .notConnected then conn
  else { conn with state := .halfClosing, shutDown := true }

namespace HttpDispatcher

def registerServlet (d : HttpDispatcher ρ) (path : Bytes) (servlet : ρ) : HttpDispatcher ρ :=
  if d.servlets.any fun p => p.1 = path then d else { d with servlets := (path, servlet) :: d.servlets }

def registerGlobServlet (d : HttpDispatcher ρ) (path : Bytes) (servlet : ρ) : HttpDispatcher ρ :=
  { d with globs := (d.globs.eraseP fun p => p.1 = path) ++ [(path, servlet)] }

def findServlet (env : HttpEnv) (d : HttpDispatcher ρ) (urlPath : Bytes) : Option ρ :=
  match d.servlets.find? fun p => p.1 = urlPath with
  | some p => some p.2
  | none =>
      (d.globs.find? fun p => env.fnmatch (p.1.takeWhile (· ≠ 0)) (urlPath.takeWhile (· ≠ 0))).map Prod.snd

/-- What the servlet of the request makes of it: the response, its flag `is_close` afterwards, and the servlets
as it leaves them. A `NotFoundHttpServlet` is a fresh object, and it does not touch its flag. -/
def handleRequest (env : HttpEnv) (d : HttpDispatcher ρ) (request : HttpRequest) (servlets : Servlets ρ α) :
    HttpResponse × Bool × Servlets ρ α :=
  let (request, response) := HttpServlet.setCommParam request { responseCode := env.staleCode request }
  match d.findServlet env request.requestPath with
  | none => (HttpServlet.handleNotFound response, false, servlets)
  | some servlet =>
      let (object, response, app) := (servlets.objects servlet).handle request response servlets.app
      (response, object.isClose, { objects := Function.update servlets.objects servlet object, app := app })

def dispatch (env : HttpEnv) (d : HttpDispatcher ρ) (request : HttpRequest) (conn : HttpConnection ρ α) :
    Option (HttpConnection ρ α) :=
  if request.requestPath = [] then some conn
  else
    let (response, isClose, servlets) := d.handleRequest env request conn.servlets
    let conn := if isClose then conn.shutdownConnection else conn
    (HttpCodeC.encode conn.writeBuffer response).map fun buf =>
      { conn with
        servlets := servlets
        writeBuffer := buf
        encoded := conn.encoded ++ [(request, response)] }

end HttpDispatcher

end Tirpc
