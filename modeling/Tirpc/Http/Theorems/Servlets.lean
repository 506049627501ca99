import Tirpc.Http.Lemmas.Dispatch

/-!
# Requests that influence each other

A servlet whose flag has been set by a request of version 1.0 closes the connections of all requests after
it, whatever their version. So two histories lead to the same decision exactly if the servlet of the next
request has seen such a request in both or in none, unless the decision is settled without them.
-/

namespace Tirpc

open Lib

namespace HttpDispatcher

variable {ρ α : Type} [DecidableEq ρ] {env : HttpEnv} {d : HttpDispatcher ρ} {w : Servlets ρ α} {r : HttpRequest} {p : ρ}

/-- The servlets after a history of requests. A request without a path reaches none of them. -/
def served (env : HttpEnv) (d : HttpDispatcher ρ) (w : Servlets ρ α) (history : List HttpRequest) : Servlets ρ α :=
  history.foldl (fun w r => if r.requestPath = [] then w else (d.handleRequest env r w).2.2) w

/-- `Dispatch` calls `ShutdownConnection` for the request. -/
def shutsDown (env : HttpEnv) (d : HttpDispatcher ρ) (w : Servlets ρ α) (r : HttpRequest) : Bool :=
  r.requestPath ≠ [] && (d.handleRequest env r w).2.1

/-- The request is of version 1.0 and goes to the servlet at `p`. -/
def marks (env : HttpEnv) (d : HttpDispatcher ρ) (p : ρ) (r : HttpRequest) : Bool :=
  r.requestPath ≠ [] && decide (d.findServlet env r.requestPath = some p) && r.isOld

/-- What `Dispatch` does to a connection that is open, and to the servlets. -/
theorem dispatch_shutsDown {conn conn' : HttpConnection ρ α} (hs : conn.state = .connected)
    (h : d.dispatch env r conn = some conn') :
    (conn'.state = .halfClosing ↔ d.shutsDown env conn.servlets r = true) ∧
      conn'.servlets = d.served env conn.servlets [r] := by
  simp only [dispatch] at h
  split at h
  · rename_i hp
    cases h
    simp [shutsDown, served, hp, hs]
  · rename_i hp
    obtain ⟨buf, -, rfl⟩ := Option.map_eq_some_iff.mp h
    simp only [shutsDown, served, List.foldl_cons, List.foldl_nil, if_neg hp, and_true]
    cases (d.handleRequest env r conn.servlets).2.1 with
    | false => simp [hs]
    | true => simp [HttpConnection.shutdownConnection, hs, hp]

theorem served_flag (history : List HttpRequest) : ((d.served env w history).objects p).isClose =
    ((w.objects p).isClose || history.any (d.marks env p)) := by
  induction history generalizing w with
  | nil => simp [served]
  | cons r history ih =>
      have hrest : d.served env w (r :: history) = d.served env (d.served env w [r]) history := rfl
      have hone : ((d.served env w [r]).objects p).isClose = ((w.objects p).isClose || d.marks env p r) := by
        simp only [served, List.foldl_cons, List.foldl_nil, marks]
        split
        · rename_i hp
          simp [hp]
        · rename_i hp
          rw [handleRequest_flag]
          simp [hp]
      rw [hrest, ih, hone, List.any_cons, Bool.or_assoc]

theorem shutsDown_served (history : List HttpRequest) :
    d.shutsDown env (d.served env w history) r =
      (r.requestPath ≠ [] && match d.findServlet env r.requestPath with
        | none => false
        | some p => (w.objects p).isClose || history.any (d.marks env p) || r.isOld) := by
  simp only [shutsDown, handleRequest_isClose, closes]
  cases d.findServlet env r.requestPath with
  | none => rfl
  | some p => simp only [served_flag]

def oneServlet : HttpDispatcher Unit := registerServlet {} (text "/") ()

def freshServlet : Servlets Unit Unit :=
  { objects := fun _ => { handleGet := fun _ res app => (HttpServlet.setHttpCode res HTTP_OK, app) }, app := () }

def noGlobs : HttpEnv := { fnmatch := fun _ _ => false, staleCode := fun _ => 0 }

def getRoot (version : Bytes) : HttpRequest :=
  { decodeSucc := true, requestMethod := some .GET, requestPath := text "/", requestVersion := version }

end HttpDispatcher

end Tirpc
