import Tirpc.Http.Dispatcher

/-!
# The flags of the servlets

A request of version 1.0 sets the flag of its servlet, and nothing resets one.
-/

namespace Tirpc

open Lib

variable {ρ α : Type} [DecidableEq ρ]

/-- `Handle` sets the flag for the request. -/
def HttpRequest.isOld (r : HttpRequest) : Bool := r.requestVersion = text "HTTP/1.0" ∧ r.requestMethod ≠ none

theorem HttpServlet.handle_isClose (servlet : HttpServlet α) (r : HttpRequest) (res : HttpResponse) (app : α) :
    (servlet.handle r res app).1.isClose = (servlet.isClose || r.isOld) := by
  have hnote : (servlet.noteVersion r).isClose = (servlet.isClose || decide (r.requestVersion = text "HTTP/1.0")) := by
    simp only [HttpServlet.noteVersion]
    split
    · rename_i h
      simp [h]
    · rename_i h
      simp [h]
  simp only [HttpServlet.handle, HttpRequest.isOld]
  cases hm : r.requestMethod with
  | none => simp
  | some m => cases m <;> simpa using hnote

namespace HttpDispatcher

variable {env : HttpEnv} {d : HttpDispatcher ρ} {w : Servlets ρ α} {r : HttpRequest} {p : ρ}

/-- The servlet of the request has its flag set once it has handled it. -/
def closes (env : HttpEnv) (d : HttpDispatcher ρ) (w : Servlets ρ α) (r : HttpRequest) : Bool :=
  match d.findServlet env r.requestPath with
  | none => false
  | some p => (w.objects p).isClose || r.isOld

theorem setCommParam_isOld (res : HttpResponse) : (HttpServlet.setCommParam r res).1.isOld = r.isOld := rfl

theorem handleRequest_isClose : (d.handleRequest env r w).2.1 = d.closes env w r := by
  have hpath : ∀ res, (HttpServlet.setCommParam r res).1.requestPath = r.requestPath := fun _ => rfl
  simp only [handleRequest, closes, hpath]
  cases d.findServlet env r.requestPath with
  | none => rfl
  | some p =>
      simp only
      rw [HttpServlet.handle_isClose, setCommParam_isOld]

theorem handleRequest_flag : ((d.handleRequest env r w).2.2.objects p).isClose =
    ((w.objects p).isClose || (decide (d.findServlet env r.requestPath = some p) && r.isOld)) := by
  have hpath : ∀ res, (HttpServlet.setCommParam r res).1.requestPath = r.requestPath := fun _ => rfl
  simp only [handleRequest, hpath]
  cases hf : d.findServlet env r.requestPath with
  | none => simp
  | some p' =>
      simp only [Option.some.injEq]
      by_cases hp : p' = p
      · subst hp
        rw [Function.update_self, HttpServlet.handle_isClose, setCommParam_isOld]
        simp
      · rw [Function.update_of_ne (Ne.symm hp)]
        simp [hp]

end HttpDispatcher

end Tirpc
