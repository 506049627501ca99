import Tirpc.Lib.Transition
import Tirpc.Rpc.Lemmas.Attempts

/-!
# Calls one after another with the same controller

`Reset` leaves the controller as it is. A call sets its error only when it has one to report, and it takes the
message number that the controller has.
-/

namespace Tirpc

open Lib

variable {A M : Type} {env : CallEnv A M} {channel : RpcChannel A} {c : RpcController A}

/-- What `Failed`, `ErrorCode` and `ErrorText` return. -/
def RpcController.errors (c : RpcController A) : Bool × Int × Bytes := (c.isFailed, c.errorCode, c.errorInfo)

/-- A controller in use, and the numbers that its calls have had. -/
structure Reuse (A : Type) where
  controller : RpcController A := {}
  numbers : List Bytes := []

inductive ReuseStep (A M : Type) where
  | call (env : CallEnv A M) (channel : RpcChannel A)
  | reset

/-- The number that a call has if its request serialises. -/
def callNumber (env : CallEnv A M) (c : RpcController A) : Option Bytes :=
  env.serializedRequest.map fun _ => callMsgSeq env c

/-- A call that does not return is the last one. -/
def reuseNext (s : Reuse A) : ReuseStep A M → Option (Reuse A)
  | .call env channel =>
      match callMethod env channel s.controller with
      | .ok r => some { controller := r.controller, numbers := s.numbers ++ (callNumber env s.controller).toList }
      | .error _ => none
  | .reset => some { s with controller := s.controller.reset }

def ReuseStart (s : Reuse A) : Prop := s = {}

/-- The number of the next call is none of those before. -/
def NewNumber (s : Reuse A) (env : CallEnv A M) : Prop :=
  ∀ n ∈ callNumber env s.controller.reset, n ≠ [] → n ∉ s.numbers

/-! ## The condition -/

/-- This result settles a call with an error. -/
def Reported (env : CallEnv A M) : SendAndRecv → Prop
  | .received res => env.parseResponse res.pbData = none
  | .failed _ _ _ => True

/-- The request serialises; and there is no address, or the method has no name, or the result that settles the
attempts of a new controller is an error. -/
def CallReports (env : CallEnv A M) (channel : RpcChannel A) : Prop :=
  ∃ pbData, env.serializedRequest = some pbData ∧ (channel.originAddrs = [] ∨ env.methodFullName = [] ∨
    ∃ a, Settles env pbData (callMsgSeq env ({} : RpcController A)) 4 0 a ∧ Reported env a)

/-- The controller has no number if the next call needs one, and the number that a new controller would get is
none of those before; and it has no error, unless the next call reports one. -/
structure Reusable (s : Reuse A) (env : CallEnv A M) (channel : RpcChannel A) : Prop where
  number : ∀ pbData, env.serializedRequest = some pbData → s.controller.msgReq = [] ∧
    (callMsgSeq env ({} : RpcController A) ≠ [] → callMsgSeq env ({} : RpcController A) ∉ s.numbers)
  errors : s.controller.errors = (false, 0, []) ∨ CallReports env channel

theorem reported_iff {a : SendAndRecv} : Reported env a ↔ (settlement env a).1 ≠ none := by
  cases a with
  | received res =>
      simp only [Reported, settlement]
      cases env.parseResponse res.pbData with
      | none => exact ⟨fun _ => Option.some_ne_none _, fun _ => rfl⟩
      | some response => exact ⟨fun h => absurd h (Option.some_ne_none _), fun h => absurd rfl h⟩
  | failed ret errInfo hz => exact ⟨fun _ => Option.some_ne_none _, fun _ => trivial⟩

theorem callReports_iff {error : Option (Int × Bytes)} {runs : Nat}
    (h : CallEnds env channel ({} : RpcController A) error runs) : CallReports env channel ↔ error ≠ none := by
  cases h with
  | notSerialized hs =>
      refine ⟨fun h => ?_, fun h => absurd rfl h⟩
      obtain ⟨pbData, hs', -⟩ := h
      cases hs.symm.trans hs'
  | noAddress hs hm ho => exact ⟨fun _ => nofun, fun _ => ⟨_, hs, .inl ho⟩⟩
  | noName hs hm ho hn => exact ⟨fun _ => nofun, fun _ => ⟨_, hs, .inr (.inl hn)⟩⟩
  | settled hs ho hn ha =>
      rw [← reported_iff]
      refine ⟨fun h => ?_, fun h => ⟨_, hs, .inr (.inr ⟨_, ha, h⟩)⟩⟩
      obtain ⟨pbData, hs', hcases⟩ := h
      cases hs.symm.trans hs'
      obtain ⟨a, ha', hr⟩ := (hcases.resolve_left ho).resolve_left hn
      exact ha.unique ha' ▸ hr

/-! ## Calls with the same number -/

/-- How a call ends depends on the controller by its number and its retries. -/
theorem CallEnds.congr {c' : RpcController A} {error : Option (Int × Bytes)} {runs : Nat}
    (h : CallEnds env channel c error runs) (hm : c'.maxRetry = c.maxRetry)
    (hn : callMsgSeq env c' = callMsgSeq env c) :
    CallEnds env channel c' error runs := by
  cases h with
  | notSerialized hs => exact .notSerialized hs
  | noAddress hs hr ho => exact .noAddress hs (hm ▸ hr) ho
  | noName hs hr ho hname => exact .noName hs (hm ▸ hr) ho hname
  | settled hs ho hname ha => exact .settled hs ho hname (by rw [hm, hn]; exact ha)

theorem callMsgSeq_of_nil (env : CallEnv A M) (h : c.msgReq = []) :
    callMsgSeq env c = callMsgSeq env ({} : RpcController A) := by
  have hnew : ({} : RpcController A).msgReq = [] := rfl
  rw [callMsgSeq, callMsgSeq, if_neg (not_not.mpr h), if_neg (not_not.mpr hnew)]

theorem CallLeft.errors_eq {r : CallState A M} {error : Option (Int × Bytes)} {runs : Nat}
    (h : CallLeft env c r error runs) : r.controller.errors = (withError c error).errors := by
  obtain ⟨l, p, hc⟩ := h.controller
  rw [hc, withNumber]
  cases error <;> cases env.serializedRequest <;> rfl

/-! ## A history of calls -/

/-- A number that the controller has is one of those of its calls. -/
structure ReuseInv (s : Reuse A) : Prop where
  maxRetry : s.controller.maxRetry = 3
  number : s.controller.msgReq ≠ [] → s.controller.msgReq ∈ s.numbers

theorem callLeft_of_eq {r : CallState A M} (h : callMethod env channel c = .ok r) :
    ∃ error runs, CallEnds env channel c error runs ∧ CallLeft env c r error runs := by
  obtain ⟨error, runs, hends⟩ := callMethod_ends h
  obtain ⟨r', hr', hleft⟩ := callMethod_left hends
  cases h.symm.trans hr'
  exact ⟨error, runs, hends, hleft⟩

theorem CallLeft.kept {r : CallState A M} {error : Option (Int × Bytes)} {runs : Nat}
    (h : CallLeft env c r error runs) :
    r.controller.maxRetry = c.maxRetry ∧
      r.controller.msgReq = (callNumber env c).getD c.msgReq := by
  obtain ⟨l, p, hc⟩ := h.controller
  rw [hc, withNumber, callNumber]
  cases error <;> cases env.serializedRequest <;> exact ⟨rfl, rfl⟩

theorem reuse_step {s s' : Reuse A} {l : ReuseStep A M} (h : ReuseInv s) (hn : reuseNext s l = some s') :
    ReuseInv s' := by
  cases l with
  | reset =>
      cases hn
      exact h
  | call env channel =>
      simp only [reuseNext] at hn
      split at hn
      · rename_i r hr
        cases hn
        obtain ⟨error, runs, -, hleft⟩ := callLeft_of_eq hr
        obtain ⟨hmax, hmsg⟩ := hleft.kept
        refine ⟨hmax.trans h.maxRetry, fun hne => ?_⟩
        dsimp only at hne ⊢
        rw [hmsg] at hne ⊢
        cases hcn : callNumber env s.controller with
        | none =>
            rw [hcn] at hne
            exact List.mem_append_left _ (h.number hne)
        | some n => exact List.mem_append_right _ List.mem_cons_self
      · cases hn

theorem newNumber_iff {s : Reuse A} (h : ReuseInv s) : NewNumber s env ↔
    ∀ pbData, env.serializedRequest = some pbData → s.controller.msgReq = [] ∧
      (callMsgSeq env ({} : RpcController A) ≠ [] → callMsgSeq env ({} : RpcController A) ∉ s.numbers) := by
  have hreset : s.controller.reset = s.controller := rfl
  rw [NewNumber, callNumber, hreset]
  cases env.serializedRequest with
  | none => exact ⟨fun _ => nofun, fun _ => nofun⟩
  | some pbData =>
      simp only [Option.map_some, Option.mem_some_iff, forall_eq', Option.some.injEq]
      by_cases hnil : s.controller.msgReq = []
      · rw [callMsgSeq_of_nil env hnil, and_iff_right hnil]
      · have hown : callMsgSeq env s.controller = s.controller.msgReq := if_pos hnil
        rw [hown]
        exact ⟨fun hnew => absurd (h.number hnil) (hnew hnil), fun hno => absurd hno.1 hnil⟩

/-- The errors are those of a new controller when there were none, or when the call reports one. -/
theorem errors_iff {error : Option (Int × Bytes)} :
    (withError c error).errors = (withError ({} : RpcController A) error).errors ↔
      c.errors = (false, 0, []) ∨ error ≠ none := by
  cases error with
  | none => exact ⟨.inl, fun h => h.resolve_right fun hne => hne rfl⟩
  | some e => exact ⟨fun _ => .inr nofun, fun _ => rfl⟩

/-- After every history of calls, a next call that returns, as it would with a new controller, shows the same
errors as that one and has a new number if and only if the controller is reusable for it. -/
theorem reset_safe_iff {s : Reuse A} {r f : CallState A M}
    (hs : Reachable (reuseNext (M := M)) ReuseStart anyStep s)
    (hr : callMethod env channel s.controller.reset = .ok r) (hf : callMethod env channel {} = .ok f) :
    (r.controller.errors = f.controller.errors ∧ NewNumber s env) ↔ Reusable s env channel := by
  have hinv : ReuseInv s := by
    refine hs.invariant (fun s hs => ?_) fun s s' l hI _ hn => reuse_step hI hn
    subst hs
    exact ⟨rfl, fun h => absurd rfl h⟩
  have hreset : s.controller.reset = s.controller := rfl
  rw [hreset] at hr
  obtain ⟨error, runs, hends, hleft⟩ := callLeft_of_eq hr
  obtain ⟨error', runs', hends', hleft'⟩ := callLeft_of_eq hf
  -- with a new number the call ends as with a new controller
  have hsame : NewNumber s env → error = error' := by
    intro hnew
    rw [newNumber_iff hinv] at hnew
    cases hser : env.serializedRequest with
    | none => rw [(hends.unique (.notSerialized hser)).1, (hends'.unique (.notSerialized hser)).1]
    | some pbData =>
        have hseq := callMsgSeq_of_nil env (hnew pbData hser).1
        exact (hends.unique (hends'.congr hinv.maxRetry hseq)).1
  have herrors : NewNumber s env → (r.controller.errors = f.controller.errors ↔
      s.controller.errors = (false, 0, []) ∨ CallReports env channel) := by
    intro hnew
    rw [hleft.errors_eq, hleft'.errors_eq, hsame hnew, errors_iff, callReports_iff hends']
  constructor
  · exact fun h => ⟨(newNumber_iff hinv).mp h.2, (herrors h.2).mp h.1⟩
  · intro h
    have hnew := (newNumber_iff hinv).mpr h.number
    exact ⟨(herrors hnew).mpr h.errors, hnew⟩

/-! ## A call after one that has timed out -/

/-- A server that answers each call with `res`. -/
def peer (res : SendAndRecv) : CallEnv Unit Unit where
  toString _ := []
  localAddr := ()
  methodFullName := text "S.m"
  serializedRequest := some []
  parseResponse _ := some ()
  runtimeMsgNo := none
  genMsgNumber _ := ⟨text "1", MsgNumber.digits_one⟩
  select _ _ _ := ()
  sendAndRecv _ := res

def noAnswer : SendAndRecv := .failed ERROR_RPC_CALL_TIMEOUT [] (by decide)

theorem callMsgSeq_peer {res : SendAndRecv} {c : RpcController Unit} (hn : c.msgReq = [] ∨ c.msgReq = text "1") :
    callMsgSeq (peer res) c = text "1" := by
  rcases hn with hn | hn
  · rw [callMsgSeq_of_nil _ hn]
    rfl
  · rw [callMsgSeq, hn]
    rfl

theorem peer_left {res : SendAndRecv} {c : RpcController Unit} (hm : c.maxRetry = 3)
    (hn : c.msgReq = [] ∨ c.msgReq = text "1") (hres : ¬Retried res) :
    ∃ r, callMethod (peer res) (.new [()]) c = .ok r ∧
      CallLeft (peer res) c r (settlement (peer res) res).1 (settlement (peer res) res).2 := by
  have hfit : PackageFits (peer res) [] (text "1") 0 := by
    have hnumber : numberAfter (peer res) (text "1") 1 = text "1" := rfl
    rw [PackageFits, hnumber]
    exact (by decide : 3 * (26 + (([] : Bytes).length : Int) + (text "S.m").length + (text "1").length) < 4294967296)
  refine callMethod_left (.settled rfl (List.cons_ne_nil _ _) (by exact (by decide : text "S.m" ≠ [])) ?_)
  rw [callMsgSeq_peer hn, hm]
  exact .now hfit hres

/-- The state after one call that gets this result. -/
theorem reached_after (res : SendAndRecv) (hres : ¬Retried res) :
    ∃ s : Reuse Unit, Reachable (reuseNext (M := Unit)) ReuseStart anyStep s ∧
      s.controller.maxRetry = 3 ∧ s.controller.msgReq = text "1" ∧ s.numbers = [text "1"] ∧
      s.controller.errors = (withError ({} : RpcController Unit) (settlement (peer res) res).1).errors := by
  have hstart : Reachable (reuseNext (M := Unit)) ReuseStart anyStep ({} : Reuse Unit) := .start rfl
  obtain ⟨r, hr, hleft⟩ : ∃ r, callMethod (peer res) (.new [()]) ({} : RpcController Unit) = .ok r ∧ _ :=
    peer_left rfl (.inl rfl) hres
  obtain ⟨hmax, hmsg⟩ := hleft.kept
  refine ⟨{ controller := r.controller, numbers := [text "1"] }, ?_, hmax, hmsg, rfl, hleft.errors_eq⟩
  refine hstart.step (.call (peer res) (.new [()])) trivial ?_
  simp only [reuseNext, hr]
  rfl

/-- A call that succeeds after one that has timed out shows the old error, and has the old number. -/
theorem reset_keeps_error : ∃ (s : Reuse Unit) (r f : CallState Unit Unit),
    Reachable (reuseNext (M := Unit)) ReuseStart anyStep s ∧
    callMethod (peer (.received {})) (.new [()]) s.controller.reset = .ok r ∧
    callMethod (peer (.received {})) (.new [()]) {} = .ok f ∧
    r.controller.errors ≠ f.controller.errors ∧ ¬NewNumber s (peer (.received {})) := by
  obtain ⟨s, hs, hmax, hmsg, hnumbers, herrors⟩ := reached_after noAnswer (not_not.mpr rfl)
  obtain ⟨r, hr, hleft⟩ : ∃ r, callMethod (peer (.received {})) (.new [()]) s.controller = .ok r ∧ _ :=
    peer_left hmax (.inr hmsg) id
  obtain ⟨f, hf, hleft'⟩ : ∃ f, callMethod (peer (.received {})) (.new [()]) ({} : RpcController Unit) = .ok f ∧ _ :=
    peer_left rfl (.inl rfl) id
  refine ⟨s, r, f, hs, hr, hf, ?_, fun hnew => ?_⟩
  · rw [hleft.errors_eq, hleft'.errors_eq]
    show s.controller.errors ≠ (false, 0, [])
    rw [herrors]
    exact nofun
  · have hnumber : text "1" ∈ callNumber (peer (.received {})) s.controller.reset :=
      congrArg some (callMsgSeq_peer (.inr hmsg))
    exact hnew _ hnumber (by decide) (hnumbers ▸ List.mem_cons_self)

/-- After a call that has been answered, a call whose request does not serialise shows no error and takes no number. -/
theorem reset_safe_after_reply : ∃ (s : Reuse Unit) (r f : CallState Unit Unit),
    Reachable (reuseNext (M := Unit)) ReuseStart anyStep s ∧ s.controller.reset.msgReq = text "1" ∧
    r.controller.msgReq = text "1" ∧ f.controller.msgReq = [] ∧
    (r.controller.errors = f.controller.errors ∧ NewNumber s { peer noAnswer with serializedRequest := none }) := by
  obtain ⟨s, hs, -, hmsg, -, herrors⟩ := reached_after (.received {}) id
  let env : CallEnv Unit Unit := { peer noAnswer with serializedRequest := none }
  have hr : callMethod env (.new [()]) s.controller.reset =
      .ok { channel := .new [()], controller := s.controller.reset, doneRuns := 1 } := rfl
  have hf : callMethod env (.new [()]) {} = .ok { channel := .new [()], controller := {}, doneRuns := 1 } := rfl
  exact ⟨s, _, _, hs, hmsg, hmsg, rfl, (reset_safe_iff hs hr hf).mpr ⟨nofun, .inl herrors⟩⟩

end Tirpc
