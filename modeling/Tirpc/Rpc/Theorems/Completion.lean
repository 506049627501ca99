import Tirpc.Rpc.Lemmas.Attempts

/-!
# How often the closure of a call runs

Every exit runs it once, but for a reply whose payload does not parse. A call without a reply that settles it does
not return.
-/

namespace Tirpc

open Lib

variable {A M : Type} {env : CallEnv A M} {channel : RpcChannel A}

def RunsDoneOnce (r : Except CallFault (Nat × Option (CallState A M))) : Prop := ∃ s, r = .ok (1, s)

/-- The payload parses, or there is none. -/
def Completes (env : CallEnv A M) : SendAndRecv → Prop
  | .received res => env.parseResponse res.pbData ≠ none
  | .failed _ _ _ => True

/-- The cast fails, or the request does not serialise; or there is an attempt to make, and there is no address, or
the method has no name, or the result that settles the attempts is no reply that does not parse. -/
def CallCompletes (env : CallEnv A M) (channel : RpcChannel A) : Option (RpcController A) → Prop
  | none => True
  | some c => env.serializedRequest = none ∨ ∃ pbData, env.serializedRequest = some pbData ∧ 0 ≤ c.maxRetry ∧
      (channel.originAddrs = [] ∨ env.methodFullName = [] ∨
        ∃ a, Settles env pbData (callMsgSeq env c) (c.maxRetry + 1).toNat 0 a ∧ Completes env a)

theorem completes_iff {a : SendAndRecv} : Completes env a ↔ (settlement env a).2 = 1 := by
  cases a with
  | received res =>
      simp only [Completes, settlement]
      cases env.parseResponse res.pbData with
      | none => exact ⟨fun h => absurd rfl h, fun h => absurd h Nat.zero_ne_one⟩
      | some response => exact ⟨fun _ => rfl, fun _ => Option.some_ne_none _⟩
  | failed ret errInfo hz => exact ⟨fun _ => rfl, fun _ => trivial⟩

theorem callCompletes_iff {c : RpcController A} :
    CallCompletes env channel (some c) ↔ ∃ error, CallEnds env channel c error 1 := by
  constructor
  · rintro (hs | ⟨pbData, hs, hm, hcases⟩)
    · exact ⟨_, .notSerialized hs⟩
    · by_cases ho : channel.originAddrs = []
      · exact ⟨_, .noAddress hs hm ho⟩
      · by_cases hn : env.methodFullName = []
        · exact ⟨_, .noName hs hm ho hn⟩
        · obtain ⟨a, ha, hc⟩ := (hcases.resolve_left ho).resolve_left hn
          have hends : CallEnds env channel c _ _ := .settled hs ho hn ha
          rw [completes_iff.mp hc] at hends
          exact ⟨_, hends⟩
  · rintro ⟨error, h⟩
    generalize hruns : 1 = runs at h
    cases h with
    | notSerialized hs => exact .inl hs
    | noAddress hs hm ho => exact .inr ⟨_, hs, hm, .inl ho⟩
    | noName hs hm ho hn => exact .inr ⟨_, hs, hm, .inr (.inl hn)⟩
    | settled hs ho hn ha =>
        have hpos := ha.left_pos
        exact .inr ⟨_, hs, by omega, .inr (.inr ⟨_, ha, completes_iff.mpr hruns.symm⟩)⟩

/-- For every channel, controller and course of the attempts: the call returns and has run the closure exactly
once, if and only if it completes. -/
theorem done_runs_once_iff (env : CallEnv A M) (channel : RpcChannel A) (controller : Option (RpcController A)) :
    RunsDoneOnce (castAndCall env channel controller) ↔ CallCompletes env channel controller := by
  cases controller with
  | none => exact ⟨fun _ => trivial, fun _ => ⟨none, rfl⟩⟩
  | some c =>
      rw [callCompletes_iff]
      constructor
      · rintro ⟨s, hs⟩
        rw [castAndCall] at hs
        cases hr : callMethod env channel c with
        | error e =>
            rw [hr] at hs
            cases hs
        | ok r =>
            rw [hr, Except.map, Except.ok.injEq, Prod.mk.injEq] at hs
            obtain ⟨error, runs, hends⟩ := callMethod_ends hr
            obtain ⟨r', hr', hleft⟩ := callMethod_left hends
            cases hr.symm.trans hr'
            exact ⟨error, (hleft.doneRuns.symm.trans hs.1) ▸ hends⟩
      · rintro ⟨error, hends⟩
        obtain ⟨r, hr, hleft⟩ := callMethod_left hends
        refine ⟨some r, ?_⟩
        rw [castAndCall, hr, Except.map, hleft.doneRuns]

/-! ## A reply that does not parse -/

/-- The server answers at once, with a payload that is none. -/
def garbledPeer : CallEnv Unit Unit where
  toString _ := []
  localAddr := ()
  methodFullName := text "S.m"
  serializedRequest := some []
  parseResponse _ := none
  runtimeMsgNo := none
  genMsgNumber _ := ⟨text "1", MsgNumber.digits_one⟩
  select _ _ _ := ()
  sendAndRecv _ := .received {}

/-- The call returns with an error, and nobody is told. -/
theorem done_forgotten : (∃ s, castAndCall garbledPeer (.new [()]) (some {}) = .ok (0, s)) ∧
    ¬RunsDoneOnce (castAndCall garbledPeer (.new [()]) (some {})) := by
  have hends : CallEnds garbledPeer (.new [()]) {} _ 0 :=
    .settled (a := .received {}) rfl (List.cons_ne_nil _ _) (by decide) (.now (by decide) id)
  obtain ⟨r, hr, hleft⟩ := callMethod_left hends
  have hcall : castAndCall garbledPeer (.new [()]) (some {}) = .ok (0, some r) := by
    rw [castAndCall, hr, Except.map, hleft.doneRuns]
  refine ⟨⟨_, hcall⟩, fun h => ?_⟩
  obtain ⟨s, hs⟩ := h
  rw [hcall] at hs
  cases hs

end Tirpc
