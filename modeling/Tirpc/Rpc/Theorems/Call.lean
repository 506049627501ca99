import Tirpc.Rpc.Lemmas.Attempts

/-!
# What a call reports

Which calls return, with an error code on the controller exactly when there is no good reply.
-/

namespace Tirpc

open Lib

variable {A M : Type} {env : CallEnv A M}

/-- The call returns; its error code is zero for a reply without an error code whose payload parses, and
only for one; and the response is then the parse of that payload. -/
def ReportsReply (env : CallEnv A M) (r : Except CallFault (CallState A M)) : Prop :=
  ∃ s, r = .ok s ∧
    (s.controller.errorCode ≠ 0 ↔ s.resData = none ∨ ∃ res, s.resData = some res ∧
      (res.errCode ≠ 0 ∨ env.parseResponse res.pbData = none)) ∧
    (s.controller.errorCode = 0 → ∃ res, s.resData = some res ∧
      s.response = env.parseResponse res.pbData)

/-! ## Attempts that decide a call -/

/-- The attempt timed out, or brought a reply that has no error code or does not parse. -/
def Conclusive (env : CallEnv A M) : SendAndRecv → Prop
  | .received res => res.errCode = 0 ∨ env.parseResponse res.pbData = none
  | .failed ret _ _ => ret = ERROR_RPC_CALL_TIMEOUT

/-- Among `left` attempts from number `k` on, all up to a conclusive one are retried. -/
def Decided (env : CallEnv A M) (pbData msgSeq : Bytes) (left k : Nat) : Prop :=
  ∃ j, k ≤ j ∧ j < k + left ∧ (∀ i, k ≤ i → i < j → Retried (env.sendAndRecv i)) ∧
    Conclusive env (env.sendAndRecv j) ∧ ∀ i, k ≤ i → i ≤ j → PackageFits env pbData msgSeq i

theorem decided_zero {pbData msgSeq : Bytes} {k : Nat} : ¬Decided env pbData msgSeq 0 k := by
  rintro ⟨j, h1, h2, -⟩
  omega

theorem decided_succ {pbData msgSeq : Bytes} {left k : Nat} :
    Decided env pbData msgSeq (left + 1) k ↔ PackageFits env pbData msgSeq k ∧
      (Conclusive env (env.sendAndRecv k) ∨
        Retried (env.sendAndRecv k) ∧ Decided env pbData msgSeq left (k + 1)) := by
  refine ⟨fun h => ?_, fun h => ?_⟩
  · obtain ⟨j, hkj, hj, hretry, hend, hfits⟩ := h
    refine ⟨hfits k (Nat.le_refl _) hkj, ?_⟩
    rcases Nat.eq_or_lt_of_le hkj with rfl | hlt
    · exact .inl hend
    · refine .inr ⟨hretry k (Nat.le_refl _) hlt, j, hlt, by omega, ?_, hend, ?_⟩
      · exact fun i hi => hretry i (by omega)
      · exact fun i hi => hfits i (by omega)
  · obtain ⟨hfit, hend | ⟨hretry, j, hkj, hj, hretries, hend, hfits⟩⟩ := h
    · refine ⟨k, Nat.le_refl _, by omega, fun i h1 h2 => by omega, hend, fun i h1 h2 => ?_⟩
      rw [show i = k by omega]
      exact hfit
    · refine ⟨j, by omega, by omega, fun i h1 h2 => ?_, hend, fun i h1 h2 => ?_⟩
      · rcases Nat.eq_or_lt_of_le h1 with rfl | hlt
        · exact hretry
        · exact hretries i hlt h2
      · rcases Nat.eq_or_lt_of_le h1 with rfl | hlt
        · exact hfit
        · exact hfits i hlt h2

/-! ## The loop -/

/-- Nothing has been reported yet, and the package of the next attempt is the `k`-th. -/
structure Trying (env : CallEnv A M) (pbData msgSeq : Bytes) (k : Nat) (s : CallState A M) : Prop where
  origin : s.channel.originAddrs ≠ []
  errorCode : s.controller.errorCode = 0
  resData : s.resData = none
  serviceFullName : s.pbStruct.serviceFullName = env.methodFullName
  pbData_eq : s.pbStruct.pbData = pbData
  errInfo : s.pbStruct.errInfo = []
  msgSeq_eq : s.pbStruct.msgSeq = numberAfter env msgSeq k

theorem Trying.sending {pbData msgSeq : Bytes} {k : Nat} {s : CallState A M} (h : Trying env pbData msgSeq k s) :
    Sending env pbData msgSeq k s :=
  ⟨h.origin, h.resData, h.serviceFullName, h.pbData_eq, h.errInfo, h.msgSeq_eq⟩

theorem Sending.trying {pbData msgSeq : Bytes} {k : Nat} {s : CallState A M} (h : Sending env pbData msgSeq k s)
    (he : s.controller.errorCode = 0) : Trying env pbData msgSeq k s :=
  ⟨h.origin, he, h.resData, h.serviceFullName, h.pbData_eq, h.errInfo, h.msgSeq_eq⟩

theorem retryLoop_succ {pbData msgSeq : Bytes} (left : Nat) {k : Nat} {s : CallState A M}
    (hname : env.methodFullName ≠ []) (h : Trying env pbData msgSeq k s) :
    (¬PackageFits env pbData msgSeq k → retryLoop env (left + 1) k s = .error .badEncode) ∧
    (PackageFits env pbData msgSeq k → ∃ s' addr, Trying env pbData msgSeq (k + 1) s' ∧
      retryLoop env (left + 1) k s =
        match env.sendAndRecv k with
        | .received res => .ok (.done { s' with resData := some res })
        | .failed ret errInfo _ =>
            if ret ≠ ERROR_RPC_CALL_TIMEOUT then
              retryLoop env left (k + 1) { s' with channel := s'.channel.erase env.toString addr }
            else .ok (.returned (s'.setError ret errInfo).runDone)) := by
  obtain ⟨hno, hyes⟩ := retryLoop_attempt left hname h.sending
  refine ⟨hno, fun hfit => ?_⟩
  obtain ⟨s', addr, h', hframe, hloop⟩ := hyes hfit
  obtain ⟨l, p, hc⟩ := hframe.controller
  exact ⟨s', addr, h'.trying (by rw [hc]; exact h.errorCode), hloop⟩

theorem not_reportsReply_error {e : CallFault} : ¬ReportsReply env (.error e : Except CallFault (CallState A M)) := by
  rintro ⟨s, hs, -⟩
  cases hs

theorem reportsReply_of_error {s : CallState A M} (he : s.controller.errorCode ≠ 0) (hr : s.resData = none) :
    ReportsReply env (.ok s) :=
  ⟨s, rfl, ⟨fun _ => .inl hr, fun _ => he⟩, fun h => absurd h he⟩

theorem reportsReply_received (env : CallEnv A M) (res : TinyPbStruct) {s : CallState A M}
    (he : s.controller.errorCode = 0) :
    ReportsReply env (leaveLoop env (.done { s with resData := some res })) ↔
      res.errCode = 0 ∨ env.parseResponse res.pbData = none := by
  unfold leaveLoop finishCall
  dsimp only
  cases hp : env.parseResponse res.pbData with
  | none =>
      have hcode : ERROR_FAILED_DESERIALIZE ≠ 0 := by decide
      refine ⟨fun _ => .inr rfl, fun _ => ⟨_, rfl, ?_, fun h => absurd h hcode⟩⟩
      exact ⟨fun _ => .inr ⟨res, rfl, .inr hp⟩, fun _ => hcode⟩
  | some response =>
      refine ⟨fun h => ?_, fun h => ⟨_, rfl, ?_, ?_⟩⟩
      · obtain ⟨s', hs', hiff, -⟩ := h
        cases hs'
        refine .inl (Decidable.byContradiction fun hne => ?_)
        exact hiff.mpr (.inr ⟨res, rfl, .inl hne⟩) he
      · refine ⟨fun h' => absurd he h', ?_⟩
        rintro (hnone | ⟨r, hr, hcode | hparse⟩)
        · cases hnone
        · cases hr
          rcases h with h | h
          · exact absurd h hcode
          · cases h
        · cases hr
          cases hp.symm.trans hparse
      · exact fun _ => ⟨res, rfl, hp.symm⟩

theorem retryLoop_reports {pbData msgSeq : Bytes} {left k : Nat} {s : CallState A M}
    (hname : env.methodFullName ≠ []) (h : Trying env pbData msgSeq k s) :
    ReportsReply env ((retryLoop env left k s).bind (leaveLoop env)) ↔
      Decided env pbData msgSeq left k := by
  induction left generalizing k s with
  | zero =>
      refine ⟨fun hr => ?_, fun hd => absurd hd decided_zero⟩
      have hnone : (retryLoop env 0 k s).bind (leaveLoop env) = .error .nullReply := by
        rw [retryLoop, Except.bind, leaveLoop, finishCall, h.resData]
      rw [hnone] at hr
      exact absurd hr not_reportsReply_error
  | succ left ih =>
      rw [decided_succ]
      obtain ⟨hno, hyes⟩ := retryLoop_succ left hname h
      by_cases hfit : PackageFits env pbData msgSeq k
      · obtain ⟨s', addr, h', hloop⟩ := hyes hfit
        rw [hloop, and_iff_right hfit]
        cases ha : env.sendAndRecv k with
        | received res =>
            have hrec := reportsReply_received env res h'.errorCode
            simpa only [Except.bind, Conclusive, Retried, false_and, or_false] using hrec
        | failed ret errInfo hz =>
            dsimp only
            by_cases ht : ret = ERROR_RPC_CALL_TIMEOUT
            · rw [if_neg (not_not.mpr ht)]
              refine ⟨fun _ => .inl ht, fun _ => ?_⟩
              exact reportsReply_of_error hz h'.resData
            · have hnext : Trying env pbData msgSeq (k + 1)
                  { s' with channel := s'.channel.erase env.toString addr } :=
                ⟨h'.origin, h'.errorCode, h'.resData, h'.serviceFullName, h'.pbData_eq, h'.errInfo, h'.msgSeq_eq⟩
              rw [if_pos ht, ih hnext]
              simp only [Conclusive, Retried, ht, false_or, ne_eq, not_false_eq_true, true_and]
      · rw [hno hfit]
        refine ⟨fun hr => absurd hr not_reportsReply_error, fun hd => absurd hd.1 hfit⟩

/-! ## Calls with a fresh controller -/

def freshController (maxRetry : Nat) : RpcController A := { maxRetry := maxRetry }

def callStart (env : CallEnv A M) (channel : RpcChannel A) (maxRetry : Nat) (pbData : Bytes) : CallState A M :=
  let msgSeq := callMsgSeq env (freshController maxRetry : RpcController A)
  { channel := channel
    controller := (freshController maxRetry).setMsgSeq msgSeq
    pbStruct := { serviceFullName := env.methodFullName, pbData := pbData, msgSeq := msgSeq } }

theorem callMethod_eq {channel : RpcChannel A} {maxRetry : Nat} {pbData : Bytes}
    (hs : env.serializedRequest = some pbData) :
    callMethod env channel (freshController maxRetry) =
      (retryLoop env (maxRetry + 1) 0 (callStart env channel maxRetry pbData)).bind (leaveLoop env) := by
  have hleft : ((freshController maxRetry : RpcController A).maxRetry + 1).toNat = maxRetry + 1 := by
    unfold freshController
    dsimp only
    omega
  rw [callMethod_serialized hs, hleft]
  rfl

theorem callStart_trying {channel : RpcChannel A} {maxRetry : Nat} {pbData : Bytes}
    (ho : channel.originAddrs ≠ []) :
    Trying env pbData (callMsgSeq env (freshController maxRetry : RpcController A)) 0
      (callStart env channel maxRetry pbData) :=
  (startOf_sending ho).trying rfl

/-- The request serialises; and there is no address, or the method has no name, or among the first
`maxRetry + 1` attempts all up to a conclusive one are retried. -/
def CallDecided (env : CallEnv A M) (channel : RpcChannel A) (maxRetry : Nat) : Prop :=
  ∃ pbData, env.serializedRequest = some pbData ∧
    (channel.originAddrs = [] ∨ env.methodFullName = [] ∨
      Decided env pbData (callMsgSeq env (freshController maxRetry : RpcController A)) (maxRetry + 1) 0)

theorem retryLoop_no_addrs {left k : Nat} {s : CallState A M} (ho : s.channel.originAddrs = [])
    (hr : s.resData = none) :
    ReportsReply env ((retryLoop env (left + 1) k s).bind (leaveLoop env)) := by
  rw [retryLoop, retryPass, if_pos (refill_no_addrs ho)]
  exact reportsReply_of_error (show ERROR_SERVICE_NOT_FOUND ≠ 0 by decide) hr

theorem retryLoop_no_name {left k : Nat} {s : CallState A M} (ho : s.channel.originAddrs ≠ [])
    (hn : s.pbStruct.serviceFullName = []) (hr : s.resData = none) :
    ReportsReply env ((retryLoop env (left + 1) k s).bind (leaveLoop env)) := by
  rw [retryLoop, retryPass, if_neg (RpcChannel.refill_addrs ho).1]
  simp only [chooseAddr, encode_refused _ _ hn]
  exact reportsReply_of_error (show ERROR_FAILED_ENCODE ≠ 0 by decide) hr

/-- A call with a fresh controller returns and reports what it received if and only if it is decided. -/
theorem callMethod_reports_iff (env : CallEnv A M) (channel : RpcChannel A) (maxRetry : Nat) :
    ReportsReply env (callMethod env channel (freshController maxRetry)) ↔
      CallDecided env channel maxRetry := by
  simp only [CallDecided]
  cases hs : env.serializedRequest with
  | none =>
      refine ⟨fun h => ?_, fun h => ?_⟩
      · rw [callMethod, hs] at h
        obtain ⟨s, hs', hiff, -⟩ := h
        cases hs'
        exact absurd rfl (hiff.mpr (.inl rfl))
      · obtain ⟨_, h, -⟩ := h
        cases h
  | some pbData =>
      simp only [Option.some.injEq, exists_eq_left']
      rw [callMethod_eq hs]
      by_cases ho : channel.originAddrs = []
      · exact ⟨fun _ => .inl ho, fun _ => retryLoop_no_addrs ho rfl⟩
      · by_cases hn : env.methodFullName = []
        · exact ⟨fun _ => .inr (.inl hn), fun _ => retryLoop_no_name ho hn rfl⟩
        · rw [retryLoop_reports hn (callStart_trying ho)]
          simp only [ho, hn, false_or]

/-- A peer that refuses every connection. -/
def closedPeer : CallEnv Unit Unit where
  toString _ := []
  localAddr := ()
  methodFullName := text "S.m"
  serializedRequest := some []
  parseResponse _ := some ()
  runtimeMsgNo := none
  genMsgNumber _ := ⟨text "1", by decide +kernel⟩
  select _ _ _ := ()
  sendAndRecv _ := .failed ERROR_PEER_CLOSED [] (by decide)

/-- When the last attempt fails with another code than the timeout's, the reply is used all the same. -/
theorem callMethod_uses_absent_reply :
    callMethod closedPeer (.new [()]) (freshController 0) = .error .nullReply ∧
      ¬ReportsReply closedPeer (callMethod closedPeer (.new [()]) (freshController 0)) := by
  have hname : closedPeer.methodFullName ≠ [] := by decide
  have hser : closedPeer.serializedRequest = some [] := rfl
  have htry : Trying closedPeer [] _ 0 (callStart closedPeer (.new [()]) 0 []) :=
    callStart_trying (List.cons_ne_nil _ _)
  have hcall : callMethod closedPeer (.new [()]) (freshController 0) = .error .nullReply := by
    obtain ⟨s', addr, h', hloop⟩ := (retryLoop_succ 0 hname htry).2 (by decide)
    rw [callMethod_eq hser, hloop]
    have hretry : ERROR_PEER_CLOSED ≠ ERROR_RPC_CALL_TIMEOUT := by decide
    simp only [closedPeer, if_pos hretry, retryLoop, Except.bind, leaveLoop, finishCall, h'.resData]
  exact ⟨hcall, by rw [hcall]; exact not_reportsReply_error⟩

end Tirpc
