import Tirpc.Rpc.Channel
import Tirpc.Rpc.Lemmas.RoundTrip

/-!
# The attempts of a call
-/

namespace Tirpc

open Lib

variable {A M : Type} {env : CallEnv A M}

def Retried : SendAndRecv → Prop
  | .received _ => False
  | .failed ret _ _ => ret ≠ ERROR_RPC_CALL_TIMEOUT

def numberAfter (env : CallEnv A M) (msgSeq : Bytes) : Nat → Bytes
  | 0 => msgSeq
  | n + 1 =>
      if numberAfter env msgSeq n = [] then (env.genMsgNumber (n + 1)).bytes else numberAfter env msgSeq n

/-- The package of attempt `k` fits a fresh out buffer, which grows to one and a half of its length. -/
def PackageFits (env : CallEnv A M) (pbData msgSeq : Bytes) (k : Nat) : Prop :=
  3 * (26 + (pbData.length : Int) + env.methodFullName.length + (numberAfter env msgSeq (k + 1)).length)
    < 4294967296

instance (env : CallEnv A M) (pbData msgSeq : Bytes) (k : Nat) : Decidable (PackageFits env pbData msgSeq k) :=
  inferInstanceAs (Decidable (_ < _))

/-- Among `left` attempts from number `k` on, all up to this result are retried, and their packages fit. -/
inductive Settles (env : CallEnv A M) (pbData msgSeq : Bytes) : Nat → Nat → SendAndRecv → Prop
  | now {left k : Nat} (hfit : PackageFits env pbData msgSeq k) (h : ¬Retried (env.sendAndRecv k)) :
      Settles env pbData msgSeq (left + 1) k (env.sendAndRecv k)
  | later {left k : Nat} {a : SendAndRecv} (hfit : PackageFits env pbData msgSeq k)
      (h : Retried (env.sendAndRecv k)) (hrest : Settles env pbData msgSeq left (k + 1) a) :
      Settles env pbData msgSeq (left + 1) k a

theorem Settles.unique {pbData msgSeq : Bytes} {left k : Nat} {a b : SendAndRecv}
    (ha : Settles env pbData msgSeq left k a) (hb : Settles env pbData msgSeq left k b) : a = b := by
  induction ha with
  | now _ h =>
      cases hb with
      | now => rfl
      | later _ h' => exact absurd h' h
  | later _ h _ ih =>
      cases hb with
      | now _ h' => exact absurd h h'
      | later _ _ hrest => exact ih hrest

/-! ## One attempt -/

/-- Nothing has been received yet, and the package of the next attempt is the `k`-th. -/
structure Sending (env : CallEnv A M) (pbData msgSeq : Bytes) (k : Nat) (s : CallState A M) : Prop where
  origin : s.channel.originAddrs ≠ []
  resData : s.resData = none
  serviceFullName : s.pbStruct.serviceFullName = env.methodFullName
  pbData_eq : s.pbStruct.pbData = pbData
  errInfo : s.pbStruct.errInfo = []
  msgSeq_eq : s.pbStruct.msgSeq = numberAfter env msgSeq k

theorem RpcChannel.refill_addrs {ch : RpcChannel A} (h : ch.originAddrs ≠ []) :
    ch.refill.addrs ≠ [] ∧ ch.refill.originAddrs = ch.originAddrs := by
  simp only [RpcChannel.refill]
  split
  · exact ⟨h, rfl⟩
  · exact ⟨‹_›, rfl⟩

theorem numbered_fields (g : Bytes) (d : TinyPbStruct) :
    (numbered g d).pbData = d.pbData ∧ (numbered g d).serviceFullName = d.serviceFullName ∧
      (numbered g d).errInfo = d.errInfo := by
  simp only [numbered]
  split <;> exact ⟨rfl, rfl, rfl⟩

theorem numbered_numberAfter {pbData msgSeq : Bytes} {k : Nat} {s : CallState A M}
    (h : Sending env pbData msgSeq k s) :
    (numbered (env.genMsgNumber (k + 1)).bytes s.pbStruct).msgSeq = numberAfter env msgSeq (k + 1) := by
  simp only [numbered, numberAfter]
  rw [← h.msgSeq_eq]
  split <;> rfl

theorem packageLen_numbered {pbData msgSeq : Bytes} {k : Nat} {s : CallState A M}
    (h : Sending env pbData msgSeq k s) :
    packageLen (numbered (env.genMsgNumber (k + 1)).bytes s.pbStruct) =
      26 + pbData.length + env.methodFullName.length + (numberAfter env msgSeq (k + 1)).length := by
  obtain ⟨h1, h2, h3⟩ := numbered_fields (env.genMsgNumber (k + 1)).bytes s.pbStruct
  simp only [packageLen]
  rw [numbered_numberAfter h, h1, h2, h3, h.pbData_eq, h.serviceFullName, h.errInfo, List.length_nil]
  omega

/-- What an attempt leaves alone: the closure, and the controller but for the addresses. -/
structure AttemptFrame (s s' : CallState A M) : Prop where
  doneRuns : s'.doneRuns = s.doneRuns
  controller : ∃ l p, s'.controller = { s.controller with localAddr := l, peerAddr := p }

theorem retryLoop_attempt {pbData msgSeq : Bytes} (left : Nat) {k : Nat} {s : CallState A M}
    (hname : env.methodFullName ≠ []) (h : Sending env pbData msgSeq k s) :
    (¬PackageFits env pbData msgSeq k → retryLoop env (left + 1) k s = .error .badEncode) ∧
    (PackageFits env pbData msgSeq k → ∃ s' addr, Sending env pbData msgSeq (k + 1) s' ∧ AttemptFrame s s' ∧
      retryLoop env (left + 1) k s =
        match env.sendAndRecv k with
        | .received res => .ok (.done { s' with resData := some res })
        | .failed ret errInfo _ =>
            if ret ≠ ERROR_RPC_CALL_TIMEOUT then
              retryLoop env left (k + 1) { s' with channel := s'.channel.erase env.toString addr }
            else .ok (.returned (s'.setError ret errInfo).runDone)) := by
  obtain ⟨haddrs, horigin⟩ := RpcChannel.refill_addrs h.origin
  have hlen := packageLen_numbered h
  have hn : s.pbStruct.serviceFullName ≠ [] := h.serviceFullName ▸ hname
  have hnew : (TcpBuffer.new 128).Valid := (TcpBuffer.new_holds (by decide)).valid
  obtain ⟨hfit, hno⟩ := encode_eq (env.genMsgNumber (k + 1)).bytes hnew hn
  rw [hlen] at hfit hno
  rw [retryLoop, retryPass, if_neg haddrs]
  refine ⟨fun hbig => ?_, fun hsmall => ?_⟩
  · have hnone := hno (by
      rintro ⟨-, hroom | hgrow⟩
      · simp only [TcpBuffer.writeable, TcpBuffer.getSize, TcpBuffer.new, List.length_replicate] at hroom
        simp only [PackageFits] at hbig
        omega
      · simp only [TcpBuffer.new] at hgrow
        simp only [PackageFits] at hbig
        omega)
    simp only [chooseAddr, hnone]
  · unfold PackageFits at hsmall
    obtain ⟨out', henc⟩ := hfit (by omega) (.inr (by simp only [TcpBuffer.new]; omega))
    obtain ⟨h1, h2, h3⟩ := numbered_fields (env.genMsgNumber (k + 1)).bytes s.pbStruct
    refine ⟨{ (chooseAddr env k { s with channel := s.channel.refill }).2 with
      pbStruct := encoded (numbered (env.genMsgNumber (k + 1)).bytes s.pbStruct) },
      (chooseAddr env k { s with channel := s.channel.refill }).1, ⟨?_, ?_, ?_, ?_, ?_, ?_⟩, ⟨rfl, _, _, rfl⟩, ?_⟩
    · exact horigin ▸ h.origin
    · exact h.resData
    · exact h2.trans h.serviceFullName
    · exact h1.trans h.pbData_eq
    · exact h3.trans h.errInfo
    · exact numbered_numberAfter h
    · simp only [chooseAddr, henc]
      rw [if_neg (show ¬(encoded _).encodeSucc = false from Bool.false_ne_true.symm)]
      cases env.sendAndRecv k with
      | received res => rfl
      | failed ret errInfo nonzero =>
          dsimp only
          by_cases ht : ret ≠ ERROR_RPC_CALL_TIMEOUT
          · rw [if_pos ht, if_pos ht]
          · rw [if_neg ht, if_neg ht]

/-! ## The end of the loop -/

/-- How this result settles a call: the error for the controller, and the runs of the closure. -/
def settlement (env : CallEnv A M) : SendAndRecv → Option (Int × Bytes) × Nat
  | .received res =>
      match env.parseResponse res.pbData with
      | none => (some (ERROR_FAILED_DESERIALIZE, text "failed to deserialize data from server"), 0)
      | some _ => (none, 1)
  | .failed ret errInfo _ => (some (ret, errInfo), 1)

def withError (c : RpcController A) : Option (Int × Bytes) → RpcController A
  | none => c
  | some (errCode, errInfo) => c.setError errCode errInfo

/-- What a call has done from `s` on: an error on the controller, and runs of the closure. -/
structure Ended (s r : CallState A M) (error : Option (Int × Bytes)) (runs : Nat) : Prop where
  doneRuns : r.doneRuns = s.doneRuns + runs
  controller : ∃ l p, r.controller = { withError s.controller error with localAddr := l, peerAddr := p }

theorem Ended.of_frame {s s' r : CallState A M} {error : Option (Int × Bytes)} {runs : Nat} (hf : AttemptFrame s s')
    (h : Ended s' r error runs) : Ended s r error runs := by
  obtain ⟨l, p, hc⟩ := hf.controller
  obtain ⟨l', p', hr⟩ := h.controller
  refine ⟨by rw [h.doneRuns, hf.doneRuns], l', p', ?_⟩
  rw [hr, hc]
  cases error <;> rfl

/-- A reply ends the call, with the closure only when its payload parses. -/
theorem finishCall_ended (env : CallEnv A M) (s : CallState A M) (res : TinyPbStruct) :
    ∃ r, finishCall env { s with resData := some res } = .ok r ∧
      Ended s r (settlement env (.received res)).1 (settlement env (.received res)).2 := by
  simp only [finishCall, settlement]
  cases env.parseResponse res.pbData with
  | none => exact ⟨_, rfl, rfl, s.controller.localAddr, s.controller.peerAddr, rfl⟩
  | some response => exact ⟨_, rfl, rfl, s.controller.localAddr, s.controller.peerAddr, rfl⟩

/-- The loop returns if and only if a result settles it, and then as this result says. -/
theorem retryLoop_ends {pbData msgSeq : Bytes} {left k : Nat} {s : CallState A M} (hname : env.methodFullName ≠ [])
    (h : Sending env pbData msgSeq k s) :
    (∀ a, Settles env pbData msgSeq left k a → ∃ r, (retryLoop env left k s).bind (leaveLoop env) = .ok r ∧
      Ended s r (settlement env a).1 (settlement env a).2) ∧
    ∀ r, (retryLoop env left k s).bind (leaveLoop env) = .ok r → ∃ a, Settles env pbData msgSeq left k a := by
  induction left generalizing k s with
  | zero =>
      refine ⟨nofun, fun r hr => ?_⟩
      rw [retryLoop, Except.bind, leaveLoop, finishCall, h.resData] at hr
      cases hr
  | succ left ih =>
      obtain ⟨hno, hyes⟩ := retryLoop_attempt left hname h
      by_cases hfit : PackageFits env pbData msgSeq k
      · obtain ⟨s', addr, h', hframe, hloop⟩ := hyes hfit
        rw [hloop]
        cases ha : env.sendAndRecv k with
        | received res =>
            obtain ⟨r, hr, hend⟩ := finishCall_ended env s' res
            have hnow : Settles env pbData msgSeq (left + 1) k (.received res) := ha ▸ .now hfit (by rw [ha]; exact id)
            refine ⟨fun a hsettle => ?_, fun _ _ => ⟨_, hnow⟩⟩
            rw [hsettle.unique hnow]
            exact ⟨r, hr, hend.of_frame hframe⟩
        | failed ret errInfo hz =>
            dsimp only
            by_cases ht : ret = ERROR_RPC_CALL_TIMEOUT
            · have hnow : Settles env pbData msgSeq (left + 1) k (.failed ret errInfo hz) :=
                ha ▸ .now hfit (by rw [ha]; exact not_not.mpr ht)
              rw [if_neg (not_not.mpr ht)]
              refine ⟨fun a hsettle => ?_, fun _ _ => ⟨_, hnow⟩⟩
              rw [hsettle.unique hnow]
              have hend : Ended s' (s'.setError ret errInfo).runDone (some (ret, errInfo)) 1 :=
                ⟨rfl, s'.controller.localAddr, s'.controller.peerAddr, rfl⟩
              exact ⟨_, rfl, hend.of_frame hframe⟩
            · have hretried : Retried (env.sendAndRecv k) := by rw [ha]; exact ht
              rw [if_pos ht]
              have hnext : Sending env pbData msgSeq (k + 1)
                  { s' with channel := s'.channel.erase env.toString addr } :=
                ⟨h'.origin, h'.resData, h'.serviceFullName, h'.pbData_eq, h'.errInfo, h'.msgSeq_eq⟩
              have hnext' : AttemptFrame s { s' with channel := s'.channel.erase env.toString addr } :=
                ⟨hframe.doneRuns, hframe.controller⟩
              obtain ⟨hends, hreturns⟩ := ih hnext
              refine ⟨fun a hsettle => ?_, fun r hr => ?_⟩
              · cases hsettle with
                | now _ hnot => exact absurd hretried hnot
                | later _ _ hrest =>
                    obtain ⟨r, hr, hend⟩ := hends a hrest
                    exact ⟨r, hr, hend.of_frame hnext'⟩
              · obtain ⟨a, hrest⟩ := hreturns r hr
                exact ⟨a, .later hfit hretried hrest⟩
      · rw [hno hfit]
        refine ⟨fun a ha => ?_, fun r hr => ?_⟩
        · cases ha with
          | now hfit' => exact absurd hfit' hfit
          | later hfit' => exact absurd hfit' hfit
        · rw [Except.bind] at hr
          cases hr

theorem refill_no_addrs {ch : RpcChannel A} (ho : ch.originAddrs = []) : ch.refill.addrs = [] := by
  simp only [RpcChannel.refill]
  split
  · exact ho
  · exact List.sublist_nil.mp (ho ▸ ch.sub)

theorem retryLoop_noAddress {left k : Nat} {s : CallState A M} (ho : s.channel.originAddrs = []) :
    ∃ r, (retryLoop env (left + 1) k s).bind (leaveLoop env) = .ok r ∧
      Ended s r (some (ERROR_SERVICE_NOT_FOUND, text "not found address of service")) 1 := by
  rw [retryLoop, retryPass, if_pos (refill_no_addrs ho)]
  exact ⟨_, rfl, rfl, s.controller.localAddr, s.controller.peerAddr, rfl⟩

theorem retryLoop_noName {left k : Nat} {s : CallState A M} (ho : s.channel.originAddrs ≠ [])
    (hn : s.pbStruct.serviceFullName = []) :
    ∃ r, (retryLoop env (left + 1) k s).bind (leaveLoop env) = .ok r ∧
      Ended s r (some (ERROR_FAILED_ENCODE, text "encode tinypb data error")) 1 := by
  rw [retryLoop, retryPass, if_neg (RpcChannel.refill_addrs ho).1]
  simp only [chooseAddr, encode_refused _ _ hn]
  refine ⟨_, rfl, rfl, ?_⟩
  exact ⟨some env.localAddr, some (env.select k s.channel.refill.addrs s.pbStruct), rfl⟩

/-! ## The whole call -/

/-- How a call ends that returns: the error for its controller, and the runs of the closure. -/
inductive CallEnds (env : CallEnv A M) (channel : RpcChannel A) (c : RpcController A) :
    Option (Int × Bytes) → Nat → Prop
  | notSerialized (hs : env.serializedRequest = none) : CallEnds env channel c none 1
  | noAddress {pbData : Bytes} (hs : env.serializedRequest = some pbData) (hm : 0 ≤ c.maxRetry)
      (ho : channel.originAddrs = []) :
      CallEnds env channel c (some (ERROR_SERVICE_NOT_FOUND, text "not found address of service")) 1
  | noName {pbData : Bytes} (hs : env.serializedRequest = some pbData) (hm : 0 ≤ c.maxRetry)
      (ho : channel.originAddrs ≠ []) (hn : env.methodFullName = []) :
      CallEnds env channel c (some (ERROR_FAILED_ENCODE, text "encode tinypb data error")) 1
  | settled {pbData : Bytes} {a : SendAndRecv} (hs : env.serializedRequest = some pbData)
      (ho : channel.originAddrs ≠ []) (hn : env.methodFullName ≠ [])
      (ha : Settles env pbData (callMsgSeq env c) (c.maxRetry + 1).toNat 0 a) :
      CallEnds env channel c (settlement env a).1 (settlement env a).2

/-- The controller once it has the number of the call. -/
def withNumber (env : CallEnv A M) (c : RpcController A) : RpcController A :=
  match env.serializedRequest with
  | none => c
  | some _ => c.setMsgSeq (callMsgSeq env c)

variable {channel : RpcChannel A} {c : RpcController A}

theorem Settles.left_pos {pbData msgSeq : Bytes} {left k : Nat} {a : SendAndRecv}
    (h : Settles env pbData msgSeq left k a) : 0 < left := by
  cases h with
  | now => exact Nat.succ_pos _
  | later => exact Nat.succ_pos _

def startOf (env : CallEnv A M) (channel : RpcChannel A) (c : RpcController A) (pbData : Bytes) : CallState A M :=
  { channel := channel
    controller := c.setMsgSeq (callMsgSeq env c)
    pbStruct := { serviceFullName := env.methodFullName, pbData := pbData, msgSeq := callMsgSeq env c } }

theorem callMethod_serialized {pbData : Bytes} (hs : env.serializedRequest = some pbData) :
    callMethod env channel c =
      (retryLoop env (c.maxRetry + 1).toNat 0 (startOf env channel c pbData)).bind (leaveLoop env) := by
  rw [callMethod, hs]
  rfl

theorem startOf_sending {pbData : Bytes} (ho : channel.originAddrs ≠ []) :
    Sending env pbData (callMsgSeq env c) 0 (startOf env channel c pbData) :=
  ⟨ho, rfl, rfl, rfl, rfl, rfl⟩

/-- What a call leaves that returns. -/
structure CallLeft (env : CallEnv A M) (c : RpcController A) (r : CallState A M) (error : Option (Int × Bytes))
    (runs : Nat) : Prop where
  doneRuns : r.doneRuns = runs
  controller : ∃ l p, r.controller = { withError (withNumber env c) error with localAddr := l, peerAddr := p }

theorem Ended.callLeft {pbData : Bytes} {r : CallState A M} {error : Option (Int × Bytes)} {runs : Nat}
    (hs : env.serializedRequest = some pbData) (h : Ended (startOf env channel c pbData) r error runs) :
    CallLeft env c r error runs := by
  obtain ⟨hruns, l, p, hc⟩ := h
  refine ⟨hruns.trans (Nat.zero_add _), l, p, ?_⟩
  rw [hc, withNumber, hs]
  rfl

theorem callMethod_left {error : Option (Int × Bytes)} {runs : Nat} (h : CallEnds env channel c error runs) :
    ∃ r, callMethod env channel c = .ok r ∧ CallLeft env c r error runs := by
  cases h with
  | notSerialized hs =>
      refine ⟨_, by rw [callMethod, hs], rfl, c.localAddr, c.peerAddr, ?_⟩
      rw [withNumber, hs]
      rfl
  | noAddress hs hm ho =>
      obtain ⟨left, hleft⟩ : ∃ left, (c.maxRetry + 1).toNat = left + 1 := ⟨c.maxRetry.toNat, by omega⟩
      rw [callMethod_serialized hs, hleft]
      obtain ⟨r, hr, hend⟩ := retryLoop_noAddress (s := startOf env channel c _) ho
      exact ⟨r, hr, hend.callLeft hs⟩
  | noName hs hm ho hn =>
      obtain ⟨left, hleft⟩ : ∃ left, (c.maxRetry + 1).toNat = left + 1 := ⟨c.maxRetry.toNat, by omega⟩
      rw [callMethod_serialized hs, hleft]
      obtain ⟨r, hr, hend⟩ := retryLoop_noName (s := startOf env channel c _) ho hn
      exact ⟨r, hr, hend.callLeft hs⟩
  | settled hs ho hn ha =>
      obtain ⟨r, hr, hend⟩ := (retryLoop_ends hn (startOf_sending ho)).1 _ ha
      exact ⟨r, by rw [callMethod_serialized hs, hr], hend.callLeft hs⟩

theorem callMethod_ends {r : CallState A M} (h : callMethod env channel c = .ok r) :
    ∃ error runs, CallEnds env channel c error runs := by
  cases hs : env.serializedRequest with
  | none => exact ⟨_, _, .notSerialized hs⟩
  | some pbData =>
      rw [callMethod_serialized hs] at h
      by_cases hm : 0 ≤ c.maxRetry
      · by_cases ho : channel.originAddrs = []
        · exact ⟨_, _, .noAddress hs hm ho⟩
        · by_cases hn : env.methodFullName = []
          · exact ⟨_, _, .noName hs hm ho hn⟩
          · obtain ⟨a, ha⟩ := (retryLoop_ends hn (startOf_sending ho)).2 r h
            exact ⟨_, _, .settled hs ho hn ha⟩
      · rw [show (c.maxRetry + 1).toNat = 0 by omega, retryLoop, Except.bind, leaveLoop, finishCall] at h
        cases h

theorem CallEnds.unique {error error' : Option (Int × Bytes)} {runs runs' : Nat} (h : CallEnds env channel c error runs)
    (h' : CallEnds env channel c error' runs') : error = error' ∧ runs = runs' := by
  cases h with
  | notSerialized hs =>
      cases h' with
      | notSerialized => exact ⟨rfl, rfl⟩
      | noAddress hs' => cases hs.symm.trans hs'
      | noName hs' => cases hs.symm.trans hs'
      | settled hs' => cases hs.symm.trans hs'
  | noAddress hs hm ho =>
      cases h' with
      | notSerialized hs' => cases hs.symm.trans hs'
      | noAddress => exact ⟨rfl, rfl⟩
      | noName _ _ ho' => exact absurd ho ho'
      | settled _ ho' => exact absurd ho ho'
  | noName hs hm ho hn =>
      cases h' with
      | notSerialized hs' => cases hs.symm.trans hs'
      | noAddress _ _ ho' => exact absurd ho' ho
      | noName => exact ⟨rfl, rfl⟩
      | settled _ _ hn' => exact absurd hn hn'
  | settled hs ho hn ha =>
      cases h' with
      | notSerialized hs' => cases hs.symm.trans hs'
      | noAddress _ _ ho' => exact absurd ho' ho
      | noName _ _ _ hn' => exact absurd hn' hn
      | settled hs' _ _ ha' =>
          cases hs.symm.trans hs'
          rw [ha.unique ha']
          exact ⟨rfl, rfl⟩

end Tirpc
