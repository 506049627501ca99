import Tirpc.Rpc.Theorems.EndToEnd
import Tirpc.Rpc.Theorems.Outcome
import Tirpc.Rpc.Lemmas.Attempts

/-!
# A remote call is a local call

From `CallMethod` through the codec, the two ends of a connection, `Dispatch` and the handler, and back.
-/

namespace Tirpc

open Lib

variable {A M : Type} {s : RpcConnection A M} {d r : TinyPbStruct} {services : ServiceMap A M} {env : CallEnv A M}
  {channel : RpcChannel A} {c c' : RpcController A} {method : Method A M} {pbData msgSeq : Bytes}

/-! ## The server's side -/

/-- What is taken under a number is what the server makes of the request with that number. -/
theorem Answering.taken_reply (h : Answering s) (hnodup : (s.sent.map TinyPbStruct.msgSeq).Nodup) (hd : d ∈ s.sent)
    (hr : (d.msgSeq, r) ∈ s.store.taken) :
    ∃ q ∈ s.served, q.data = received {} d ∧ r = received {} (replyPackage q.gen.1 q.services (received {} d)) := by
  have hnumber : r.msgSeq = d.msgSeq := (h.kept.taken _ hr).1
  have hmem : r ∈ s.store.received := (h.kept.taken _ hr).2
  obtain ⟨done, rest, hsent, hdone, -⟩ := h.requests
  obtain ⟨done', rest', hserved, hdone', -⟩ := h.replies
  rw [hdone'] at hmem
  obtain ⟨reply, hreply, hrr⟩ := List.mem_map.mp hmem
  obtain ⟨q, hq, hqreply⟩ := List.mem_map.mp (hserved ▸ List.mem_append_left rest' hreply : reply ∈ s.served.map _)
  have hdata : q.data ∈ done.map (received {}) := hdone ▸ List.mem_map_of_mem hq
  obtain ⟨e, he, heq⟩ := List.mem_map.mp hdata
  have hreplyTo : ReplyTo q.gen q.services q.data (received {} q.reply) := replyTo_received (h.numbered q hq)
  have hsame : e.msgSeq = d.msgSeq := by
    have hnumber' : r.msgSeq = q.data.msgSeq := by rw [← hrr, ← hqreply, hreplyTo.msgSeq]
    rw [← hnumber, hnumber', ← heq]
    rfl
  have hes : e ∈ s.sent := hsent ▸ List.mem_append_left rest he
  obtain rfl : e = d := List.inj_on_of_nodup_map hnodup hes hd hsame
  exact ⟨q, hq, heq.symm, by rw [← hrr, ← hqreply, Request.reply, heq]⟩

/-- The server has these services whenever it takes a request. -/
def RpcStep.Serves (services : ServiceMap A M) : RpcStep A M → Prop
  | .serverExecute _ services' => services' = services
  | _ => True

theorem executeTurn_exit_snd {σ : Type} {handle : TinyPbStruct → σ → Option σ} {s s' : TcpBuffer × σ}
    (h : executeTurn tinyPbCodeC handle s = .exit (some s')) : s'.2 = s.2 := by
  simp only [executeTurn] at h
  split at h
  case isFalse =>
    cases h
    rfl
  case isTrue =>
    split at h
    case h_1 => cases h
    case h_2 =>
      split at h
      case isFalse =>
        cases h
        rfl
      case isTrue => split at h <;> cases h

theorem Link.execute_handled {σ : Type} {l l' : Link} {handle : TinyPbStruct → σ → Option σ} {t t' : σ}
    (h : l.execute handle t = some (l', t')) : t' = t ∨ ∃ d, handle d t = some t' := by
  unfold Link.execute at h
  split at h
  case h_2 => cases h
  case h_1 =>
    cases hturn : executeTurn tinyPbCodeC handle (l.buf, t) with
    | again p =>
        rw [hturn] at h
        cases h
        obtain ⟨-, d, -, -, hhandle⟩ := executeTurn_again hturn
        exact .inr ⟨d, hhandle⟩
    | exit p =>
        cases p with
        | none =>
            rw [hturn] at h
            cases h
        | some p =>
            rw [hturn] at h
            cases h
            exact .inl (executeTurn_exit_snd hturn)

theorem served_step {s s' : RpcConnection A M} {l : RpcStep A M} (h : ∀ q ∈ s.served, q.services = services)
    (hl : l.Serves services) (hn : s.next l = some s') : ∀ q ∈ s'.served, q.services = services := by
  cases l with
  | send gen request =>
      obtain ⟨r, -, rfl⟩ := Option.map_eq_some_iff.mp hn
      exact h
  | output replies env =>
      obtain ⟨link, -, rfl⟩ := Option.map_eq_some_iff.mp hn
      cases replies <;> exact h
  | input replies env =>
      obtain ⟨link, -, rfl⟩ := Option.map_eq_some_iff.mp hn
      cases replies <;> exact h
  | serverExecute gen services' =>
      obtain rfl : services' = services := hl
      obtain ⟨⟨link, t⟩, hexec, rfl⟩ := Option.map_eq_some_iff.mp hn
      rcases Link.execute_handled hexec with rfl | ⟨d, hserve⟩
      · exact h
      · obtain ⟨out, -, rfl⟩ := Option.map_eq_some_iff.mp hserve
        intro q hq
        rcases List.mem_append.mp hq with hq | hq
        · exact h q hq
        · rw [List.mem_singleton.mp hq]
  | clientExecute =>
      obtain ⟨r, -, rfl⟩ := Option.map_eq_some_iff.mp hn
      exact h
  | getResPackageData msgReq =>
      obtain rfl := Option.some.inj hn
      exact h

/-! ## The caller's side -/

theorem retryLoop_response {left k : Nat} {st r' : CallState A M} {response : M} (hname : env.methodFullName ≠ [])
    (hst : Sending env pbData msgSeq k st) (hsettle : Settles env pbData msgSeq left k (.received r))
    (hparse : env.parseResponse r.pbData = some response)
    (hr' : (retryLoop env left k st).bind (leaveLoop env) = .ok r') : r'.response = some response := by
  induction left generalizing k st with
  | zero => cases hsettle
  | succ left ih =>
      obtain ⟨-, hyes⟩ := retryLoop_attempt left hname hst
      generalize ha : SendAndRecv.received r = a at hsettle
      cases hsettle with
      | now hfit hnot =>
          obtain ⟨st', addr, -, -, hloop⟩ := hyes hfit
          rw [hloop, ← ha] at hr'
          simp only [Except.bind, leaveLoop, finishCall, hparse] at hr'
          cases hr'
          rfl
      | later hfit hretried hrest =>
          obtain ⟨st', addr, hst', -, hloop⟩ := hyes hfit
          rw [hloop] at hr'
          cases hsend : env.sendAndRecv k with
          | received res =>
              rw [hsend] at hretried
              exact absurd hretried id
          | failed ret errInfo hz =>
              rw [hsend] at hr' hretried
              have hcode : ret ≠ ERROR_RPC_CALL_TIMEOUT := hretried
              dsimp only at hr'
              rw [if_pos hcode] at hr'
              have hnext : Sending env pbData msgSeq (k + 1)
                  { st' with channel := st'.channel.erase env.toString addr } :=
                ⟨hst'.origin, hst'.resData, hst'.serviceFullName, hst'.pbData_eq, hst'.errInfo, hst'.msgSeq_eq⟩
              exact ih hnext (ha ▸ hrest) hr'

/-! ## Both -/

theorem Routed.named {fullName methodName : Bytes} (h : Routed services fullName methodName method) :
    fullName ≠ [] := by
  obtain ⟨serviceName, service, hparse, -⟩ := h.found
  rintro rfl
  cases hparse

/-- The method is registered, the request parses, and the handler returns this response. -/
structure LocalCall (services : ServiceMap A M) (fullName msgSeq pbData : Bytes) (response : M) (bytes : Bytes) :
    Prop where
  run : ∃ methodName method request c, Routed services fullName methodName method ∧
    method.parseRequest pbData = some request ∧
    method.callMethod (handlerController A msgSeq methodName fullName) request = (c, response) ∧
    method.serializeResponse response = some bytes

theorem LocalCall.reply {response : M} {bytes : Bytes}
    (h : LocalCall services d.serviceFullName d.msgSeq d.pbData response bytes) (hm : d.msgSeq ≠ []) (gen : MsgNumber) :
    (replyPackage gen services (received {} d)).pbData = bytes := by
  obtain ⟨methodName, method, request, c, hroute, hparse, hcall, hser⟩ := h.run
  have hhandle : handle method (if (received {} d).msgSeq = [] then gen.bytes else (received {} d).msgSeq) methodName
      (received {} d).serviceFullName request = some bytes := by
    rw [show (received {} d).msgSeq = d.msgSeq from rfl, if_neg hm, handle, ← hser]
    exact congrArg (fun p => method.serializeResponse p.2) hcall
  have hreply : replyPackage gen services (received {} d) = _ := replyPackage_routed hroute hparse hhandle
  rw [hreply]

/-- A call whose request has gone over a connection, and that settles on what has been taken under its number: the
response of the call is the one that the handler makes of the request, as in a call without a network, and the closure
has been run once, with no error set. The message types keep what they serialise. -/
theorem remote_call_local {response : M} {bytes : Bytes}
    (h : Reachable RpcConnection.next RpcStart (fun s l => s.Proper l ∧ l.Serves services) s)
    (hnodup : (s.sent.map TinyPbStruct.msgSeq).Nodup) (hd : d ∈ s.sent) (haddrs : channel.originAddrs ≠ [])
    (hrequest : env.serializedRequest = some d.pbData) (hname : env.methodFullName = d.serviceFullName)
    (hnumber : callMsgSeq env c = d.msgSeq) (hr : (d.msgSeq, r) ∈ s.store.taken)
    (hsettle : Settles env d.pbData d.msgSeq (c.maxRetry + 1).toNat 0 (.received r))
    (hlocal : LocalCall services d.serviceFullName d.msgSeq d.pbData response bytes)
    (hkeeps : env.parseResponse bytes = some response) :
    ∃ st, callMethod env channel c = .ok st ∧ st.response = some response ∧ CallLeft env c st none 1 := by
  have hanswering := reachable_answering (h.imp fun _ _ hok => hok.1)
  have hservices : ∀ q ∈ s.served, q.services = services := by
    refine h.invariant (fun s hs q hq => ?_) fun _ _ _ hI hok hn => served_step hI hok.2 hn
    rw [hs.2.2.2.2] at hq
    exact absurd hq List.not_mem_nil
  obtain ⟨q, hq, hdata, hrr⟩ := hanswering.taken_reply hnodup hd hr
  have hm : d.msgSeq ≠ [] := by
    have hne := hanswering.numbered q hq
    rw [hdata] at hne
    exact hne
  have hpb : r.pbData = bytes := by
    rw [hrr, ← hlocal.reply hm q.gen.1, hservices q hq]
    rfl
  have hparse : env.parseResponse r.pbData = some response := by rw [hpb, hkeeps]
  have hnamed : env.methodFullName ≠ [] := by
    obtain ⟨methodName, method, request, c', hroute, -⟩ := hlocal.run
    rw [hname]
    exact hroute.named
  rw [← hnumber] at hsettle
  have hends : CallEnds env channel c _ _ := .settled hrequest haddrs hnamed hsettle
  rw [show settlement env (.received r) = (none, 1) by rw [settlement, hparse]] at hends
  obtain ⟨st, hst, hleft⟩ := callMethod_left hends
  refine ⟨st, hst, ?_, hleft⟩
  rw [callMethod_serialized hrequest] at hst
  exact retryLoop_response hnamed (startOf_sending haddrs) hsettle hparse hst

/-- The call that gets the reply to the echo request. -/
def echoEnv (r : TinyPbStruct) : CallEnv Unit Bytes where
  toString _ := text "127.0.0.1"
  localAddr := ()
  methodFullName := text "S.echo"
  serializedRequest := some (text "hi")
  parseResponse := some
  runtimeMsgNo := none
  genMsgNumber _ := noNumbers.1
  select _ _ _ := ()
  sendAndRecv _ := .received r

theorem remote_call_local_echo :
    ∃ r st, callMethod (echoEnv r) (.new [()]) { msgReq := text "1" } = .ok st ∧ st.response = some (text "hi") := by
  have htaken : (runLabels RpcConnection.next echoStart (echoRun ++ [.getResPackageData (text "1")])).map
      (fun s => (s.sent, s.store.taken.map Prod.fst)) = some ([echoRequest], [text "1"]) := by decide +kernel
  obtain ⟨s, hrun, hs⟩ := Option.map_eq_some_iff.mp htaken
  obtain ⟨hsent, hfst⟩ := Prod.mk.inj hs
  obtain ⟨⟨k, r⟩, htaken, rfl⟩ := List.map_eq_singleton_iff.mp hfst
  have hr : (text "1", r) ∈ s.store.taken := htaken ▸ List.mem_singleton_self _
  have hok : RunOk RpcConnection.next Evident echoStart (echoRun ++ [.getResPackageData (text "1")]) := by
    decide +kernel
  have hserves : ∀ l ∈ echoRun ++ [.getResPackageData (text "1")], l.Serves echoServices := by
    simp [echoRun, RpcStep.Serves]
  have hreached : Reachable RpcConnection.next RpcStart (fun s l => s.Proper l ∧ l.Serves echoServices) s :=
    Reachable.of_runOk (.start echoStart_start) ((hok.imp fun _ _ => Evident.proper).and_labels hserves) hrun
  have hlocal : LocalCall echoServices (text "S.echo") (text "1") (text "hi") (text "hi") (text "hi") :=
    ⟨text "echo", _, _, _, ⟨text "S", _, by decide, rfl, rfl⟩, rfl, rfl, rfl⟩
  have hfit : PackageFits (echoEnv r) (text "hi") (text "1") 0 := by
    show 3 * (26 + ((2 : Nat) : Int) + (6 : Nat) + (1 : Nat)) < 4294967296
    decide
  have hsettle : Settles (echoEnv r) (text "hi") (text "1") 4 0 (.received r) := .now hfit id
  have haddrs : (RpcChannel.new [()]).originAddrs ≠ [] := List.cons_ne_nil _ _
  obtain ⟨st, hst, hresponse, -⟩ := remote_call_local (d := echoRequest) (c := { msgReq := text "1" }) hreached
    (hsent ▸ List.nodup_singleton _) (hsent ▸ List.mem_singleton_self _) haddrs rfl rfl rfl hr hsettle hlocal rfl
  exact ⟨r, st, hst, hresponse⟩

end Tirpc
