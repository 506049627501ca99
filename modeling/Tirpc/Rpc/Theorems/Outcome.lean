import Tirpc.Rpc.Theorems.Replies

/-!
# What becomes of the error of a handler

`Dispatch` does not read the controller again once the handler has returned.
-/

namespace Tirpc

open Lib

variable {A M : Type} {gen : MsgNumber × MsgNumber} {services : ServiceMap A M} {d r : TinyPbStruct}
variable {c : RpcController A} {out : TcpBuffer}

/-- The controller that a handler is given. -/
def handlerController (A : Type) (msgSeq methodName fullName : Bytes) : RpcController A :=
  ((({} : RpcController A).setMsgSeq msgSeq).setMethodName methodName).setMethodFullName fullName

/-- The request parses, its handler leaves this controller, and the response serialises. -/
structure Handled (gen : MsgNumber × MsgNumber) (services : ServiceMap A M) (d : TinyPbStruct) (c : RpcController A) :
    Prop where
  run : ∃ methodName method request response pbData, Routed services d.serviceFullName methodName method ∧
    method.parseRequest d.pbData = some request ∧
    method.callMethod (handlerController A (if d.msgSeq = [] then gen.1.bytes else d.msgSeq) methodName
      d.serviceFullName) request = (c, response) ∧
    method.serializeResponse response = some pbData

/-- The code on the controller, and with a code the text. -/
structure Carries (r : TinyPbStruct) (c : RpcController A) : Prop where
  errCode : r.errCode = c.errorCode
  errInfo : c.errorCode ≠ 0 → r.errInfo = c.errorInfo

/-- `Dispatch` appends one frame to the out buffer, and the client decodes it to what the controller says. -/
def FrameCarries (gen : MsgNumber × MsgNumber) (services : ServiceMap A M) (d : TinyPbStruct) (out : TcpBuffer)
    (c : RpcController A) : Prop :=
  ∃ out' frame, dispatch gen services d out = some out' ∧ out'.Holds (out.content ++ frame) ∧
    ∀ client : TcpBuffer, client.Holds frame → ∃ client' r, (decode client {}).res = some (client', r) ∧
      r.decodeSucc = true ∧ Carries r c

theorem Handled.noError (h : Handled gen services d c) :
    (replyPackage gen.1 services d).errCode = 0 ∧ (replyPackage gen.1 services d).errInfo = [] := by
  obtain ⟨methodName, method, request, response, pbData, hroute, hparse, hcall, hser⟩ := h.run
  have hhandle : handle method (if d.msgSeq = [] then gen.1.bytes else d.msgSeq) methodName d.serviceFullName request =
      some pbData := by
    rw [handle, ← hser]
    exact congrArg (fun p => method.serializeResponse p.2) hcall
  rw [replyPackage_routed hroute hparse hhandle]
  exact ⟨rfl, rfl⟩

theorem carries_iff (h : Handled gen services d c) : Carries (replyPackage gen.1 services d) c ↔ c.errorCode = 0 := by
  refine ⟨fun hc => ?_, fun hz => ⟨?_, fun hne => absurd hz hne⟩⟩
  · rw [← hc.errCode, h.noError.1]
  · rw [h.noError.1, hz]

theorem ReplyTo.carries_iff (h : ReplyTo gen services d r) :
    Carries r c ↔ Carries (replyPackage gen.1 services d) c := by
  refine ⟨fun hc => ⟨?_, fun hne => ?_⟩, fun hc => ⟨?_, fun hne => ?_⟩⟩
  · rw [← h.errCode, hc.errCode]
  · rw [← h.errInfo, hc.errInfo hne]
  · rw [h.errCode, hc.errCode]
  · rw [h.errInfo, hc.errInfo hne]

theorem AnsweredOnce.frameCarries_iff (h : AnsweredOnce gen services d out) :
    FrameCarries gen services d out c ↔ Carries (replyPackage gen.1 services d) c := by
  obtain ⟨out', frame, hdisp, ho', hclient⟩ := h
  constructor
  · rintro ⟨out₁, frame₁, hdisp₁, ho₁, hcarries⟩
    rw [hdisp, Option.some.injEq] at hdisp₁
    subst hdisp₁
    have hframe : frame = frame₁ := List.append_cancel_left (ho'.content_eq.symm.trans ho₁.content_eq)
    subst hframe
    have hlen : (frame ++ []).length < 2147483648 := by
      have hlt := ho'.valid.content_lt
      rw [ho'.content_eq, List.length_append] at hlt
      rw [List.append_nil]
      omega
    obtain ⟨client', r, hdec, -, hr⟩ := hclient _ (TcpBuffer.holds_front hlen)
    obtain ⟨client₁, r₁, hdec₁, -, hc⟩ := hcarries _ (TcpBuffer.holds_front hlen)
    rw [hdec, Option.some.injEq, Prod.mk.injEq] at hdec₁
    exact hr.carries_iff.mp (hdec₁.2 ▸ hc)
  · intro hc
    refine ⟨out', frame, hdisp, ho', fun client hholds => ?_⟩
    obtain ⟨client', r, hdec, -, hr⟩ := hclient client hholds
    exact ⟨client', r, hdec, hr.decodeSucc, hr.carries_iff.mpr hc⟩

/-- For every handler and every request that it handles: what is encoded as the reply, and the frame of a request
that is answered, carry the error of the handler if and only if it has set no error code. -/
theorem reply_carries_iff (gen : MsgNumber × MsgNumber) (services : ServiceMap A M) (h : Handled gen services d c) :
    (Carries (replyPackage gen.1 services d) c ↔ c.errorCode = 0) ∧
    ∀ out, out.Valid → Accepted d → Answerable services d out →
      (FrameCarries gen services d out c ↔ c.errorCode = 0) := by
  refine ⟨carries_iff h, fun out ho hd hans => ?_⟩
  rw [((answeredOnce_iff ho hd).mpr hans).frameCarries_iff, carries_iff h]

/-! ## A handler that fails -/

/-- A service whose only method leaves this error on the controller. -/
def failing (errCode : Int) (errInfo : Bytes) : ServiceMap Unit Bytes := fun name =>
  if name = text "S" then
    some { findMethodByName := fun method =>
            if method = text "echo" then
              some { requestName := text "Bytes", parseRequest := some
                     callMethod := fun c m => (c.setError errCode errInfo, m)
                     serializeResponse := some, requestName_text := bytes_text }
            else none }
  else none

theorem failing_handled (errCode : Int) (errInfo : Bytes) :
    ∃ c, Handled noNumbers (failing errCode errInfo) echoRequest c ∧ c.errorCode = errCode ∧ c.errorInfo = errInfo := by
  refine ⟨_, ⟨⟨text "echo", _, _, _, _, ⟨text "S", _, ?_, rfl, rfl⟩, rfl, rfl, rfl⟩⟩, rfl, rfl⟩
  decide

theorem reply_carries_no_error :
    ∃ c, Handled noNumbers (failing 0 []) echoRequest c ∧
      Carries (replyPackage noNumbers.1 (failing 0 []) echoRequest) c := by
  obtain ⟨c, hc, hz, -⟩ := failing_handled 0 []
  exact ⟨c, hc, (reply_carries_iff noNumbers (failing 0 []) hc).1.mpr hz⟩

/-- The handler fails with a code and a text, and the caller is told that the call was good. -/
theorem reply_hides_error : ∃ c, Handled noNumbers (failing 42 (text "no")) echoRequest c ∧ c.errorCode = 42 ∧
    (replyPackage noNumbers.1 (failing 42 (text "no")) echoRequest).errCode = 0 ∧
    ¬Carries (replyPackage noNumbers.1 (failing 42 (text "no")) echoRequest) c := by
  obtain ⟨c, hc, hcode, -⟩ := failing_handled 42 (text "no")
  refine ⟨c, hc, hcode, hc.noError.1, fun h => ?_⟩
  have hz := (carries_iff hc).mp h
  rw [hcode] at hz
  cases hz

end Tirpc
