import Tirpc.Rpc.Dispatcher
import Tirpc.Rpc.Lemmas.RoundTrip

/-!
# What a request is answered with
-/

namespace Tirpc

open Lib

variable {A M : Type}

/-- The lengths of the error text and of the payload with which a request is answered. -/
def answerLengths (services : ServiceMap A M) (tmp : TinyPbStruct) : Nat × Nat :=
  match parseServiceFullName tmp.serviceFullName with
  | none => (28 + tmp.serviceFullName.length, 0)
  | some (serviceName, methodName) =>
      match services serviceName with
      | none => (25 + serviceName.length, 0)
      | some service =>
          match service.findMethodByName methodName with
          | none => (24 + methodName.length, 0)
          | some method =>
              match method.parseRequest tmp.pbData with
              | none => (44 + method.requestName.length, 0)
              | some request =>
                  match handle method tmp.msgSeq methodName tmp.serviceFullName request with
                  | none => (29, 0)
                  | some pbData => (0, pbData.length)

variable {gen : MsgNumber} {services : ServiceMap A M} {tmp : TinyPbStruct}

structure AnswerTo (gen : MsgNumber) (services : ServiceMap A M) (tmp reply : TinyPbStruct) : Prop where
  serviceFullName : reply.serviceFullName = tmp.serviceFullName
  msgSeq : reply.msgSeq = if tmp.msgSeq = [] then gen.bytes else tmp.msgSeq
  errCode : IsInt32 reply.errCode
  errInfo_text : (0 : UInt8) ∉ tmp.serviceFullName → (0 : UInt8) ∉ reply.errInfo
  lengths : tmp.msgSeq ≠ [] → (reply.errInfo.length, reply.pbData.length) = answerLengths services tmp

theorem zero_notMem_quoted {s t : String} {name : Bytes} (hs : (0 : UInt8) ∉ text s)
    (ht : (0 : UInt8) ∉ text t) (hn : (0 : UInt8) ∉ name) : (0 : UInt8) ∉ text s ++ name ++ text t := by
  simp only [List.mem_append, not_or]
  exact ⟨⟨hs, hn⟩, ht⟩

theorem length_quoted (s t : String) (name : Bytes) :
    (text s ++ name ++ text t).length = (text s).length + (text t).length + name.length := by
  simp only [List.length_append]
  omega

theorem replyPackage_answerTo : AnswerTo gen services tmp (replyPackage gen services tmp) := by
  unfold replyPackage
  dsimp only
  split
  · rename_i hp
    refine ⟨rfl, rfl, (show IsInt32 ERROR_PARSE_SERVICE_NAME by decide),
      fun h0 => zero_notMem_quoted (by decide) (by decide) h0, fun _ => ?_⟩
    rw [answerLengths, hp, length_quoted]
    rfl
  · rename_i serviceName methodName hp
    obtain ⟨hserv, hmeth⟩ := parseServiceFullName_mem hp
    split
    · rename_i hs
      refine ⟨rfl, rfl, (show IsInt32 ERROR_SERVICE_NOT_FOUND by decide), fun h0 => ?_, fun _ => ?_⟩
      · exact zero_notMem_quoted (by decide) (by decide) fun h => h0 (hserv 0 h)
      · simp only [answerLengths, hp, hs, length_quoted]
        rfl
    · rename_i service hs
      split
      · rename_i hm
        refine ⟨rfl, rfl, (show IsInt32 ERROR_METHOD_NOT_FOUND by decide), fun h0 => ?_, fun _ => ?_⟩
        · exact zero_notMem_quoted (by decide) (by decide) fun h => h0 (hmeth 0 h)
        · simp only [answerLengths, hp, hs, hm, length_quoted]
          rfl
      · rename_i method hm
        split
        · rename_i hr
          refine ⟨rfl, rfl, (show IsInt32 ERROR_FAILED_SERIALIZE by decide), fun _ => ?_, fun _ => ?_⟩
          · exact zero_notMem_quoted (by decide) (by decide) method.requestName_text
          · simp only [answerLengths, hp, hs, hm, hr, length_quoted]
            rfl
        · rename_i request hr
          split
          · rename_i hh
            refine ⟨rfl, rfl, (show IsInt32 ERROR_FAILED_SERIALIZE by decide), fun _ => ?_, fun hne => ?_⟩
            · exact (show (0 : UInt8) ∉ text "failed to serilize relpy data" by decide)
            · rw [if_neg hne] at hh
              simp only [answerLengths, hp, hs, hm, hr, hh]
              rfl
          · rename_i pbData hh
            refine ⟨rfl, rfl, (show IsInt32 0 by decide), fun _ => List.not_mem_nil, fun hne => ?_⟩
            rw [if_neg hne] at hh
            simp only [answerLengths, hp, hs, hm, hr, hh]
            rfl

/-! ## The method that a request is for -/

/-- `Dispatch` finds this method for the full name, and the method goes by this name. -/
structure Routed (services : ServiceMap A M) (fullName methodName : Bytes) (method : Method A M) : Prop where
  found : ∃ serviceName service, parseServiceFullName fullName = some (serviceName, methodName) ∧
    services serviceName = some service ∧ service.findMethodByName methodName = some method

theorem replyPackage_routed {methodName pbData : Bytes} {method : Method A M} {request : M}
    (h : Routed services tmp.serviceFullName methodName method) (hr : method.parseRequest tmp.pbData = some request)
    (hh : handle method (if tmp.msgSeq = [] then gen.bytes else tmp.msgSeq) methodName tmp.serviceFullName request =
      some pbData) :
    replyPackage gen services tmp =
      { serviceFullName := tmp.serviceFullName
        msgSeq := if tmp.msgSeq = [] then gen.bytes else tmp.msgSeq
        pbData := pbData } := by
  obtain ⟨serviceName, service, hp, hs, hm⟩ := h.found
  simp only [replyPackage, hp, hs, hm, hr, hh]

theorem bytes_text : (0 : UInt8) ∉ text "Bytes" := by decide

end Tirpc
