import Mathlib.Logic.Function.Basic
import Tirpc.Rpc.Codec
import Tirpc.Rpc.Controller

/-!
# Dispatching requests (`rpc_dispatcher.cpp`)

The protobuf library and the handlers are parameters: a service finds its methods by name, and a
method parses requests, handles them and serialises responses.
-/

namespace Tirpc

open Lib

/-- A method of a service, over addresses `A` and messages `M`. The name of a message type is a
dotted identifier. -/
structure Method (A M : Type) where
  requestName : Bytes
  parseRequest : Bytes → Option M
  callMethod : RpcController A → M → RpcController A × M
  serializeResponse : M → Option Bytes
  requestName_text : (0 : UInt8) ∉ requestName

structure Service (A M : Type) where
  findMethodByName : Bytes → Option (Method A M)

/-- The registered services by name. An entry without a service object counts as missing. -/
abbrev ServiceMap (A M : Type) := Bytes → Option (Service A M)

variable {A M : Type}

/-- The service name and the method name: what stands before and behind the first dot. -/
def parseServiceFullName (fullName : Bytes) : Option (Bytes × Bytes) :=
  if fullName = [] then none
  else
    let i := fullName.idxOf 46
    if i = fullName.length then none
    else some (fullName.take i, (fullName.drop (i + 1)).take (fullName.length - i - 1))

def handle (method : Method A M) (msgSeq methodName fullName : Bytes) (request : M) : Option Bytes :=
  let rpcController : RpcController A :=
    ((({} : RpcController A).setMsgSeq msgSeq).setMethodName methodName).setMethodFullName fullName
  method.serializeResponse (method.callMethod rpcController request).2

/-- The package that `Dispatch` fills in. Each of its exits hands it to the encoder. -/
def replyPackage (genMsgNumber : MsgNumber) (services : ServiceMap A M) (tmp : TinyPbStruct) :
    TinyPbStruct :=
  let replyPk : TinyPbStruct :=
    { serviceFullName := tmp.serviceFullName
      msgSeq := if tmp.msgSeq = [] then genMsgNumber.bytes else tmp.msgSeq }
  match parseServiceFullName tmp.serviceFullName with
  | none =>
      { replyPk with
        errCode := ERROR_PARSE_SERVICE_NAME
        errInfo := text "cannot parse service_name:[" ++ tmp.serviceFullName ++ text "]" }
  | some (serviceName, methodName) =>
      match services serviceName with
      | none =>
          { replyPk with
            errCode := ERROR_SERVICE_NOT_FOUND
            errInfo := text "not found service_name:[" ++ serviceName ++ text "]" }
      | some service =>
          match service.findMethodByName methodName with
          | none =>
              { replyPk with
                errCode := ERROR_METHOD_NOT_FOUND
                errInfo := text "not found method_name:[" ++ methodName ++ text "]" }
          | some method =>
              match method.parseRequest tmp.pbData with
              | none =>
                  { replyPk with
                    errCode := ERROR_FAILED_SERIALIZE
                    errInfo := text "faild to parse request data, request.name:[" ++ method.requestName
                      ++ text "]" }
              | some request =>
                  match handle method replyPk.msgSeq methodName tmp.serviceFullName request with
                  | none =>
                      { replyPk with
                        pbData := []
                        errCode := ERROR_FAILED_SERIALIZE
                        errInfo := text "failed to serilize relpy data" }
                  | some pbData => { replyPk with pbData := pbData }

/-- `Dispatch` with the two message numbers that are generated if they are asked for: the first for a
request without a number, the second by the encoder when the first is empty. -/
def dispatch (genMsgNumber : MsgNumber × MsgNumber) (services : ServiceMap A M) (tmp : TinyPbStruct)
    (out : TcpBuffer) : Option TcpBuffer :=
  (encode genMsgNumber.2.bytes out (replyPackage genMsgNumber.1 services tmp)).map Prod.fst

/-! ## Registering services -/

/-- A service with the full name of its descriptor, which finds its methods by their simple names. -/
structure NamedService (A M : Type) extends Service A M where
  fullName : Bytes
  simple : ∀ name, findMethodByName name ≠ none → (46 : UInt8) ∉ name

def NamedService.methodFullName (s : NamedService A M) (method : Bytes) : Bytes := s.fullName ++ text "." ++ method

def registerService (serviceMap : ServiceMap A M) (service : NamedService A M) : ServiceMap A M :=
  Function.update serviceMap service.fullName (some service.toService)

/-- The map after these services have been registered, one after another. -/
def registerAll (regs : List (NamedService A M)) : ServiceMap A M := regs.foldl registerService fun _ => none

/-! ## The names of a request -/

theorem parseServiceFullName_mem {fullName s m : Bytes} (h : parseServiceFullName fullName = some (s, m)) :
    (∀ c ∈ s, c ∈ fullName) ∧ ∀ c ∈ m, c ∈ fullName := by
  unfold parseServiceFullName at h
  dsimp only at h
  split at h
  · cases h
  · split at h
    · cases h
    · cases h
      exact ⟨fun c hc => List.mem_of_mem_take hc, fun c hc => List.mem_of_mem_drop (List.mem_of_mem_take hc)⟩

example : parseServiceFullName (text "Query.age.x") = some (text "Query", text "age.x") := by decide

end Tirpc
