import Tirpc.Lib.Bytes

/-!
# TinyPB data and error codes (`rpc_data.hpp`, `error_code.hpp`)
-/

namespace Tirpc

open Lib

structure TinyPbStruct where
  decodeSucc : Bool := false
  encodeSucc : Bool := false
  pkLen : Int := 0
  msgReqLen : Int := 0
  msgSeq : Bytes := []
  serviceNameLen : Int := 0
  serviceFullName : Bytes := []
  errCode : Int := 0
  errInfoLen : Int := 0
  errInfo : Bytes := []
  pbData : Bytes := []
  checkNum : Int := -1
  deriving DecidableEq, Repr

/-! ## Error codes: `SYS_ERROR_PREFIX` pastes its argument behind `1000`. -/

def ERROR_PEER_CLOSED : Int := 10000000
def ERROR_FAILED_CONNECT : Int := 10000001
def ERROR_FAILED_DESERIALIZE : Int := 10000003
def ERROR_FAILED_SERIALIZE : Int := 10000004
def ERROR_FAILED_ENCODE : Int := 10000005
def ERROR_RPC_CALL_TIMEOUT : Int := 10000007
def ERROR_SERVICE_NOT_FOUND : Int := 10000008
def ERROR_METHOD_NOT_FOUND : Int := 10000009
def ERROR_PARSE_SERVICE_NAME : Int := 10000010
def ERROR_NOT_SET_ASYNC_PRE_CALL : Int := 10000011
def ERROR_CONNECT_SYS_ERR : Int := 10000012

end Tirpc
