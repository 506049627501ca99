import Tirpc.Lib.Traced
import Tirpc.Rpc.Data
import Tirpc.Tcp.Buffer

/-!
# The TinyPB codec (`rpc_codec.cpp`)

`Decode` works on a copy of the whole vector of the buffer, so the bytes behind the write index and
those in front of the read index are there for it to read. Every access to the copy is recorded.
-/

namespace Tirpc

open Lib

def PB_START : UInt8 := 2
def PB_END : UInt8 := 3

/-! ## Encoding -/

/-- The parts of a package, in the order in which they are written behind each other. -/
def packageBytes (data : TinyPbStruct) (pkLen : Int) : Bytes :=
  [PB_START] ++ netBytes32 pkLen ++ netBytes32 data.msgSeq.length ++ data.msgSeq
    ++ netBytes32 data.serviceFullName.length ++ data.serviceFullName ++ netBytes32 data.errCode
    ++ netBytes32 data.errInfo.length ++ data.errInfo ++ data.pbData ++ netBytes32 1 ++ [PB_END]

/-- The stores of `EncodePbData` into its block: `tmp` starts at the front and is moved behind each part. -/
def encodeStores (data : TinyPbStruct) (pkLen : Int) : List (Int × Bytes) :=
  storesFrom 0
    [[PB_START], netBytes32 pkLen, netBytes32 data.msgSeq.length, data.msgSeq,
      netBytes32 data.serviceFullName.length, data.serviceFullName, netBytes32 data.errCode,
      netBytes32 data.errInfo.length, data.errInfo, data.pbData, netBytes32 1, [PB_END]]

/-- `EncodePbData`: the package (none is built for an empty service name) and the updated data.
`genMsgNumber` is the number that `MsgReqUtil::GenMsgNumber` yields if it is called. A package whose
length is no `int32_t` is written past the end of the block that was allocated for it. -/
def encodePbData (genMsgNumber : Bytes) (data : TinyPbStruct) : Option (Option Bytes × TinyPbStruct) :=
  if data.serviceFullName = [] then some (none, { data with encodeSucc := false })
  else
    let data :=
      if data.msgSeq = [] then
        { data with msgSeq := genMsgNumber, msgReqLen := genMsgNumber.length }
      else data
    let total : Int := 26 + data.pbData.length + data.serviceFullName.length + data.msgSeq.length
      + data.errInfo.length
    let pkLen := wrap32 total
    if pkLen = total then
      some (some (packageBytes data pkLen),
        { data with
          pkLen := pkLen
          msgReqLen := data.msgSeq.length
          serviceNameLen := data.serviceFullName.length
          errInfoLen := data.errInfo.length
          checkNum := 1
          encodeSucc := true })
    else none

/-- `Encode` appends the package to the buffer, or marks the data as not encoded. -/
def encode (genMsgNumber : Bytes) (buf : TcpBuffer) (data : TinyPbStruct) :
    Option (TcpBuffer × TinyPbStruct) :=
  (encodePbData genMsgNumber data).bind fun r =>
    match r.1 with
    | none => some (buf, { r.2 with encodeSucc := false })
    | some re =>
        if re.length = 0 ∨ ¬r.2.encodeSucc then some (buf, { r.2 with encodeSucc := false })
        else (buf.writeToBuffer re).map fun buf' => (buf', r.2)

/-! ## Decoding -/

/-- An access of `Decode` to the copy `tmp` of the vector. -/
inductive Access where
  /-- `tmp[pos]` -/
  | load (pos : Int)
  /-- the four bytes of `GetInt32FromNetByte(&tmp[pos])` -/
  | loadWord (pos : Int)
  /-- `memcpy` of `len` bytes from `&tmp[pos]` to a local array of `cap` bytes -/
  | copyField (cap : Nat) (pos len : Int)
  /-- `std::string(&tmp[pos], len)` -/
  | buildString (pos len : Int)
  deriving DecidableEq, Repr

namespace Access

def pos : Access → Int
  | load p | loadWord p | copyField _ p _ | buildString p _ => p

def len : Access → Int
  | load _ => 1
  | loadWord _ => 4
  | copyField _ _ n | buildString _ n => n

end Access

def byteAt (tmp : Bytes) (pos : Int) : Option UInt8 := (readRange tmp pos 1).bind List.head?

def wordAt (tmp : Bytes) (pos : Int) : Option Int := (readRange tmp pos 4).map beInt32

def loadByte (tmp : Bytes) (pos : Int) : Traced Access UInt8 := .access (.load pos) (byteAt tmp pos)

def getInt32FromNetByte (tmp : Bytes) (pos : Int) : Traced Access Int :=
  .access (.loadWord pos) (wordAt tmp pos)

/-- A field goes through a zeroed local array of `cap` bytes and is cut at the first NUL. -/
def copyField (cap : Nat) (tmp : Bytes) (pos len : Int) : Traced Access Bytes :=
  .access (.copyField cap pos len)
    (if len ≤ cap then
      (readRange tmp pos len).bind fun s => cString (s ++ List.replicate (cap - s.length) 0)
    else none)

def buildString (tmp : Bytes) (pos len : Int) : Traced Access Bytes :=
  .access (.buildString pos len) (readRange tmp pos len)

/-- The frame that the scan has found: positions of its start and end bytes, and the length that
stands behind the start byte. -/
structure Frame where
  start : Int
  stop : Int
  pkLen : Int
  deriving DecidableEq, Repr

/-- The scan for a package: `n` positions are left, the next one is `i`. -/
def findFrame (tmp : Bytes) (writeIndex : Int) : Nat → Int → Traced Access (Option Frame)
  | 0, _ => pure none
  | n + 1, i => do
      let c ← loadByte tmp i
      if c = PB_START ∧ i + 1 < writeIndex then
        let pkLen ← getInt32FromNetByte tmp (i + 1)
        let j := wrap32 (i + pkLen - 1)
        if j ≥ writeIndex then findFrame tmp writeIndex n (i + 1)
        else
          let c ← loadByte tmp j
          if c = PB_END then return some { start := i, stop := j, pkLen := pkLen }
          else findFrame tmp writeIndex n (i + 1)
      else findFrame tmp writeIndex n (i + 1)

/-! The fields of a package, one after the other. Each early return drops the package. -/

def parsePbData (tmp : Bytes) (f : Frame) (data : TinyPbStruct) (pbDataIndex : Int) :
    Traced Access TinyPbStruct := do
  let pbDataLen := wrap32 (data.pkLen - data.serviceNameLen - data.msgReqLen - data.errInfoLen - 26)
  if pbDataIndex ≥ f.stop then return data
  let pbData ← buildString tmp pbDataIndex pbDataLen
  return { data with pbData := pbData, decodeSucc := true }

def parseErrInfo (tmp : Bytes) (f : Frame) (data : TinyPbStruct) (errInfoLenIndex : Int) :
    Traced Access TinyPbStruct := do
  if errInfoLenIndex ≥ f.stop then return data
  let errInfoLen ← getInt32FromNetByte tmp errInfoLenIndex
  let errInfoIndex := wrap32 (errInfoLenIndex + 4)
  let errInfo ← copyField 512 tmp errInfoIndex errInfoLen
  parsePbData tmp f { data with errInfoLen := errInfoLen, errInfo := errInfo }
    (wrap32 (errInfoIndex + errInfoLen))

def parseServiceName (tmp : Bytes) (f : Frame) (data : TinyPbStruct) (serviceNameLenIndex : Int) :
    Traced Access TinyPbStruct := do
  if serviceNameLenIndex ≥ f.stop then return data
  let serviceNameIndex := wrap32 (serviceNameLenIndex + 4)
  if serviceNameIndex ≥ f.stop then return data
  let serviceNameLen ← getInt32FromNetByte tmp serviceNameLenIndex
  if serviceNameLen > f.pkLen then return { data with serviceNameLen := serviceNameLen }
  let serviceFullName ← copyField 512 tmp serviceNameIndex serviceNameLen
  let errCodeIndex := wrap32 (serviceNameIndex + serviceNameLen)
  let errCode ← getInt32FromNetByte tmp errCodeIndex
  let data :=
    { data with
      serviceNameLen := serviceNameLen
      serviceFullName := serviceFullName
      errCode := errCode }
  parseErrInfo tmp f data (wrap32 (errCodeIndex + 4))

def parseFrame (tmp : Bytes) (f : Frame) (data : TinyPbStruct) : Traced Access TinyPbStruct := do
  let data := { data with pkLen := f.pkLen, decodeSucc := false }
  let msgReqLenIndex := wrap32 (f.start + 5)
  if msgReqLenIndex ≥ f.stop then return data
  let msgReqLen ← getInt32FromNetByte tmp msgReqLenIndex
  if msgReqLen = 0 then return { data with msgReqLen := msgReqLen }
  let msgReqIndex := wrap32 (msgReqLenIndex + 4)
  let msgSeq ← copyField 50 tmp msgReqIndex msgReqLen
  parseServiceName tmp f { data with msgReqLen := msgReqLen, msgSeq := msgSeq }
    (wrap32 (msgReqIndex + msgReqLen))

def decode (buf : TcpBuffer) (data : TinyPbStruct) : Traced Access (TcpBuffer × TinyPbStruct) := do
  let tmp := buf.buffer
  let found ← findFrame tmp buf.writeIndex (buf.writeIndex - buf.readIndex).toNat buf.readIndex
  match found with
  | none => return (buf, data)
  | some f =>
      let buf' ← Traced.lift (buf.recycleRead (wrap32 (f.stop + 1 - f.start)))
      let data ← parseFrame tmp f data
      return (buf', data)

end Tirpc
