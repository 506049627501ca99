import Tirpc.Rpc.Theorems.Replies
import Tirpc.Rpc.Theorems.Segmentation
import Tirpc.Tcp.Theorems.Output
import Tirpc.Tcp.Theorems.Reception

/-!
# A client and a server (`tcp_connection.cpp`, `rpc_dispatcher.cpp`)

The two ends of a connection: requests go through the write buffer of the client, the network and the read buffer of
the server, and replies come back the same way. A step is a turn of `Output`, of `Input` or of `Execute` at one end, a
request that is encoded, or a reply that is asked for.
-/

namespace Tirpc

open Lib

/-- Where the reading side of a link is. -/
inductive LinkPlace where
  /-- Behind `Execute`. -/
  | idle
  /-- In `Input`, which will read once more. -/
  | reading
  | executing
  deriving DecidableEq, Repr

/-- One direction: the write buffer of the one end, the bytes on their way, and the read buffer of the other. -/
structure Link where
  out : TcpBuffer
  wire : Bytes := []
  buf : TcpBuffer
  place : LinkPlace := .idle
  deriving DecidableEq, Repr

namespace Link

/-- A turn of `Output`. -/
def output (l : Link) (env : OutputEnv) : Option Link :=
  (outputAfter (outputTurn env { buf := l.out })).map fun s => { l with out := s.buf, wire := l.wire ++ s.sent }

/-- A turn of `Input`, which receives bytes from the front of the wire. -/
def input (l : Link) (env : InputEnv) : Option Link :=
  let s : InputState := { buf := l.buf, calls := 0 }
  let received := turnReceived env s
  if l.place ≠ .executing ∧ received <+: l.wire then
    let wire := l.wire.drop received.length
    match inputTurn env s with
    | .again s => some { l with buf := s.buf, wire := wire, place := .reading }
    | .exit (some (.readAll buf)) => some { l with buf := buf, wire := wire, place := .executing }
    | .exit (some (.overTime buf)) => some { l with buf := buf, wire := wire, place := .executing }
    | _ => none
  else none

/-- A turn of `Execute`. -/
def execute {σ : Type} (l : Link) (handle : TinyPbStruct → σ → Option σ) (t : σ) : Option (Link × σ) :=
  match l.place with
  | .executing =>
      match executeTurn tinyPbCodeC handle (l.buf, t) with
      | .again (buf, t) => some ({ l with buf := buf }, t)
      | .exit (some (buf, t)) => some ({ l with buf := buf, place := .idle }, t)
      | .exit none => none
  | _ => none

/-- Nothing is on its way, and the reading side is through with what it has. -/
def Quiet (l : Link) : Prop := l.out.content = [] ∧ l.wire = [] ∧ l.place = .idle

end Link

/-- The replies that a client has and those that it has been asked for. `received` are all replies, in the order in
which they came. -/
structure ReplyStore where
  replyDatas : Bytes → Option TinyPbStruct := fun _ => none
  received : List TinyPbStruct := []
  taken : List (Bytes × TinyPbStruct) := []

namespace ReplyStore

/-- `reply_datas_.insert`: a reply with the same number stays. -/
def insert (s : ReplyStore) (tmp : TinyPbStruct) : ReplyStore :=
  { s with
    replyDatas :=
      if s.replyDatas tmp.msgSeq = none then Function.update s.replyDatas tmp.msgSeq (some tmp) else s.replyDatas
    received := s.received ++ [tmp] }

def getResPackageData (s : ReplyStore) (msgReq : Bytes) : Option TinyPbStruct × ReplyStore :=
  match s.replyDatas msgReq with
  | none => (none, s)
  | some pbStruct =>
      (some pbStruct, { s with
        replyDatas := Function.update s.replyDatas msgReq none
        taken := s.taken ++ [(msgReq, pbStruct)] })

end ReplyStore

/-- `sent` and `served` are the requests that have been encoded, and that have been dispatched. -/
structure RpcConnection (A M : Type) where
  requests : Link
  replies : Link
  store : ReplyStore := {}
  sent : List TinyPbStruct := []
  served : List (Request A M) := []

inductive RpcStep (A M : Type) where
  /-- The client encodes a request. -/
  | send (genMsgNumber : Bytes) (request : TinyPbStruct)
  | output (replies : Bool) (env : OutputEnv)
  | input (replies : Bool) (env : InputEnv)
  /-- A turn of `Execute` at the server, which may dispatch a request. -/
  | serverExecute (gen : MsgNumber × MsgNumber) (services : ServiceMap A M)
  | clientExecute
  | getResPackageData (msgReq : Bytes)

namespace RpcConnection

variable {A M : Type}

def setLink (s : RpcConnection A M) (replies : Bool) (l : Link) : RpcConnection A M :=
  if replies then { s with replies := l } else { s with requests := l }

def link (s : RpcConnection A M) (replies : Bool) : Link := if replies then s.replies else s.requests

def next (s : RpcConnection A M) : RpcStep A M → Option (RpcConnection A M)
  | .send gen request =>
      (encode gen s.requests.out request).map fun r =>
        { s with requests := { s.requests with out := r.1 }, sent := s.sent ++ [request] }
  | .output replies env => ((s.link replies).output env).map (s.setLink replies)
  | .input replies env => ((s.link replies).input env).map (s.setLink replies)
  | .serverExecute gen services =>
      (s.requests.execute (fun d t => serveNext t ⟨gen, services, d⟩)
        { out := s.replies.out, requests := s.served }).map fun r =>
          { s with requests := r.1, replies := { s.replies with out := r.2.out }, served := r.2.requests }
  | .clientExecute =>
      (s.replies.execute (fun d t => some (ReplyStore.insert t d)) s.store).map fun r =>
        { s with replies := r.1, store := r.2 }
  | .getResPackageData msgReq => some { s with store := (s.store.getResPackageData msgReq).2 }

/-- What is sent can be encoded and read back and has room, no call of `send_hook` fails, a part of a package does not
look like a package, and the server can answer what it reads. -/
def Proper (s : RpcConnection A M) : RpcStep A M → Prop
  | .send _ request => Sendable request ∧ s.requests.out.Room (packageLen request)
  | .output replies env =>
      env.state 0 = .connected → 0 ≤ sendHook env 0 (s.link replies).out.readable
  | .serverExecute _ services =>
      0 < s.requests.buf.readable → Settled s.requests.buf ∧
        ∀ b d, (decode s.requests.buf {}).res = some (b, d) → d.decodeSucc = true → Answerable services d s.replies.out
  | .clientExecute => 0 < s.replies.buf.readable → Settled s.replies.buf
  | _ => True

end RpcConnection

def Link.Start (l : Link) : Prop := l.out.Holds [] ∧ l.wire = [] ∧ l.buf.Holds [] ∧ l.place = .idle

def RpcStart {A M : Type} (s : RpcConnection A M) : Prop :=
  s.requests.Start ∧ s.replies.Start ∧ s.store = {} ∧ s.sent = [] ∧ s.served = []

end Tirpc
