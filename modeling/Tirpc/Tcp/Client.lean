import Tirpc.Base.Timer
import Tirpc.Lib.Text
import Tirpc.Rpc.Data
import Tirpc.Tcp.Input

/-!
# A call of the client (`tcp_client.cpp`)

`SendAndRecvTinyPb` as steps between its calls of other functions: what these return is chosen by the labels,
and the timer of the reactor may take its own steps in between, at any moment.
-/

namespace Tirpc

open Lib

def ECONNREFUSED : Int := 111

def EAFNOSUPPORT : Int := 97

/-- The place that a call has reached. -/
inductive CallPlace where
  /-- At the head of the loop that connects. -/
  | connectLoop
  | connecting
  /-- Behind that loop. -/
  | connectEnded
  | sending
  | sent
  /-- At the head of the loop that waits for the reply. -/
  | replyLoop
  | receiving
  | received
  deriving DecidableEq, Repr

structure ClientCall (E : Type) where
  event : E
  isTimeout : Bool := false
  place : CallPlace := .connectLoop

/-- The client, its connection (whose descriptor is fixed when it is built), and the timer of its reactor.
`returned` are the calls that have returned: their timer events and their results. -/
structure TcpClient (E : Type) where
  peerAddr : Bytes
  maxTimeout : Int
  fd : Int
  connFd : Int
  state : TcpConnectionState := .notConnected
  isOverTime : Bool := false
  errInfo : Bytes := []
  timer : TimerState E
  call : Option (ClientCall E) := none
  returned : List (E × Int) := []

/-- The errors are those of `errno` when the function reads it, `strerror` gives their texts, and `newFd` is
what `socket` returns. -/
inductive ClientStep (E : Type) where
  | call (event : E) (now : Int)
  | connectLoop
  | connectReturns (rt errno newFd : Int)
  | connectEnded (errno : Int)
  | outputReturns
  | sent (newFd : Int)
  | replyLoop (found : Bool)
  | inputReturns (result : InputExit)
  | received (newFd : Int)
  | timer (step : TimerStep E)

namespace TcpClient

variable {E : Type}

def goto (s : TcpClient E) (call : ClientCall E) (place : CallPlace) : TcpClient E :=
  { s with call := some { call with place := place } }

def leave (s : TcpClient E) (call : ClientCall E) (code : Int) : TcpClient E :=
  { s with call := none, returned := s.returned ++ [(call.event, code)] }

/-- The label `err_deal`. -/
def errDeal (s : TcpClient E) (call : ClientCall E) (isTimeout : Bool) (newFd : Int) : TcpClient E :=
  let s := { s with fd := newFd }
  if isTimeout then
    { s with
      errInfo := text "call rpc falied, over " ++ decimal s.maxTimeout ++ text " ms"
      isOverTime := false }.leave call ERROR_RPC_CALL_TIMEOUT
  else
    { s with errInfo := text "call rpc falied, peer closed [" ++ s.peerAddr ++ text "]" }.leave call ERROR_PEER_CLOSED

variable [DecidableEq E]

def addTimerEvent (s : TcpClient E) (event : E) (now : Int) : TcpClient E :=
  let timer := s.timer.timer.update event fun _ => { arriveTime := now + s.maxTimeout, interval := s.maxTimeout }
  { s with timer := { timer := timer.addTimerEvent event true now, now := now } }

def delTimerEvent (s : TcpClient E) (event : E) : TcpClient E :=
  { s with timer := { s.timer with timer := s.timer.timer.delTimerEvent event } }

/-- The callback of a call: it sets the flag on the stack of that call, and the flag of the connection. -/
def timerCb (s : TcpClient E) (event : E) : TcpClient E :=
  match s.call with
  | some call =>
      if call.event = event then { s with isOverTime := true, call := some { call with isTimeout := true } }
      else if event ∈ s.returned.map Prod.fst then { s with isOverTime := true }
      else s
  | none => if event ∈ s.returned.map Prod.fst then { s with isOverTime := true } else s

/-- Whose event it is: that of a call of this client, or of another user of the timer. -/
def Owns (s : TcpClient E) (event : E) : Prop :=
  (∃ call ∈ s.call, call.event = event) ∨ event ∈ s.returned.map Prod.fst

instance (s : TcpClient E) (event : E) : Decidable (s.Owns event) :=
  inferInstanceAs (Decidable ((∃ call ∈ s.call, call.event = event) ∨ event ∈ s.returned.map Prod.fst))

/-- The events of the calls are known to no one else. A new event is none that exists. -/
def timerStep (s : TcpClient E) (l : TimerStep E) : Option (TcpClient E) :=
  let next := (timerNext s.timer l).map fun timer => { s with timer := timer }
  match l with
  | .add event _ => if s.Owns event then none else next
  | .del event => if s.Owns event then none else next
  | .startTask =>
      match s.timer.timer.tasks with
      | [] => none
      | event :: _ => next.map fun s => s.timerCb event
  | _ => next

def Fresh (s : TcpClient E) (event : E) : Prop :=
  event ∉ s.timer.timer.pendingEvents.map Prod.snd ∧ event ∉ s.timer.timer.tasks ∧ event ∉ s.returned.map Prod.fst

instance (s : TcpClient E) (event : E) : Decidable (s.Fresh event) := inferInstanceAs (Decidable (_ ∧ _ ∧ _))

/-- A step of the call that is at `call.place`. -/
def callStep (strerror : Int → Bytes) (s : TcpClient E) (call : ClientCall E) : ClientStep E → Option (TcpClient E)
  | .connectLoop =>
      if call.place = .connectLoop then
        if call.isTimeout then some (s.goto call .connectEnded)
        else if s.state ≠ .connected then some (s.goto call .connecting)
        else some (s.goto call .connectEnded)
      else none
  | .connectReturns rt errno newFd =>
      if call.place = .connecting then
        if rt = 0 then some ({ s with state := .connected }.goto call .connectEnded)
        else
          let s := { s with fd := newFd }
          if errno = ECONNREFUSED then
            some ({ s with errInfo := text "connect error, peer[ " ++ s.peerAddr ++ text " ] closed." }.delTimerEvent
              call.event |>.leave call ERROR_PEER_CLOSED)
          else if errno = EAFNOSUPPORT then
            some ({ s with
              errInfo := text "connect cur sys ror, errinfo is " ++ strerror errno ++ text " ] closed." }.delTimerEvent
                call.event |>.leave call ERROR_CONNECT_SYS_ERR)
          else some (s.goto call .connectLoop)
      else none
  | .connectEnded errno =>
      if call.place = .connectEnded then
        if s.state ≠ .connected then
          some ({ s with
            errInfo := text "connect peer addr[" ++ s.peerAddr ++ text "] error. sys error=" ++ strerror errno
            }.delTimerEvent call.event |>.leave call ERROR_FAILED_CONNECT)
        else some ({ s with state := .connected }.goto call .sending)
      else none
  | .outputReturns => if call.place = .sending then some (s.goto call .sent) else none
  | .sent newFd =>
      if call.place = .sent then
        if s.isOverTime then some (s.errDeal call true newFd) else some (s.goto call .replyLoop)
      else none
  | .replyLoop found =>
      if call.place = .replyLoop then
        if found then some ({ s.delTimerEvent call.event with errInfo := [] }.leave call 0)
        else some (s.goto call .receiving)
      else none
  | .inputReturns result =>
      if call.place = .receiving then
        match result with
        | .closed _ => some ({ s with state := .closed }.goto call .received)
        | _ => some (s.goto call .received)
      else none
  | .received newFd =>
      if call.place = .received then
        if s.isOverTime then some (s.errDeal call true newFd)
        else if s.state = .closed then some (s.errDeal call call.isTimeout newFd)
        else some (s.goto call .replyLoop)
      else none
  | _ => none

end TcpClient

/-- A client serves one call at a time. -/
def clientNext {E : Type} [DecidableEq E] (strerror : Int → Bytes) (s : TcpClient E) (l : ClientStep E) :
    Option (TcpClient E) :=
  match l, s.call with
  | .timer step, _ => s.timerStep step
  | .call event now, none =>
      if s.Fresh event ∧ s.timer.now ≤ now then
        some { s.addTimerEvent event now with call := some { event := event } }
      else none
  | .call _ _, some _ => none
  | _, none => none
  | l, some call => s.callStep strerror call l

def ClientStart {E : Type} (s : TcpClient E) : Prop := TimerStart s.timer ∧ s.call = none ∧ s.returned = []

end Tirpc
