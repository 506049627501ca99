import Tirpc.Lib.Transition
import Tirpc.Tcp.Input

/-!
# How a connection is closed (`tcp_connection.cpp`)

The main thread calls `ShutdownConnection` when the time wheel lets the connection go, and deletes closed
connections; the IO thread is in `Input`, which calls `ClearClient` at the end of the stream. A step is a locked
access to the state, or a call on the descriptor.
-/

namespace Tirpc

open Lib

/-- The main thread, in `ShutdownConnection`. -/
inductive ShutdownPlace where
  | idle
  /-- Behind the check of the state. -/
  | checked
  /-- Behind `SetState(HalfClosing)`. -/
  | halfClosed
  deriving DecidableEq, Repr

/-- The IO thread, in `MainServerLoopCorFunc`. -/
inductive InputPlace where
  | loop
  /-- Behind the check of the state, in `recv_hook`. -/
  | receiving
  /-- In `ClearClient`, before its check of the state. -/
  | clearing
  /-- Before `close`. -/
  | closing
  /-- Behind `close`. -/
  | closed
  /-- In the `Yield` that is never resumed. -/
  | yielded
  deriving DecidableEq, Repr

inductive DescriptorCall where
  | shutdown
  | close
  deriving DecidableEq, Repr

/-- `sets` and `calls` record the calls of `SetState` and those on the descriptor. -/
structure ClosingConnection where
  state : TcpConnectionState := .connected
  stop : Bool := false
  deleted : Bool := false
  main : ShutdownPlace := .idle
  io : InputPlace := .loop
  sets : List TcpConnectionState := []
  calls : List DescriptorCall := []
  deriving DecidableEq

inductive ClosingStep where
  /-- The main thread calls `ShutdownConnection`, and checks the state. -/
  | shutdownConnection
  | setHalfClosing
  | shutdown
  | clearClientTimer
  /-- The IO thread calls `Input`, and checks the state. -/
  | input
  | received (rt : Int)
  /-- The check of the state in `ClearClient`. -/
  | clearClient
  | close
  | setClosed
  deriving DecidableEq, Repr

namespace ClosingConnection

def setState (s : ClosingConnection) (state : TcpConnectionState) : ClosingConnection :=
  { s with state := state, sets := s.sets ++ [state] }

def callOn (s : ClosingConnection) (call : DescriptorCall) : ClosingConnection := { s with calls := s.calls ++ [call] }

/-- `Execute` and `Output` come between two calls of `Input`. Where a dispatcher calls `ShutdownConnection` in
`Execute`, the steps of that call are those of `mainNext`. -/
def ioNext (s : ClosingConnection) : ClosingStep → Option ClosingConnection
  | .input =>
      if s.io = .loop ∧ s.stop = false then
        if s.state = .closed ∨ s.state = .notConnected then some s else some { s with io := .receiving }
      else none
  | .received rt =>
      if s.io = .receiving then some { s with io := if rt ≤ 0 then .clearing else .loop } else none
  | .clearClient =>
      if s.io = .clearing then some { s with io := if s.state = .closed then .yielded else .closing } else none
  | .close => if s.io = .closing then some { s.callOn .close with stop := true, io := .closed } else none
  | .setClosed => if s.io = .closed then some { s.setState .closed with io := .yielded } else none
  | _ => none

def mainNext (s : ClosingConnection) : ClosingStep → Option ClosingConnection
  | .shutdownConnection =>
      if s.main = .idle ∧ s.deleted = false then
        if s.state = .closed ∨ s.state = .notConnected then some s else some { s with main := .checked }
      else none
  | .setHalfClosing =>
      if s.main = .checked then some { s.setState .halfClosing with main := .halfClosed } else none
  | .shutdown => if s.main = .halfClosed then some { s.callOn .shutdown with main := .idle } else none
  | .clearClientTimer => if s.main = .idle then some { s with deleted := s.deleted || s.state == .closed } else none
  | _ => none

end ClosingConnection

def closingNext (s : ClosingConnection) (l : ClosingStep) : Option ClosingConnection :=
  match l with
  | .shutdownConnection | .setHalfClosing | .shutdown | .clearClientTimer => s.mainNext l
  | .input | .received _ | .clearClient | .close | .setClosed => s.ioNext l

/-- A server connection is connected when it is built. -/
def ClosingStart (s : ClosingConnection) : Prop := s = {}

theorem closingStart_new : ClosingStart {} := rfl

end Tirpc
