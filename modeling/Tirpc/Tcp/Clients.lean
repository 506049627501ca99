import Mathlib.Logic.Function.Basic
import Tirpc.Tcp.Closing

/-!
# The connections of a server (`tcp_server.cpp`, `io_thread.cpp`)

The accept coroutine goes round the IO threads and keeps the connections in `clients_` under their descriptors, which
the kernel uses again. A connection lives as long as `clients_` has it.
-/

namespace Tirpc

open Lib

structure ServerConnection where
  fd : Int
  ioThread : Int
  life : ClosingConnection := {}
  deriving DecidableEq

/-- `clients` is `some none` where the pointer has been reset. In `conns` are all connections that have been made. -/
structure ServerClients where
  size : Int
  index : Int := -1
  clients : Int → Option (Option Nat) := fun _ => none
  conns : List ServerConnection := []

inductive ServerClientsStep where
  /-- `Accept` returns this descriptor to the accept coroutine. -/
  | accept (fd : Int)
  | clearClientTimerFunc
  /-- Of `ShutdownConnection`, or of the IO thread. -/
  | connection (k : Nat) (step : ClosingStep)
  deriving DecidableEq, Repr

namespace ServerClients

/-- There is no thread behind the last one. -/
def getIoThread (s : ServerClients) : Option (Int × ServerClients) :=
  let index := if s.index = s.size ∨ s.index = -1 then 0 else s.index
  if 0 ≤ index ∧ index < s.size then some (index, { s with index := index + 1 }) else none

def setLife (s : ServerClients) (k : Nat) (life : ClosingConnection) : ServerClients :=
  { s with conns := s.conns.modify k fun c => { c with life := life } }

/-- The last pointer to the connection. -/
def reset (s : ServerClients) (k : Nat) : ServerClients :=
  { s with conns := s.conns.modify k fun c => { c with life := { c.life with deleted := true } } }

def addClient (s : ServerClients) (ioThread fd : Int) : ServerClients :=
  let s := match s.clients fd with
    | some (some k) => s.reset k
    | _ => s
  { s with
    clients := Function.update s.clients fd (some (some s.conns.length))
    conns := s.conns ++ [{ fd := fd, ioThread := ioThread }] }

def isClosed (s : ServerClients) (k : Nat) : Bool := s.conns[k]?.any fun c => c.life.state = .closed

/-- The pointers to closed connections are reset. -/
def clearClientTimerFunc (s : ServerClients) : ServerClients :=
  { s with
    clients := fun fd => (s.clients fd).map fun client => client.filter fun k => !s.isClosed k
    conns := s.conns.mapIdx fun k c =>
      if s.clients c.fd = some (some k) ∧ s.isClosed k then { c with life := { c.life with deleted := true } } else c }

/-- The main thread is not in `ShutdownConnection`. -/
def MainIdle (s : ServerClients) : Prop := ∀ c ∈ s.conns, c.life.main = .idle

/-- The kernel has given the number to a connection that has not called `close`. -/
def IsOpen (s : ServerClients) (fd : Int) : Prop := ∃ c ∈ s.conns, c.fd = fd ∧ .close ∉ c.life.calls

instance (s : ServerClients) : Decidable s.MainIdle := inferInstanceAs (Decidable (∀ c ∈ s.conns, _))

instance (s : ServerClients) (fd : Int) : Decidable (s.IsOpen fd) := inferInstanceAs (Decidable (∃ c ∈ s.conns, _))

end ServerClients

def serverClientsNext (s : ServerClients) : ServerClientsStep → Option ServerClients
  | .accept fd =>
      if s.MainIdle ∧ ¬s.IsOpen fd then s.getIoThread.map fun (ioThread, s) => s.addClient ioThread fd else none
  | .clearClientTimerFunc => if s.MainIdle then some s.clearClientTimerFunc else none
  | .connection _ .clearClientTimer => none
  | .connection k step =>
      if step = .shutdownConnection → s.MainIdle then
        s.conns[k]?.bind fun c => (closingNext c.life step).map (s.setLife k)
      else none

def ServerClientsStart (size : Int) (s : ServerClients) : Prop := s = { size := size }

end Tirpc
