import Tirpc.Coroutine.Pool

/-!
# The coroutines of a server (`tcp_server.cpp`, `tcp_connection.cpp`)

The server accepts connections in a coroutine of its own, and each connection is served in another, which goes
back to the pool when the connection is deleted.
-/

namespace Tirpc

open Lib

/-- The place of the coroutine of a connection. -/
inductive ServedPlace where
  /-- It has been queued by the accept coroutine, and not resumed yet. -/
  | accepted
  /-- In `MainServerLoopCorFunc`. -/
  | serving
  /-- In the `Yield` of `Input` behind `ClearClient`. Nobody resumes it, as the descriptor is closed. -/
  | yielded
  /-- There, and returned to the pool. -/
  | deleted
  deriving DecidableEq, Repr

/-- `got` records the answers of `GetCoroutineInstanse`. -/
structure TcpServer where
  pool : CoroutinePool
  acceptCor : Option Nat := none
  conns : List (Nat × ServedPlace) := []
  got : List Nat := []
  deriving DecidableEq

inductive ServerStep where
  /-- `TcpServer::Start` resumes the accept coroutine, which stays in its loop. -/
  | start (malloc : Nat)
  | accept (malloc : Nat)
  /-- An IO thread resumes the coroutine of a connection for the first time. -/
  | resume (conn : Nat)
  /-- A turn of its loop. -/
  | turn (conn : Nat)
  /-- `Input` sees the end of the stream. -/
  | endOfStream (conn : Nat)
  | delete (conn : Nat)
  deriving DecidableEq, Repr

namespace TcpServer

/-- The number of coroutines that are handed out. -/
def out (s : TcpServer) : Nat := s.acceptCor.toList.length + s.conns.countP fun c => c.2 ≠ .deleted

def get (s : TcpServer) (malloc : Nat) : Option (Nat × TcpServer) :=
  if s.pool.Mallocs malloc then
    (s.pool.getCoroutineInstanse malloc).map fun (cor, pool) => (cor, { s with pool := pool, got := s.got ++ [cor] })
  else none

def addClient (s : TcpServer) (cor : Nat) : TcpServer := { s with conns := s.conns ++ [(cor, .accepted)] }

def goto (s : TcpServer) (conn cor : Nat) (place : ServedPlace) : TcpServer :=
  { s with conns := s.conns.set conn (cor, place) }

/-- `CoFunction` calls the callback. -/
def enter (s : TcpServer) (cor : Nat) : TcpServer := { s with pool := s.pool.setIsInCoFunc cor true }

end TcpServer

/-- At most `pool_size` coroutines are handed out at any time. -/
def serverNext (s : TcpServer) : ServerStep → Option TcpServer
  | .start malloc =>
      if s.acceptCor = none then
        (s.get malloc).map fun (cor, s) => { s.enter cor with acceptCor := some cor }
      else none
  | .accept malloc =>
      if s.acceptCor ≠ none ∧ s.out < s.pool.poolSize then (s.get malloc).map fun (cor, s) => s.addClient cor
      else none
  | .resume conn =>
      match s.conns[conn]? with
      | some (cor, .accepted) => some ((s.enter cor).goto conn cor .serving)
      | _ => none
  | .turn conn =>
      match s.conns[conn]? with
      | some (_, .serving) => some s
      | _ => none
  | .endOfStream conn =>
      match s.conns[conn]? with
      | some (cor, .serving) => some (s.goto conn cor .yielded)
      | _ => none
  | .delete conn =>
      match s.conns[conn]? with
      | some (cor, .yielded) => some ({ s with pool := s.pool.returnCoroutine cor }.goto conn cor .deleted)
      | _ => none

def ServerStart (poolSize stackSize : Nat) (s : TcpServer) : Prop :=
  ∃ malloc, 0 < malloc ∧ CoroutinePool.new poolSize stackSize malloc = some s.pool ∧ s = { pool := s.pool }

end Tirpc
