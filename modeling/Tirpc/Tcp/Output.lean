import Tirpc.Lib.Loop
import Tirpc.Tcp.Input

/-!
# Writing to the socket (`tcp_connection.cpp`, `coroutine_hook.cpp`)

`Output` passes on what `send_hook` returns, be it a count, zero or an error, as the number of bytes
that have been read.
-/

namespace Tirpc

open Lib

/-- The calls of `send_hook` that `Output` makes, counted from zero: what the first and the second system
call return when so many bytes are offered, the state of the connection before the call, and the flag
`is_over_time_` after it. -/
structure OutputEnv where
  isMainCoroutine : Bool
  first : Nat → Int → Int
  second : Nat → Int → Int
  state : Nat → TcpConnectionState
  isOverTime : Nat → Bool
  first_range : ∀ n count, 0 ≤ count → -1 ≤ first n count ∧ first n count ≤ count
  second_range : ∀ n count, 0 ≤ count → -1 ≤ second n count ∧ second n count ≤ count

def sendHook (env : OutputEnv) (n : Nat) (count : Int) : Int :=
  if env.isMainCoroutine then env.first n count
  else if env.first n count > 0 then env.first n count
  else env.second n count

theorem all_in_range (_ : Nat) (count : Int) (h : 0 ≤ count) : -1 ≤ count ∧ count ≤ count := by omega

/-- The kernel takes all that it is offered, and the connection stays in its state. -/
def sendsAll (state : TcpConnectionState) : OutputEnv where
  isMainCoroutine := false
  first _ count := count
  second _ count := count
  state _ := state
  isOverTime _ := false
  first_range := all_in_range
  second_range := all_in_range

/-- `sent` are the bytes that the kernel has accepted. -/
structure OutputState where
  buf : TcpBuffer
  calls : Nat := 0
  sent : Bytes := []
  deriving DecidableEq, Repr

/-- One turn of the loop in `Output`. It has no result where the bytes that are offered, or those that
are moved in a compaction, lie outside of the vector. -/
def outputTurn (env : OutputEnv) (s : OutputState) : Turn OutputState (Option OutputState) :=
  if env.state s.calls ≠ .connected then .exit (some s)
  else if s.buf.readable = 0 then .exit (some s)
  else
    let totalSize := s.buf.readable
    match readRange s.buf.buffer s.buf.readIndex totalSize with
    | none => .exit none
    | some bytes =>
        let rt := sendHook env s.calls totalSize
        match s.buf.recycleRead rt with
        | none => .exit none
        | some buf =>
            let s' := { buf := buf, calls := s.calls + 1, sent := s.sent ++ bytes.take rt.toNat }
            if buf.readable ≤ 0 then .exit (some s')
            else if env.isOverTime s.calls then .exit (some s')
            else .again s'

def Output (env : OutputEnv) (overTime : Bool) (buf : TcpBuffer) (r : Option OutputState) : Prop :=
  if overTime then r = some { buf := buf } else Ends (outputTurn env) { buf := buf } r

end Tirpc
