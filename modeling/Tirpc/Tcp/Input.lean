import Tirpc.Lib.Loop
import Tirpc.Tcp.Buffer

/-!
# Reading from the socket (`tcp_connection.cpp`, `coroutine_hook.cpp`)

`Input` reads until a system call returns fewer bytes than it was asked for. Outside of the main
coroutine, a call of `recv_hook` that gets nothing suspends the coroutine and tries once more.
-/

namespace Tirpc

open Lib

/-- What the system call `recv` returns: bytes, or zero, or an error. -/
inductive Recv where
  | data (bytes : Bytes) (nonempty : bytes ≠ [])
  | eof
  | eagain
  | failed

def Recv.bytes : Recv → Bytes
  | data bytes _ => bytes
  | _ => []

/-- The calls of `recv_hook` that `Input` makes, counted from zero: the results of the first and of the
second system call when so many bytes are asked for, and the flag `is_over_time_` afterwards. -/
structure InputEnv where
  isMainCoroutine : Bool
  first : Nat → Int → Recv
  second : Nat → Int → Recv
  isOverTime : Nat → Bool
  first_le : ∀ n count, 0 ≤ count → (first n count).bytes.length ≤ count
  second_le : ∀ n count, 0 ≤ count → (second n count).bytes.length ≤ count

def recvHook (env : InputEnv) (n : Nat) (count : Int) : Recv :=
  if env.isMainCoroutine then env.first n count
  else
    match env.first n count with
    | .data bytes h => .data bytes h
    | _ => env.second n count

structure InputState where
  buf : TcpBuffer
  calls : Nat

/-- How `Input` ends: for its caller, or by clearing the connection and giving up the coroutine. -/
inductive InputExit where
  | readAll (buf : TcpBuffer)
  | overTime (buf : TcpBuffer)
  | closed (buf : TcpBuffer)

/-- The buffer that a turn hands to `recv_hook`, which is asked to store `writeable` bytes at the write index. -/
def preparedBuffer (b : TcpBuffer) : Option TcpBuffer :=
  if b.writeable = 0 then b.resizeBuffer (wrap32 (2 * b.getSize)) else some b

/-- One turn of the loop in `Input`. It has no result where the buffer has none. -/
def inputTurn (env : InputEnv) (s : InputState) : Turn InputState (Option InputExit) :=
  match preparedBuffer s.buf with
  | none => .exit none
  | some buf =>
      let readCount := buf.writeable
      match recvHook env s.calls readCount with
      | .data bytes _ =>
          match (buf.fill bytes).bind fun b => b.recycleWrite bytes.length with
          | none => .exit none
          | some buf =>
              if env.isOverTime s.calls then .exit (some (.overTime buf))
              else if (bytes.length : Int) = readCount then .again { buf := buf, calls := s.calls + 1 }
              else if (bytes.length : Int) < readCount then .exit (some (.readAll buf))
              else .again { buf := buf, calls := s.calls + 1 }
      | _ =>
          if env.isOverTime s.calls then .exit (some (.overTime buf)) else .exit (some (.closed buf))

def bufAfter : Turn InputState (Option InputExit) → Option TcpBuffer
  | .again s => some s.buf
  | .exit (some (.readAll buf)) => some buf
  | .exit (some (.overTime buf)) => some buf
  | .exit (some (.closed buf)) => some buf
  | .exit none => none

/-- After the turn, `Input` is back at its caller. -/
def ReturnsToCaller : Turn InputState (Option InputExit) → Prop
  | .exit (some (.readAll _)) => True
  | .exit (some (.overTime _)) => True
  | _ => False

inductive TcpConnectionState where
  | notConnected
  | connected
  | halfClosing
  | closed
  deriving DecidableEq, Repr

/-- `Input` in a state of the connection. On entry it returns at once when the time is over or the
connection takes no input. -/
def Input (env : InputEnv) (overTime : Bool) (state : TcpConnectionState) (buf : TcpBuffer)
    (r : Option InputExit) : Prop :=
  if overTime then r = some (.overTime buf)
  else if state = .closed ∨ state = .notConnected then r = some (.readAll buf)
  else Ends (inputTurn env) { buf := buf, calls := 0 } r

end Tirpc
