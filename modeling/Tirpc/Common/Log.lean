import Mathlib.Logic.Function.Basic
import Tirpc.Lib.Bytes
import Tirpc.Lib.Transition

/-!
# The asynchronous log (`log.cpp`)

Records go into a buffer, by batches into the queue of a logger, and from there to its consumer thread, which
writes them to files. The files of one log are one text here: their names, their sizes and the change from one
to the next are left out.
-/

namespace Tirpc

open Lib

inductive LogType where
  | RPC_LOG
  | APP_LOG
  deriving DecidableEq, Repr

/-- The place of a consumer in `Execute`, with its local `tmp` and `is_stop`. -/
inductive ConsumerPlace where
  | loop
  | writing (tmp : List Bytes) (isStop : Bool)
  | ended
  deriving DecidableEq, Repr

/-- `written` is what has been handed to `fwrite`, and `queuedAtStop` records the number of batches that are
queued when `Stop` sets the flag. -/
structure AsyncLogger where
  tasks : List (List Bytes) := []
  stop : Bool := false
  place : ConsumerPlace := .loop
  written : List Bytes := []
  queuedAtStop : Nat := 0
  deriving DecidableEq

namespace AsyncLogger

def push (s : AsyncLogger) (buffer : List Bytes) : AsyncLogger :=
  if buffer = [] then s else { s with tasks := s.tasks ++ [buffer] }

def Stop (s : AsyncLogger) : AsyncLogger :=
  if s.stop then s else { s with stop := true, queuedAtStop := s.tasks.length }

/-- The locked section of a turn of `Execute`: it waits for a batch or for the flag. -/
def take (s : AsyncLogger) : Option AsyncLogger :=
  match s.place, s.tasks with
  | .loop, [] => if s.stop then some { s with place := .ended } else none
  | .loop, tmp :: rest => some { s with tasks := rest, place := .writing tmp s.stop }
  | _, _ => none

/-- The rest of the turn. An empty record is not written. -/
def write (s : AsyncLogger) : Option AsyncLogger :=
  match s.place with
  | .writing tmp isStop =>
      some { s with
        written := s.written ++ tmp.filter fun i => i ≠ []
        place := if isStop then .ended else .loop }
  | _ => none

end AsyncLogger

/-- The place of the call of `Logger::Flush`. -/
inductive FlushPlace where
  | notCalled
  /-- Behind its call of `LoopFunc`. -/
  | looped
  | rpcStopped
  | returned
  deriving DecidableEq, Repr

/-- `pushed` records the calls of `PushRpcLog` and `PushAppLog`. -/
structure Logger where
  buffer : LogType → List Bytes := fun _ => []
  loggers : LogType → AsyncLogger := fun _ => {}
  flush : FlushPlace := .notCalled
  pushed : LogType → List Bytes := fun _ => []

inductive LoggerStep where
  | pushRpcLog (msg : Bytes)
  | pushAppLog (msg : Bytes)
  | loopFunc
  | take (type : LogType)
  | write (type : LogType)
  | flush
  | stopRpc
  | stopApp
  deriving DecidableEq, Repr

namespace Logger

def pushLog (s : Logger) (type : LogType) (msg : Bytes) : Logger :=
  { s with
    buffer := Function.update s.buffer type (s.buffer type ++ [msg])
    pushed := Function.update s.pushed type (s.pushed type ++ [msg]) }

def pushRpcLog (s : Logger) (msg : Bytes) : Logger := s.pushLog .RPC_LOG msg

def pushAppLog (s : Logger) (msg : Bytes) : Logger := s.pushLog .APP_LOG msg

/-- Both buffers are swapped with empty ones and pushed. -/
def loopFunc (s : Logger) : Logger :=
  { s with buffer := fun _ => [], loggers := fun type => (s.loggers type).push (s.buffer type) }

def setLogger (s : Logger) (type : LogType) (logger : AsyncLogger) : Logger :=
  { s with loggers := Function.update s.loggers type logger }

end Logger

/-- Records are pushed, and the timer calls `LoopFunc`, before `Flush` is called. -/
def loggerNext (s : Logger) : LoggerStep → Option Logger
  | .pushRpcLog msg => if s.flush = .notCalled then some (s.pushRpcLog msg) else none
  | .pushAppLog msg => if s.flush = .notCalled then some (s.pushAppLog msg) else none
  | .loopFunc => if s.flush = .notCalled then some s.loopFunc else none
  | .take type => (s.loggers type).take.map (s.setLogger type)
  | .write type => (s.loggers type).write.map (s.setLogger type)
  | .flush => if s.flush = .notCalled then some { s.loopFunc with flush := .looped } else none
  | .stopRpc =>
      if s.flush = .looped then
        some { s.setLogger .RPC_LOG (s.loggers .RPC_LOG).Stop with flush := .rpcStopped }
      else none
  | .stopApp =>
      if s.flush = .rpcStopped then
        some { s.setLogger .APP_LOG (s.loggers .APP_LOG).Stop with flush := .returned }
      else none

def LoggerStart (s : Logger) : Prop := s = {}

theorem loggerStart_new : LoggerStart {} := rfl

end Tirpc
