import Tirpc.Common.LogFiles

/-!
# The logger with its files (`log.cpp`)

Records go through the buffers and the queues of the logger to the files of its two consumers, which are in one
directory. Records are pushed at any time, and the timer may be in `LoopFunc` while `Flush` is. What is done under one
lock is one step. Here every file can be opened.
-/

namespace Tirpc

open Lib

/-- The arguments of `Logger::Init` that it hands on. -/
structure LogInit where
  fileName : Bytes
  filePath : Bytes
  maxSize : Int
  deriving DecidableEq

def LogInit.config (c : LogInit) (type : LogType) : LogConfig :=
  { filePath := c.filePath, fileName := c.fileName, maxSize := c.maxSize, type := type }

/-- Who calls `LoopFunc`. One thread at a time is in `Flush`. -/
inductive LoopCaller where
  | timer
  | flush
  deriving DecidableEq, Repr

def LoopCaller.other : LoopCaller → LoopCaller
  | .timer => .flush
  | .flush => .timer

/-- The place of a caller in `LoopFunc`, with its locals, and behind it in `Flush`. -/
inductive LoopFuncPlace where
  | outside
  | appSwapped (appTmp : List Bytes)
  | rpcSwapped (rpcTmp appTmp : List Bytes)
  | rpcPushed (appTmp : List Bytes)
  | looped
  | rpcStopped
  deriving DecidableEq, Repr

/-- The end of `LoopFunc`. -/
def LoopCaller.behindLoop : LoopCaller → LoopFuncPlace
  | .timer => .outside
  | .flush => .looped

/-- `pushed` records the calls of `PushRpcLog` and `PushAppLog`. `dir` are the files of the directory, as in `consumers`
they are out of date. `turns` records what the consumers have done. -/
structure LogSystem where
  buffer : LogType → List Bytes := fun _ => []
  loggers : LogType → AsyncLogger := fun _ => {}
  callers : LoopCaller → LoopFuncPlace := fun _ => .outside
  pushed : LogType → List Bytes := fun _ => []
  dir : Bytes → Option Bytes
  consumers : LogType → LogFiles
  turns : LogType → List LogTurn := fun _ => []

inductive LogSystemStep where
  /-- `PushRpcLog` or `PushAppLog`. -/
  | pushLog (type : LogType) (msg : Bytes)
  /-- A caller of `LoopFunc` begins, or goes on. -/
  | goOn (caller : LoopCaller)
  | take (type : LogType)
  /-- The consumer writes the batch that it has taken. -/
  | execute (type : LogType) (now : LogDate)
  deriving DecidableEq

namespace LogSystem

def pushLog (s : LogSystem) (type : LogType) (msg : Bytes) : LogSystem :=
  { s with
    buffer := Function.update s.buffer type (s.buffer type ++ [msg])
    pushed := Function.update s.pushed type (s.pushed type ++ [msg]) }

def setLogger (s : LogSystem) (type : LogType) (logger : AsyncLogger) : LogSystem :=
  { s with loggers := Function.update s.loggers type logger }

def setCaller (s : LogSystem) (caller : LoopCaller) (place : LoopFuncPlace) : LogSystem :=
  { s with callers := Function.update s.callers caller place }

/-- A buffer is swapped with an empty one. -/
def swap (s : LogSystem) (type : LogType) : LogSystem := { s with buffer := Function.update s.buffer type [] }

/-- `LoopFunc`, and behind it the rest of `Flush`. -/
def goOn (s : LogSystem) (caller : LoopCaller) : LogSystem :=
  match s.callers caller with
  | .outside => (s.swap .APP_LOG).setCaller caller (.appSwapped (s.buffer .APP_LOG))
  | .appSwapped appTmp => (s.swap .RPC_LOG).setCaller caller (.rpcSwapped (s.buffer .RPC_LOG) appTmp)
  | .rpcSwapped rpcTmp appTmp =>
      (s.setLogger .RPC_LOG ((s.loggers .RPC_LOG).push rpcTmp)).setCaller caller (.rpcPushed appTmp)
  | .rpcPushed appTmp =>
      (s.setLogger .APP_LOG ((s.loggers .APP_LOG).push appTmp)).setCaller caller caller.behindLoop
  | .looped => (s.setLogger .RPC_LOG (s.loggers .RPC_LOG).Stop).setCaller caller .rpcStopped
  | .rpcStopped => (s.setLogger .APP_LOG (s.loggers .APP_LOG).Stop).setCaller caller .outside

def consumer (s : LogSystem) (type : LogType) : LogFiles := { s.consumers type with files := s.dir }

def execute (c : LogConfig) (s : LogSystem) (t : LogTurn) : Option LogSystem :=
  ((s.consumer c.type).writeTurn c t).map fun log =>
    { s with
      dir := log.files
      consumers := Function.update s.consumers c.type log
      turns := Function.update s.turns c.type (s.turns c.type ++ [t]) }

end LogSystem

def logSystemNext (c : LogInit) (s : LogSystem) : LogSystemStep → Option LogSystem
  | .pushLog type msg => some (s.pushLog type msg)
  | .goOn caller => some (s.goOn caller)
  | .take type => (s.loggers type).take.map (s.setLogger type)
  | .execute type now =>
      match (s.loggers type).place with
      | .writing tmp _ =>
          (s.loggers type).write.bind fun logger =>
            (s.setLogger type logger).execute (c.config type) { tmp := tmp, now := now }
      | _ => none

/-- No file of the logs is there. -/
def LogSystemStart (c : LogInit) (s : LogSystem) : Prop :=
  s = { dir := s.dir, consumers := fun _ => { files := s.dir } } ∧
    ∀ type (date : LogDate) (k : Nat), s.dir ((c.config type).fullFileName date.date k) = none

end Tirpc
