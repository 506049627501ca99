import Mathlib.Logic.Function.Basic
import Tirpc.Common.Log
import Tirpc.Lib.Numeral

/-!
# Log files (`log.cpp`)

What the consumer thread of a log does with a batch: it finds the file of the day, goes on to the next file when this
one has become too long, and appends the records. Files are opened for appending, so that `ftell` gives their length,
and every turn ends with `fflush`.
-/

namespace Tirpc

open Lib

/-- What `strftime` makes of the local time with `"%Y%m%d"`. -/
structure LogDate where
  date : Bytes
  digits : ∀ c ∈ date, isDigit c = true
  deriving DecidableEq

/-- One batch with the day on which it is taken. `opens` says whether `fopen` succeeds. -/
structure LogTurn where
  tmp : List Bytes
  now : LogDate
  opens : Bytes → Bool := fun _ => true

/-- The arguments of the constructor of `AsyncLogger`. -/
structure LogConfig where
  filePath : Bytes
  fileName : Bytes
  maxSize : Int
  type : LogType
  deriving DecidableEq

/-- `files` are the files of the directory, and `fileHandler` is the name of the file that is open. -/
structure LogFiles where
  files : Bytes → Option Bytes
  no : Int := 0
  needReopen : Bool := false
  fileHandler : Option Bytes := none
  date : Bytes := []
  console : Bytes := []

def logTypeToString : LogType → Bytes
  | .RPC_LOG => text "rpc"
  | .APP_LOG => text "app"

def LogConfig.fullFileName (c : LogConfig) (date : Bytes) (no : Int) : Bytes :=
  c.filePath ++ c.fileName ++ text "_" ++ date ++ text "_" ++ logTypeToString c.type ++ text "_" ++ decimal no ++
    text ".log"

namespace LogFiles

def ftell (s : LogFiles) (file : Bytes) : Int := ((s.files file).getD []).length

def fopen (s : LogFiles) (opens : Bytes → Bool) (file : Bytes) : LogFiles :=
  if opens file then
    { s with files := Function.update s.files file (some ((s.files file).getD [])), fileHandler := some file }
  else { s with fileHandler := none }

/-- Another day, or no open file. -/
def checkDate (s : LogFiles) (now : LogDate) : LogFiles :=
  let s := if s.date ≠ now.date then { s with no := 0, date := now.date, needReopen := true } else s
  if s.fileHandler = none then { s with needReopen := true } else s

def reopen (c : LogConfig) (opens : Bytes → Bool) (s : LogFiles) : LogFiles :=
  if s.needReopen then { s.fopen opens (c.fullFileName s.date s.no) with needReopen := false } else s

/-- The next file, when the one that is open is over the size. It is not looked at how long that one is. -/
def rotate (c : LogConfig) (opens : Bytes → Bool) (s : LogFiles) (file : Bytes) : LogFiles :=
  if s.ftell file > c.maxSize then
    let no := wrap32 (s.no + 1)
    { ({ s with no := no } : LogFiles).fopen opens (c.fullFileName s.date no) with needReopen := false }
  else s

/-- Records of the framework are written to the console as well. -/
def echoed (c : LogConfig) (s : LogFiles) (tmp : List Bytes) : Bytes :=
  if c.type = .RPC_LOG then s.console ++ tmp.flatten else s.console

def append (c : LogConfig) (s : LogFiles) (file : Bytes) (tmp : List Bytes) : LogFiles :=
  { s with
    files := Function.update s.files file (some ((s.files file).getD [] ++ tmp.flatten))
    console := s.echoed c tmp }

/-- A turn behind its locked section; an empty record is not written. `ftell` and `fwrite` do not survive a null pointer. -/
def writeTurn (c : LogConfig) (s : LogFiles) (t : LogTurn) : Option LogFiles :=
  let s := (s.checkDate t.now).reopen c t.opens
  s.fileHandler.bind fun file =>
    let s := s.rotate c t.opens file
    match s.fileHandler with
    | some file => some (s.append c file (t.tmp.filter fun i => i ≠ []))
    | none => if t.tmp.all (· = []) then some s else none

def run (c : LogConfig) (s : LogFiles) (turns : List LogTurn) : Option LogFiles :=
  turns.foldlM (fun s t => s.writeTurn c t) s

end LogFiles

end Tirpc
