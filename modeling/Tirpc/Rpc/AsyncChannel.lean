import Tirpc.Rpc.Controller

/-!
# Calls that do not block (`rpc_async_channel.cpp`)

A coroutine calls `CallMethod`, may be suspended by hooks and be resumed on another thread, and calls `Wait`. A
coroutine of another thread makes the call, and then posts the completion task to the thread that the channel was
made on. The two sides meet in the flags of the channel, and each access to a flag is a step of its own.
-/

namespace Tirpc

open Lib

/-- `T` are the threads. -/
structure RpcAsyncChannel (T : Type) where
  currentIothread : T
  isFinished : Bool := false
  needResume : Bool := false
  isPreSet : Bool := false

/-- The place of the calling coroutine, with the thread that runs it. -/
inductive CallerPlace (T : Type) where
  | running (thread : T)
  /-- In the `Yield` of a hook. -/
  | hooked
  /-- In `Wait`, behind `need_resume_ = true`. -/
  | waitSet (thread : T)
  /-- In `Wait`, where `is_finished_` was false, before `Yield` has swapped. -/
  | yielding (thread : T)
  /-- In the `Yield` of `Wait`. -/
  | waiting
  deriving DecidableEq, Repr

namespace CallerPlace

variable {T : Type}

def thread : CallerPlace T → Option T
  | .running t | .waitSet t | .yielding t => some t
  | .hooked | .waiting => none

/-- What `Coroutine::Resume` on a thread makes of a coroutine that is suspended. A coroutine that runs stays where
it is: what the swap does to it is not modelled. -/
def resume (thread : T) : CallerPlace T → CallerPlace T
  | .hooked | .waiting => .running thread
  | place => place

end CallerPlace

/-- How far the other side has come. -/
inductive CompletionPlace where
  | notCalled
  /-- `AddCoroutineToRandomThread` has been called. -/
  | requested
  /-- The completion task is among the pending tasks of its thread. -/
  | posted
  | closureRun
  | finishedSet
  | done
  deriving DecidableEq, Repr

/-- One call. `controller` is what the calling side writes to it, `waited` tells that a `Wait` has returned, and
`resumes` are the places at which the completion task has resumed the caller. -/
structure AsyncCall (T A : Type) where
  channel : RpcAsyncChannel T
  controller : RpcController A := {}
  caller : CallerPlace T
  waited : Bool := false
  completion : CompletionPlace := .notCalled
  resumes : List (CallerPlace T) := []

namespace RpcAsyncChannel

variable {T A : Type}

def saveCallee (ch : RpcAsyncChannel T) : RpcAsyncChannel T := { ch with isPreSet := true }

/-- The argument is not read. -/
def setFinished (ch : RpcAsyncChannel T) (_value : Bool) : RpcAsyncChannel T := { ch with isFinished := true }

end RpcAsyncChannel

inductive AsyncStep (T : Type) where
  | saveCallee
  | callMethod (runtimeMsgNo : Option Bytes) (genMsgNumber : MsgNumber)
  /-- The caller yields in a hook. -/
  | suspend
  /-- Someone else than the completion task resumes the caller. -/
  | wake (thread : T)
  | setNeedResume
  | checkFinished
  | yield
  /-- The coroutine that makes the call posts the completion task. -/
  | post
  | runClosure
  | setFinished
  | checkNeedResume

namespace AsyncCall

variable {T A : Type}

def callMethod (s : AsyncCall T A) (runtimeMsgNo : Option Bytes) (genMsgNumber : MsgNumber) : AsyncCall T A :=
  if s.channel.isPreSet = false then
    { s with
      controller := s.controller.setError ERROR_NOT_SET_ASYNC_PRE_CALL
        (text "Error! must call [saveCallee()] function before [CallMethod()];")
      channel := { s.channel with isFinished := true } }
  else
    { s with
      controller := s.controller.setMsgSeq (runtimeMsgNo.getD genMsgNumber.bytes)
      completion := .requested }

/-- The second statement of `Wait`. -/
def checkFinished (s : AsyncCall T A) (thread : T) : AsyncCall T A :=
  if s.channel.isFinished then { s with caller := .running thread, waited := true }
  else { s with caller := .yielding thread }

def resumeCaller (s : AsyncCall T A) (thread : T) : AsyncCall T A :=
  { s with
    caller := s.caller.resume thread
    waited := s.waited || match s.caller with
      | .waiting => true
      | _ => false }

/-- The last statement of the completion task. -/
def checkNeedResume (s : AsyncCall T A) : AsyncCall T A :=
  if s.channel.needResume then
    { s.resumeCaller s.channel.currentIothread with resumes := s.resumes ++ [s.caller], completion := .done }
  else { s with completion := .done }

/-- The main coroutine of a thread runs other things only while no statement of the completion task is left. -/
def InCompletion (s : AsyncCall T A) : Prop := s.completion = .closureRun ∨ s.completion = .finishedSet

instance (s : AsyncCall T A) : Decidable s.InCompletion := inferInstanceAs (Decidable (_ ∨ _))

/-- Tasks run on the main coroutine of their thread, when it runs no other coroutine. -/
def TaskRuns (s : AsyncCall T A) : Prop := s.caller.thread ≠ some s.channel.currentIothread

instance [DecidableEq T] (s : AsyncCall T A) : Decidable s.TaskRuns := inferInstanceAs (Decidable (_ ≠ _))

/-- `CallMethod` has been called. -/
def Called (s : AsyncCall T A) : Prop := s.completion ≠ .notCalled ∨ s.channel.isFinished = true

instance (s : AsyncCall T A) : Decidable s.Called := inferInstanceAs (Decidable (_ ∨ _))

def callerStep (s : AsyncCall T A) : AsyncStep T → CallerPlace T → Option (AsyncCall T A)
  | .saveCallee, .running _ => if s.Called then none else some { s with channel := s.channel.saveCallee }
  | .callMethod runtimeMsgNo genMsgNumber, .running _ =>
      if s.Called then none else some (s.callMethod runtimeMsgNo genMsgNumber)
  | .suspend, .running _ => some { s with caller := .hooked }
  | .setNeedResume, .running t =>
      if s.Called then some { s with channel := { s.channel with needResume := true }, caller := .waitSet t } else none
  | .checkFinished, .waitSet t => some (s.checkFinished t)
  | .yield, .yielding _ => some { s with caller := .waiting }
  | _, _ => none

def completionStep (s : AsyncCall T A) : AsyncStep T → CompletionPlace → Option (AsyncCall T A)
  | .runClosure, .posted => some { s with completion := .closureRun }
  | .setFinished, .closureRun =>
      some { s with channel := s.channel.setFinished true, completion := .finishedSet }
  | .checkNeedResume, .finishedSet => some s.checkNeedResume
  | _, _ => none

end AsyncCall

variable {T A : Type}

def asyncNext [DecidableEq T] (s : AsyncCall T A) : AsyncStep T → Option (AsyncCall T A)
  | .wake t =>
      if s.caller.thread = none ∧ ¬(s.InCompletion ∧ t = s.channel.currentIothread) then some (s.resumeCaller t)
      else none
  | .post => if s.completion = .requested then some { s with completion := .posted } else none
  | .runClosure => if s.TaskRuns then s.completionStep .runClosure s.completion else none
  | .setFinished => if s.TaskRuns then s.completionStep .setFinished s.completion else none
  | .checkNeedResume => if s.TaskRuns then s.completionStep .checkNeedResume s.completion else none
  | l => s.callerStep l s.caller

/-- The caller has made the channel. -/
def AsyncStart (s : AsyncCall T A) : Prop :=
  ∃ thread controller, s =
    { channel := { currentIothread := thread }, controller := controller, caller := .running thread }

end Tirpc
