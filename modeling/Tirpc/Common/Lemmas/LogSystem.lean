import Tirpc.Common.LogSystem
import Tirpc.Common.Theorems.Log

/-!
# Records on their way to the disk

Between the call that pushes it and the turn that writes it, a record is in a buffer, in the locals of `LoopFunc`, in a
queue or in the hand of a consumer. A step moves it on, and where no two calls of `LoopFunc` overlap it keeps its place.
-/

namespace Tirpc

open Lib

variable {c : LogInit} {s s' : LogSystem} {type type' : LogType} {caller : LoopCaller} {place : LoopFuncPlace}
  {alone : Prop} {l l' l'' x y : List Bytes}

/-! ## The same records -/

/-- The same records, and in the same order if `alone` holds. -/
structure SameRecords (alone : Prop) (l l' : List Bytes) : Prop where
  perm : l.Perm l'
  order : alone → l = l'

namespace SameRecords

theorem of_eq (h : l = l') : SameRecords alone l l' := ⟨h ▸ .refl l, fun _ => h⟩

theorem symm (h : SameRecords alone l l') : SameRecords alone l' l := ⟨h.perm.symm, fun ha => (h.order ha).symm⟩

theorem trans (h : SameRecords alone l l') (h' : SameRecords alone l' l'') : SameRecords alone l l'' :=
  ⟨h.perm.trans h'.perm, fun ha => (h.order ha).trans (h'.order ha)⟩

theorem append_left (h : SameRecords alone l l') (x : List Bytes) : SameRecords alone (x ++ l) (x ++ l') :=
  ⟨h.perm.append_left x, fun ha => congrArg (x ++ ·) (h.order ha)⟩

theorem append_right (h : SameRecords alone l l') (x : List Bytes) : SameRecords alone (l ++ x) (l' ++ x) :=
  ⟨h.perm.append_right x, fun ha => congrArg (· ++ x) (h.order ha)⟩

theorem comm (x : List Bytes) (hy : alone → y = []) : SameRecords alone (x ++ y) (y ++ x) :=
  ⟨List.perm_append_comm, fun ha => by rw [hy ha, List.append_nil, List.nil_append]⟩

end SameRecords

/-! ## On the way -/

/-- What a caller of `LoopFunc` has taken and not yet pushed. -/
def LoopFuncPlace.taken : LoopFuncPlace → LogType → List Bytes
  | .appSwapped appTmp, .APP_LOG | .rpcSwapped _ appTmp, .APP_LOG | .rpcPushed appTmp, .APP_LOG => appTmp
  | .rpcSwapped rpcTmp _, .RPC_LOG => rpcTmp
  | _, _ => []

/-- In `LoopFunc`, with what it has taken. -/
def LoopFuncPlace.Holding : LoopFuncPlace → Prop
  | .appSwapped _ | .rpcSwapped _ _ | .rpcPushed _ => True
  | .outside | .looped | .rpcStopped => False

instance : (place : LoopFuncPlace) → Decidable place.Holding
  | .appSwapped _ | .rpcSwapped _ _ | .rpcPushed _ => inferInstanceAs (Decidable True)
  | .outside | .looped | .rpcStopped => inferInstanceAs (Decidable False)

theorem LoopFuncPlace.taken_nil (h : ¬place.Holding) (type : LogType) : place.taken type = [] := by
  cases place with
  | outside => rfl
  | looped => rfl
  | rpcStopped => rfl
  | appSwapped _ => exact absurd trivial h
  | rpcSwapped _ _ => exact absurd trivial h
  | rpcPushed _ => exact absurd trivial h

theorem LoopCaller.behindLoop_taken (caller : LoopCaller) (type : LogType) : caller.behindLoop.taken type = [] := by
  cases caller <;> rfl

namespace LogSystem

/-- The records that a consumer has written. -/
def written (s : LogSystem) (type : LogType) : List Bytes := ((s.turns type).map LogTurn.tmp).flatten

/-- In the hand of the consumer, or in its queue. -/
def queued (s : LogSystem) (type : LogType) : List Bytes :=
  (s.loggers type).place.inHand ++ (s.loggers type).tasks.flatten

/-- In the locals of `LoopFunc`, with the timer or in `Flush`. -/
def swapped (s : LogSystem) (type : LogType) : List Bytes :=
  (s.callers .timer).taken type ++ (s.callers .flush).taken type

/-- What the consumer of a log has not written yet. -/
def underway (s : LogSystem) (type : LogType) : List Bytes := s.queued type ++ s.swapped type ++ s.buffer type

/-- The caller's own part may be read first, if there is no other. -/
theorem underway_of (caller : LoopCaller) (hother : alone → ¬(s.callers caller.other).Holding) (type : LogType) :
    SameRecords alone (s.underway type)
      (s.queued type ++ ((s.callers caller).taken type ++ (s.callers caller.other).taken type) ++ s.buffer type) := by
  refine SameRecords.append_right (SameRecords.append_left ?_ _) _
  cases caller with
  | timer => exact .of_eq rfl
  | flush => exact (SameRecords.comm _ fun ha => LoopFuncPlace.taken_nil (hother ha) type).symm

/-- One caller has moved on, and what it has changed is the same records. -/
theorem underway_moved (hcaller : s'.callers = Function.update s.callers caller place)
    (hother : alone → ¬(s.callers caller.other).Holding)
    (hmoved : SameRecords alone
      (s'.queued type ++ (place.taken type ++ (s.callers caller.other).taken type) ++ s'.buffer type)
      (s.queued type ++ ((s.callers caller).taken type ++ (s.callers caller.other).taken type) ++ s.buffer type)) :
    SameRecords alone (s'.underway type) (s.underway type) := by
  have hself : s'.callers caller = place := by rw [hcaller, Function.update_self]
  have hsame : s'.callers caller.other = s.callers caller.other := by
    rw [hcaller]
    cases caller <;> rfl
  have hnew := underway_of (s := s') caller (hsame.symm ▸ hother) type
  rw [hself, hsame] at hnew
  exact hnew.trans (hmoved.trans (underway_of caller hother type).symm)

/-- What is taken out of a buffer is in the locals. -/
theorem underway_swap (hother : alone → ¬(s.callers caller.other).Holding)
    (hbefore : (s.callers caller).taken type' = []) (hbehind : place.taken type' = s.buffer type')
    (hrest : ∀ type, type ≠ type' → place.taken type = (s.callers caller).taken type) (type : LogType) :
    SameRecords alone (((s.swap type').setCaller caller place).underway type) (s.underway type) := by
  refine underway_moved rfl hother ?_
  by_cases ht : type = type'
  · subst ht
    have hbuffer : (s.swap type).buffer type = [] := Function.update_self _ _ _
    rw [show ((s.swap type).setCaller caller place).buffer = (s.swap type).buffer from rfl, hbuffer, hbefore, hbehind,
      List.nil_append, List.append_nil, List.append_assoc]
    exact (SameRecords.comm _ fun ha => LoopFuncPlace.taken_nil (hother ha) type).append_left _
  · have hbuffer : (s.swap type').buffer type = s.buffer type := Function.update_of_ne ht _ _
    rw [show ((s.swap type').setCaller caller place).buffer = (s.swap type').buffer from rfl, hbuffer, hrest type ht]
    exact .of_eq rfl

theorem queued_setLogger (a : AsyncLogger) :
    (s.setLogger type' a).queued type =
      if type = type' then a.place.inHand ++ a.tasks.flatten else s.queued type := by
  by_cases ht : type = type'
  · subst ht
    simp [queued, setLogger]
  · simp [queued, setLogger, ht]

end LogSystem

theorem push_tasks_flatten (a : AsyncLogger) (batch : List Bytes) :
    (a.push batch).tasks.flatten = a.tasks.flatten ++ batch ∧ (a.push batch).place = a.place ∧
      (a.push batch).stop = a.stop := by
  rw [AsyncLogger.push]
  split
  case isTrue hnil => exact ⟨by rw [hnil, List.append_nil], rfl, rfl⟩
  case isFalse => exact ⟨by rw [List.flatten_append, List.flatten_singleton], rfl, rfl⟩

theorem stop_tasks (a : AsyncLogger) : a.Stop.tasks = a.tasks ∧ a.Stop.place = a.place ∧ a.Stop.stop = true := by
  rw [AsyncLogger.Stop]
  split
  case isTrue hstop => exact ⟨rfl, rfl, hstop⟩
  case isFalse => exact ⟨rfl, rfl, rfl⟩

theorem take_records {a a' : AsyncLogger} (hn : a.take = some a') :
    a'.place.inHand ++ a'.tasks.flatten = a.place.inHand ++ a.tasks.flatten := by
  simp only [AsyncLogger.take] at hn
  split at hn
  case h_1 hplace htasks =>
    obtain ⟨-, hn⟩ := Option.ite_none_right_eq_some.mp hn
    cases hn
    simp [hplace, htasks, ConsumerPlace.inHand]
  case h_2 hplace htasks =>
    cases hn
    simp [hplace, htasks, ConsumerPlace.inHand]
  case h_3 => cases hn

theorem write_records {a a' : AsyncLogger} (hn : a.write = some a') :
    a'.place.inHand = [] ∧ a'.tasks = a.tasks := by
  simp only [AsyncLogger.write] at hn
  split at hn
  case h_1 tmp isStop hplace =>
    cases hn
    cases isStop <;> exact ⟨rfl, rfl⟩
  case h_2 => cases hn

namespace LogSystem

/-- What is pushed leaves the locals for the end of the queue. -/
theorem underway_push (hother : alone → ¬(s.callers caller.other).Holding) {batch : List Bytes}
    (hbefore : (s.callers caller).taken type' = batch) (hbehind : place.taken type' = [])
    (hrest : ∀ type, type ≠ type' → place.taken type = (s.callers caller).taken type) (type : LogType) :
    SameRecords alone
      (((s.setLogger type' ((s.loggers type').push batch)).setCaller caller place).underway type)
      (s.underway type) := by
  refine underway_moved rfl hother (.of_eq ?_)
  show (s.setLogger type' _).queued type ++ _ ++ s.buffer type = _
  rw [queued_setLogger]
  by_cases ht : type = type'
  · subst ht
    obtain ⟨htasks, hplace, -⟩ := push_tasks_flatten (s.loggers type) batch
    rw [if_pos rfl, hplace, htasks, hbefore, hbehind, queued]
    simp only [List.nil_append, List.append_assoc]
  · rw [if_neg ht, hrest type ht]

/-- `Stop` moves no records. -/
theorem underway_stop (htaken : ∀ type, place.taken type = (s.callers caller).taken type) (type : LogType) :
    ((s.setLogger type' (s.loggers type').Stop).setCaller caller place).underway type = s.underway type := by
  have hswapped : (s.setCaller caller place).swapped type = s.swapped type := by
    cases caller <;> simp [swapped, setCaller, htaken type]
  have hqueued : (s.setLogger type' (s.loggers type').Stop).queued type = s.queued type := by
    obtain ⟨htasks, hplace, -⟩ := stop_tasks (s.loggers type')
    rw [queued_setLogger]
    split
    case isTrue ht => rw [ht, htasks, hplace, queued]
    case isFalse => rfl
  exact congrArg₂ (fun queued swapped => queued ++ swapped ++ s.buffer type) hqueued hswapped

/-- What a caller leaves as it is, and where it can be behind its step. -/
theorem goOn_frame (s : LogSystem) (caller : LoopCaller) :
    (s.goOn caller).pushed = s.pushed ∧ (s.goOn caller).dir = s.dir ∧ (s.goOn caller).consumers = s.consumers ∧
      (s.goOn caller).turns = s.turns ∧ ∃ place, (s.goOn caller).callers = Function.update s.callers caller place ∧
        (place.Holding → (s.callers caller).Holding ∨ s.callers caller = .outside) := by
  rw [goOn]
  cases hplace : s.callers caller with
  | outside => exact ⟨rfl, rfl, rfl, rfl, _, rfl, fun _ => .inr rfl⟩
  | appSwapped _ => exact ⟨rfl, rfl, rfl, rfl, _, rfl, fun _ => .inl trivial⟩
  | rpcSwapped _ _ => exact ⟨rfl, rfl, rfl, rfl, _, rfl, fun _ => .inl trivial⟩
  | rpcPushed _ => exact ⟨rfl, rfl, rfl, rfl, _, rfl, fun _ => .inl trivial⟩
  | looped => exact ⟨rfl, rfl, rfl, rfl, _, rfl, False.elim⟩
  | rpcStopped => exact ⟨rfl, rfl, rfl, rfl, _, rfl, False.elim⟩

/-- A caller of `LoopFunc` that goes on loses nothing. -/
theorem underway_goOn
    (hother : alone → (s.callers caller).Holding ∨ s.callers caller = .outside → ¬(s.callers caller.other).Holding)
    (type : LogType) : SameRecords alone ((s.goOn caller).underway type) (s.underway type) := by
  cases hplace : s.callers caller with
  | outside =>
      simp only [goOn, hplace]
      refine underway_swap (fun ha => hother ha (.inr hplace)) (by rw [hplace]; rfl) rfl (fun type ht => ?_) type
      rw [hplace]
      cases type with
      | RPC_LOG => rfl
      | APP_LOG => exact absurd rfl ht
  | appSwapped appTmp =>
      simp only [goOn, hplace]
      refine underway_swap (fun ha => hother ha (.inl (hplace ▸ trivial))) (by rw [hplace]; rfl) rfl
        (fun type ht => ?_) type
      rw [hplace]
      cases type with
      | RPC_LOG => exact absurd rfl ht
      | APP_LOG => rfl
  | rpcSwapped rpcTmp appTmp =>
      simp only [goOn, hplace]
      refine underway_push (fun ha => hother ha (.inl (hplace ▸ trivial))) (by rw [hplace]; rfl) rfl
        (fun type ht => ?_) type
      rw [hplace]
      cases type with
      | RPC_LOG => exact absurd rfl ht
      | APP_LOG => rfl
  | rpcPushed appTmp =>
      simp only [goOn, hplace]
      refine underway_push (fun ha => hother ha (.inl (hplace ▸ trivial))) (by rw [hplace]; rfl)
        (caller.behindLoop_taken _) (fun type ht => ?_) type
      rw [hplace, caller.behindLoop_taken]
      cases type with
      | RPC_LOG => rfl
      | APP_LOG => exact absurd rfl ht
  | looped =>
      simp only [goOn, hplace]
      exact .of_eq (underway_stop (fun type => by rw [hplace]; rfl) type)
  | rpcStopped =>
      simp only [goOn, hplace]
      exact .of_eq (underway_stop (fun type => by rw [hplace]; rfl) type)

end LogSystem

end Tirpc
