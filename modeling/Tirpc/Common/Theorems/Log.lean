import Tirpc.Common.Log

/-!
# What the log loses at its end

A consumer that has seen the flag writes one more batch and ends. So all batches behind the first of those
that are queued when the flag is set are lost.
-/

namespace Tirpc

open Lib

variable {a a' : AsyncLogger} {s s' : Logger} {type : LogType} {given batch : List Bytes}

/-- `Flush` has returned, and both consumers have ended. -/
def Logger.Ended (s : Logger) : Prop := s.flush = .returned ∧ ∀ type, (s.loggers type).place = .ended

instance (s : Logger) : Decidable s.Ended :=
  decidable_of_iff (s.flush = .returned ∧ (s.loggers .RPC_LOG).place = .ended ∧ (s.loggers .APP_LOG).place = .ended)
    ⟨fun h => ⟨h.1, fun type => by cases type; exacts [h.2.1, h.2.2]⟩, fun h => ⟨h.1, h.2 _, h.2 _⟩⟩

/-! ## One logger -/

def ConsumerPlace.inHand : ConsumerPlace → List Bytes
  | .writing tmp _ => tmp
  | _ => []

/-- The batches that are left for the consumer when it has ended, or for its next turns. -/
def AsyncLogger.Left (a : AsyncLogger) : Prop :=
  match a.place with
  | .loop | .writing _ false => a.stop = true → a.tasks.length = a.queuedAtStop
  | .writing _ true => a.stop = true ∧ a.tasks.length + 1 = a.queuedAtStop
  | .ended => a.stop = true ∧ a.tasks.length = a.queuedAtStop - 1

/-- The records given to the logger are those that its consumer is done with, holds, or has before it. -/
structure AsyncLogger.Accounted (a : AsyncLogger) (given : List Bytes) : Prop where
  records : ∃ done, a.written = (done.filter fun i => i ≠ []) ∧ given = done ++ a.place.inHand ++ a.tasks.flatten
  batches : ∀ batch ∈ a.tasks, batch ≠ []
  left : a.Left

namespace AsyncLogger.Accounted

theorem new : AsyncLogger.Accounted {} [] := ⟨⟨[], rfl, rfl⟩, nofun, nofun⟩

/-- A batch joins before the flag is set. -/
theorem push (h : a.Accounted given) (hstop : a.stop = false) (batch : List Bytes) :
    (a.push batch).Accounted (given ++ batch) := by
  simp only [AsyncLogger.push]
  split
  · rename_i hnil
    rw [hnil, List.append_nil]
    exact h
  · rename_i hne
    obtain ⟨⟨done, hwritten, hgiven⟩, hbatches, hleft⟩ := h
    refine ⟨⟨done, hwritten, by simp [hgiven]⟩, fun b hb => ?_, ?_⟩
    · rcases List.mem_append.mp hb with hb | hb
      · exact hbatches b hb
      · exact List.mem_singleton.mp hb ▸ hne
    · simp only [Left, hstop] at hleft ⊢
      split at hleft <;> simp_all

theorem stop (h : a.Accounted given) (hstop : a.stop = false) : a.Stop.Accounted given := by
  obtain ⟨hrecords, hbatches, hleft⟩ := h
  simp only [AsyncLogger.Stop, hstop, Bool.false_eq_true, ↓reduceIte]
  refine ⟨hrecords, hbatches, ?_⟩
  simp only [Left, hstop] at hleft ⊢
  split at hleft <;> simp_all

theorem take (h : a.Accounted given) (hn : a.take = some a') : a'.Accounted given := by
  obtain ⟨⟨done, hwritten, hgiven⟩, hbatches, hleft⟩ := h
  simp only [AsyncLogger.take] at hn
  split at hn
  · rename_i hplace htasks
    obtain ⟨hstop, hn⟩ := Option.ite_none_right_eq_some.mp hn
    cases hn
    simp only [Left, hplace, htasks] at hleft
    refine ⟨⟨done, hwritten, by simpa [hplace, htasks, ConsumerPlace.inHand] using hgiven⟩, hbatches, hstop, ?_⟩
    have hlen := hleft hstop
    simp only [htasks, List.length_nil] at hlen ⊢
    omega
  · rename_i tmp rest hplace htasks
    cases hn
    simp only [Left, hplace, htasks] at hleft
    refine ⟨⟨done, hwritten, by simpa [hplace, htasks, ConsumerPlace.inHand] using hgiven⟩,
      fun b hb => hbatches b (htasks ▸ List.mem_cons_of_mem tmp hb), ?_⟩
    simp only [Left]
    cases hstop : a.stop with
    | false => simp
    | true => exact ⟨rfl, hleft hstop⟩
  · cases hn

theorem write (h : a.Accounted given) (hn : a.write = some a') : a'.Accounted given := by
  obtain ⟨⟨done, hwritten, hgiven⟩, hbatches, hleft⟩ := h
  simp only [AsyncLogger.write] at hn
  split at hn
  · rename_i tmp isStop hplace
    cases hn
    simp only [Left, hplace] at hleft
    refine ⟨⟨done ++ tmp, by simp [hwritten], ?_⟩, hbatches, ?_⟩
    · simp only [hplace, ConsumerPlace.inHand] at hgiven
      rw [hgiven]
      cases isStop <;> simp [ConsumerPlace.inHand]
    · cases isStop with
      | false => exact hleft
      | true => exact ⟨hleft.1, by simp only; omega⟩
  · cases hn

/-- What a logger whose consumer has ended has written. -/
theorem ended (h : a.Accounted given) (hplace : a.place = .ended) :
    a.written = given ↔ (∀ i ∈ given, i ≠ []) ∧ a.queuedAtStop ≤ 1 := by
  obtain ⟨⟨done, hwritten, hgiven⟩, hbatches, hleft⟩ := h
  simp only [Left, hplace] at hleft
  simp only [hplace, ConsumerPlace.inHand, List.append_nil] at hgiven
  constructor
  · intro heq
    have hlen := congrArg List.length heq
    have hle := List.length_filter_le (fun i : Bytes => decide (i ≠ [])) done
    rw [hwritten, hgiven, List.length_append] at hlen
    have hnil : a.tasks.flatten = [] := List.eq_nil_of_length_eq_zero (by omega)
    have htasks : a.tasks = [] := by
      cases htasks : a.tasks with
      | nil => rfl
      | cons b bs =>
          have hb : b ∈ a.tasks := htasks ▸ List.mem_cons_self
          exact absurd (List.flatten_eq_nil_iff.mp hnil b hb) (hbatches b hb)
    refine ⟨fun i hi => ?_, ?_⟩
    · rw [← heq, hwritten] at hi
      simpa using (List.mem_filter.mp hi).2
    · rw [htasks] at hleft
      have hzero := hleft.2
      simp only [List.length_nil] at hzero
      omega
  · rintro ⟨hne, hqueued⟩
    have htasks : a.tasks = [] := List.eq_nil_of_length_eq_zero (by omega)
    rw [htasks, List.flatten_nil, List.append_nil] at hgiven
    rw [hwritten, hgiven, List.filter_eq_self]
    intro i hi
    simpa using hne i (hgiven ▸ hi)

end AsyncLogger.Accounted

/-! ## Runs -/

theorem take_stop (hn : a.take = some a') : a'.stop = a.stop := by
  simp only [AsyncLogger.take] at hn
  split at hn
  · obtain ⟨-, hn⟩ := Option.ite_none_right_eq_some.mp hn
    cases hn
    rfl
  · cases hn
    rfl
  · cases hn

theorem write_stop (hn : a.write = some a') : a'.stop = a.stop := by
  simp only [AsyncLogger.write] at hn
  split at hn
  · cases hn
    rfl
  · cases hn

theorem push_stop : (a.push batch).stop = a.stop := by
  simp only [AsyncLogger.push]
  split <;> rfl

/-- The loggers whose flag `Flush` has not set yet. -/
def FlushPlace.Before : FlushPlace → LogType → Prop
  | .notCalled, _ | .looped, _ | .rpcStopped, .APP_LOG => True
  | _, _ => False

/-- What has been pushed has been given to the logger or is in its buffer. -/
structure LogKept (s : Logger) : Prop where
  accounted : ∀ type, ∃ given, s.pushed type = given ++ s.buffer type ∧ (s.loggers type).Accounted given
  running : ∀ type, s.flush.Before type → (s.loggers type).stop = false
  emptied : s.flush ≠ .notCalled → ∀ type, s.buffer type = []

namespace LogKept

theorem pushLog (h : LogKept s) (hflush : s.flush = .notCalled) (msg : Bytes) : LogKept (s.pushLog type msg) := by
  refine ⟨fun type' => ?_, h.running, fun hno => absurd hflush hno⟩
  obtain ⟨given, hpushed, hacc⟩ := h.accounted type'
  refine ⟨given, ?_, hacc⟩
  by_cases ht : type' = type
  · subst ht
    simp [Logger.pushLog, hpushed]
  · simp [Logger.pushLog, ht, hpushed]

theorem loopFunc (h : LogKept s) (hflush : s.flush = .notCalled) : LogKept s.loopFunc := by
  refine ⟨fun type => ?_, fun type hb => ?_, fun _ _ => rfl⟩
  · obtain ⟨given, hpushed, hacc⟩ := h.accounted type
    refine ⟨given ++ s.buffer type, hpushed.trans (List.append_nil _).symm, ?_⟩
    exact hacc.push (h.running type (by rw [hflush]; trivial)) _
  · exact push_stop.trans (h.running type hb)

theorem setLogger (h : LogKept s) {logger : AsyncLogger}
    (hacc : ∀ given, (s.loggers type).Accounted given → logger.Accounted given)
    (hstop : s.flush.Before type → logger.stop = false) : LogKept (s.setLogger type logger) := by
  refine ⟨fun type' => ?_, fun type' hb => ?_, h.emptied⟩
  · obtain ⟨given, hpushed, hold⟩ := h.accounted type'
    refine ⟨given, hpushed, ?_⟩
    by_cases ht : type' = type
    · subst ht
      simpa [Logger.setLogger] using hacc given hold
    · simpa [Logger.setLogger, ht] using hold
  · by_cases ht : type' = type
    · subst ht
      simpa [Logger.setLogger] using hstop hb
    · simpa [Logger.setLogger, ht] using h.running type' hb

/-- `Stop` of one logger takes `Flush` to the place behind it. -/
theorem stop (h : LogKept s) {place : FlushPlace} (hbefore : s.flush.Before type)
    (hplace : ∀ type', place.Before type' → type' ≠ type ∧ s.flush.Before type') (hflush : s.flush ≠ .notCalled) :
    LogKept { s.setLogger type (s.loggers type).Stop with flush := place } := by
  refine ⟨fun type' => ?_, fun type' hb => ?_, fun _ => h.emptied hflush⟩
  · obtain ⟨given, hpushed, hold⟩ := h.accounted type'
    refine ⟨given, hpushed, ?_⟩
    by_cases ht : type' = type
    · subst ht
      simpa [Logger.setLogger] using hold.stop (h.running type' hbefore)
    · simpa [Logger.setLogger, ht] using hold
  · obtain ⟨hne, hb'⟩ := hplace type' hb
    simpa [Logger.setLogger, hne] using h.running type' hb'

end LogKept

theorem loggerStep_kept {l : LoggerStep} (h : LogKept s) (hn : loggerNext s l = some s') : LogKept s' := by
  cases l with
  | pushRpcLog msg =>
      obtain ⟨hflush, hn⟩ := Option.ite_none_right_eq_some.mp hn
      cases hn
      exact h.pushLog hflush msg
  | pushAppLog msg =>
      obtain ⟨hflush, hn⟩ := Option.ite_none_right_eq_some.mp hn
      cases hn
      exact h.pushLog hflush msg
  | loopFunc =>
      obtain ⟨hflush, hn⟩ := Option.ite_none_right_eq_some.mp hn
      cases hn
      exact h.loopFunc hflush
  | take type =>
      obtain ⟨a, ha, rfl⟩ := Option.map_eq_some_iff.mp hn
      exact h.setLogger (fun given hacc => hacc.take ha) fun hb => (take_stop ha).trans (h.running type hb)
  | write type =>
      obtain ⟨a, ha, rfl⟩ := Option.map_eq_some_iff.mp hn
      exact h.setLogger (fun given hacc => hacc.write ha) fun hb => (write_stop ha).trans (h.running type hb)
  | flush =>
      obtain ⟨hflush, hn⟩ := Option.ite_none_right_eq_some.mp hn
      cases hn
      have hlooped := h.loopFunc hflush
      exact ⟨hlooped.accounted, fun type _ => hlooped.running type (by rw [Logger.loopFunc, hflush]; trivial),
        fun _ _ => rfl⟩
  | stopRpc =>
      obtain ⟨hflush, hn⟩ := Option.ite_none_right_eq_some.mp hn
      cases hn
      refine h.stop (by rw [hflush]; trivial) (fun type' hb => ?_) (by rw [hflush]; nofun)
      cases type' with
      | RPC_LOG => cases hb
      | APP_LOG => exact ⟨nofun, by rw [hflush]; trivial⟩
  | stopApp =>
      obtain ⟨hflush, hn⟩ := Option.ite_none_right_eq_some.mp hn
      cases hn
      exact h.stop (by rw [hflush]; trivial) (fun type' hb => by cases hb) (by rw [hflush]; nofun)

theorem logKept_start (h : LoggerStart s) : LogKept s := by
  cases h
  exact ⟨fun type => ⟨[], rfl, AsyncLogger.Accounted.new⟩, fun _ _ => rfl, fun _ _ => rfl⟩

/-- For every run that ends with both consumers: a log has exactly the records that were pushed, in their
order, if and only if none of them is empty and at most one batch is queued when the flag is set. -/
theorem log_complete_iff (h : Reachable loggerNext LoggerStart anyStep s) (hend : s.Ended) (type : LogType) :
    (s.loggers type).written = s.pushed type ↔
      (∀ msg ∈ s.pushed type, msg ≠ []) ∧ (s.loggers type).queuedAtStop ≤ 1 := by
  have hkept : LogKept s := h.invariant (fun _ h0 => logKept_start h0) fun _ _ _ hI _ hn => loggerStep_kept hI hn
  obtain ⟨given, hpushed, hacc⟩ := hkept.accounted type
  rw [hkept.emptied (by rw [hend.1]; nofun) type, List.append_nil] at hpushed
  rw [hpushed]
  exact hacc.ended (hend.2 type)

/-! ## Two ends of a log -/

/-- A record is written before `Flush`, and another is in the last batch. -/
def lastBatch : List LoggerStep :=
  [.pushRpcLog [97], .loopFunc, .take .RPC_LOG, .write .RPC_LOG, .pushRpcLog [98], .flush, .stopRpc, .stopApp,
    .take .RPC_LOG, .write .RPC_LOG, .take .APP_LOG]

theorem log_complete_last : ∃ s : Logger, (s.loggers .RPC_LOG).queuedAtStop = 1 ∧
    (s.loggers .RPC_LOG).written = [[97], [98]] ∧ (s.loggers .RPC_LOG).written = s.pushed .RPC_LOG := by
  obtain ⟨s, hs, hend, hpushed, hqueued, hwritten⟩ : ∃ s, runLabels loggerNext {} lastBatch = some s ∧ s.Ended ∧
      s.pushed .RPC_LOG = [[97], [98]] ∧ (s.loggers .RPC_LOG).queuedAtStop = 1 ∧
      (s.loggers .RPC_LOG).written = [[97], [98]] := ⟨_, rfl, by decide, by decide, by decide, by decide⟩
  refine ⟨s, hqueued, hwritten, ?_⟩
  refine (log_complete_iff ((Reachable.start loggerStart_new).of_run hs) hend .RPC_LOG).mpr ⟨?_, Nat.le_of_eq hqueued⟩
  rw [hpushed]
  decide

/-- The timer has queued a batch, and `Flush` queues another behind it. -/
def twoBatches : List LoggerStep :=
  [.pushRpcLog [97], .loopFunc, .pushRpcLog [98], .flush, .stopRpc, .stopApp, .take .RPC_LOG, .write .RPC_LOG,
    .take .APP_LOG]

theorem log_loses_batch : ∃ s : Logger, Reachable loggerNext LoggerStart anyStep s ∧ s.Ended ∧
    (s.loggers .RPC_LOG).written ≠ s.pushed .RPC_LOG := by
  obtain ⟨s, hs, hend, hpushed, hwritten⟩ : ∃ s, runLabels loggerNext {} twoBatches = some s ∧ s.Ended ∧
      s.pushed .RPC_LOG = [[97], [98]] ∧ (s.loggers .RPC_LOG).written = [[97]] :=
    ⟨_, rfl, by decide, by decide, by decide⟩
  refine ⟨s, (Reachable.start loggerStart_new).of_run hs, hend, ?_⟩
  rw [hpushed, hwritten]
  decide

end Tirpc
