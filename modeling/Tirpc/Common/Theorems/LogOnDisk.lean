import Tirpc.Common.Lemmas.LogSystem
import Tirpc.Common.Theorems.LogFiles

/-!
# From a record to the disk

The bytes in the files of a log, day by day and file by file, are those that its consumer has written. In whatever order
the timer, `Flush`, the consumers and the threads that log go on, no record is lost or doubled; and where no two calls
of `LoopFunc` overlap, the files are the beginning of what has been pushed.
-/

namespace Tirpc

open Lib

variable {c : LogInit} {s s' : LogSystem} {type type' : LogType} {alone : Prop}

/-! ## Two logs in one directory -/

theorem logTypeToString_bar (type : LogType) (rest : Bytes) :
    (logTypeToString type ++ (text "_" ++ rest)).takeWhile (· ≠ 95) = logTypeToString type := by
  have hbar : text "_" = [95] := text_singleton '_'
  have hnone : ∀ x ∈ logTypeToString type, (decide (x ≠ 95)) = true := by cases type <;> decide +kernel
  rw [List.takeWhile_append_of_pos hnone, hbar, List.singleton_append, List.takeWhile_cons_of_neg (by decide),
    List.append_nil]

/-- A name tells the log. -/
theorem fullFileName_type {date date' : LogDate} {k k' : Nat}
    (heq : (c.config type).fullFileName date.date k = (c.config type').fullFileName date'.date k') : type = type' := by
  rw [fullFileName_eq, fullFileName_eq] at heq
  have hrest := List.append_cancel_left heq
  have hdate : date.date = date'.date := by
    rw [← digits_takeWhile date.digits, hrest, digits_takeWhile date'.digits]
  rw [hdate] at hrest
  have htype := List.append_cancel_left (List.append_cancel_left hrest)
  have hstring : logTypeToString type = logTypeToString type' := by
    rw [← logTypeToString_bar type, ← logTypeToString_bar type']
    exact congrArg (List.takeWhile _) htype
  cases type <;> cases type' <;> first | rfl | exact absurd hstring (by decide)

/-- Nothing but the files of the log counts. -/
theorem Filled.of_files {c : LogConfig} {before files : Bytes → Option Bytes} {done : List LogTurn} {s : LogFiles}
    (h : Filled c before done s)
    (hfiles : ∀ (date : LogDate) (k : Nat), files (c.fullFileName date.date k) = s.files (c.fullFileName date.date k)) :
    Filled c files done { s with files := files } :=
  ⟨fun date k => (hfiles date k).trans (h.files date k), fun _ _ => rfl, h.closed, h.place⟩

/-! ## The invariant -/

/-- `alone` says that no two calls of `LoopFunc` have overlapped. -/
structure OnDisk (alone : Prop) (c : LogInit) (s : LogSystem) : Prop where
  single : alone → ∀ caller, (s.callers caller).Holding → ¬(s.callers caller.other).Holding
  filled : ∀ type, Filled (c.config type) s.dir (s.turns type) (s.consumer type)
  sorted : ∀ type, (s.turns type).Pairwise fun t u => t.now.date ≤ u.now.date
  records : ∀ type, SameRecords alone (s.pushed type) (s.written type ++ s.underway type)

/-- The clock of a consumer does not go back to an earlier day, and the numbers of the files stay in `int`. -/
def LogInOrder (s : LogSystem) : LogSystemStep → Prop
  | .execute type now => (∀ t ∈ s.turns type, t.now.date ≤ now.date) ∧ (s.turns type).length + 1 < 2147483648
  | _ => True

instance (s : LogSystem) : (l : LogSystemStep) → Decidable (LogInOrder s l)
  | .execute type now =>
      inferInstanceAs (Decidable ((∀ t ∈ s.turns type, t.now.date ≤ now.date) ∧ (s.turns type).length + 1 < _))
  | .pushLog _ _ | .goOn _ | .take _ => inferInstanceAs (Decidable True)

/-- `LoopFunc` is not called while the other caller is in it. -/
def LoopAlone (s : LogSystem) : LogSystemStep → Prop
  | .goOn caller => s.callers caller = .outside → ¬(s.callers caller.other).Holding
  | _ => True

instance (s : LogSystem) : (l : LogSystemStep) → Decidable (LoopAlone s l)
  | .goOn caller => inferInstanceAs (Decidable (s.callers caller = .outside → ¬(s.callers caller.other).Holding))
  | .pushLog _ _ | .take _ | .execute _ _ => inferInstanceAs (Decidable True)

theorem LoopCaller.other_other (caller : LoopCaller) : caller.other.other = caller := by cases caller <;> rfl

theorem LoopCaller.eq_or_other (caller caller' : LoopCaller) : caller' = caller ∨ caller' = caller.other := by
  cases caller <;> cases caller' <;> first | exact .inl rfl | exact .inr rfl

/-- Behind a turn of the consumer of a log. -/
def LogSystem.wrote (s : LogSystem) (type : LogType) (logger : AsyncLogger) (log : LogFiles) (t : LogTurn) : LogSystem :=
  { s.setLogger type logger with
    dir := log.files
    consumers := Function.update s.consumers type log
    turns := Function.update s.turns type (s.turns type ++ [t]) }

/-- What is written was in the hand of the consumer. -/
theorem LogSystem.wrote_records {a : AsyncLogger} {log : LogFiles} {t : LogTurn} {isStop : Bool}
    (hplace : (s.loggers type).place = .writing t.tmp isStop) (ha : (s.loggers type).write = some a)
    (type' : LogType) :
    (s.wrote type a log t).written type' ++ (s.wrote type a log t).underway type' =
      s.written type' ++ s.underway type' := by
  have hqueued : (s.wrote type a log t).queued type' =
      if type' = type then a.place.inHand ++ a.tasks.flatten else s.queued type' := queued_setLogger a
  by_cases ht : type' = type
  · subst ht
    obtain ⟨hhand, htasks⟩ := write_records ha
    have hwritten : (s.wrote type' a log t).written type' = s.written type' ++ t.tmp := by
      simp only [written, wrote, Function.update_self, List.map_append, List.flatten_append, List.map_singleton,
        List.flatten_singleton]
    rw [if_pos rfl, hhand, htasks, List.nil_append] at hqueued
    rw [hwritten, underway, hqueued, underway, queued, hplace]
    simp only [ConsumerPlace.inHand, List.append_assoc]
    rfl
  · have hwritten : (s.wrote type a log t).written type' = s.written type' := by
      simp only [written, wrote, Function.update_of_ne ht]
    rw [if_neg ht] at hqueued
    rw [hwritten, underway, hqueued]
    rfl

namespace OnDisk

theorem start (h : LogSystemStart c s) : OnDisk alone c s := by
  obtain ⟨heq, hnone⟩ := h
  rw [heq]
  refine ⟨fun _ caller => False.elim, fun type => ?_, fun _ => .nil, fun _ => .of_eq rfl⟩
  have hstart : LogStart (c.config type) { files := s.dir } := ⟨hnone type, rfl, rfl, rfl⟩
  exact hstart.filled

theorem pushLog (h : OnDisk alone c s) (type : LogType) (msg : Bytes) : OnDisk alone c (s.pushLog type msg) := by
  refine ⟨h.single, h.filled, h.sorted, fun type' => ?_⟩
  by_cases ht : type' = type
  · subst ht
    have hrecords := (h.records type').append_right [msg]
    simpa [LogSystem.pushLog, LogSystem.underway, LogSystem.written, LogSystem.queued, LogSystem.swapped] using hrecords
  · have hrecords := h.records type'
    simpa [LogSystem.pushLog, LogSystem.underway, LogSystem.written, LogSystem.queued, LogSystem.swapped, ht] using
      hrecords

theorem goOn (h : OnDisk alone c s) (caller : LoopCaller) (halone : alone → LoopAlone s (.goOn caller)) :
    OnDisk alone c (s.goOn caller) := by
  obtain ⟨hpushed, hdir, hconsumers, hturns, place, hcallers, hholding⟩ := s.goOn_frame caller
  have hother : alone → (s.callers caller).Holding ∨ s.callers caller = .outside →
      ¬(s.callers caller.other).Holding := by
    rintro ha (hin | hout)
    · exact h.single ha caller hin
    · exact halone ha hout
  have hself : (s.goOn caller).callers caller = place := by rw [hcallers, Function.update_self]
  have hsame : (s.goOn caller).callers caller.other = s.callers caller.other := by
    rw [hcallers]
    cases caller <;> rfl
  refine ⟨fun ha caller' => ?_, fun type => ?_, fun type => ?_, fun type => ?_⟩
  · rcases LoopCaller.eq_or_other caller caller' with rfl | rfl
    · rw [hself, hsame]
      exact fun hin => hother ha (hholding hin)
    · rw [LoopCaller.other_other, hself, hsame]
      exact fun hin hplace => hother ha (hholding hplace) hin
  · rw [LogSystem.consumer, hdir, hconsumers, hturns]
    exact h.filled type
  · rw [hturns]
    exact h.sorted type
  · rw [LogSystem.written, hpushed, hturns]
    exact (h.records type).trans ((s.underway_goOn hother type).symm.append_left _)

theorem take (h : OnDisk alone c s) {a : AsyncLogger} (ha : (s.loggers type).take = some a) :
    OnDisk alone c (s.setLogger type a) := by
  refine ⟨h.single, h.filled, h.sorted, fun type' => ?_⟩
  have hqueued : (s.setLogger type a).queued type' = s.queued type' := by
    rw [LogSystem.queued_setLogger]
    split
    case isTrue ht => rw [take_records ha, ht, LogSystem.queued]
    case isFalse => rfl
  have hunderway : (s.setLogger type a).underway type' = s.underway type' := by
    rw [LogSystem.underway, hqueued]
    rfl
  rw [hunderway]
  exact h.records type'

/-- A consumer can always write its batch. -/
theorem execute (h : OnDisk alone c s) (hmax : 0 ≤ c.maxSize) {now : LogDate} {tmp : List Bytes} {isStop : Bool}
    (hplace : (s.loggers type).place = .writing tmp isStop) (hok : LogInOrder s (.execute type now)) :
    ∃ a log, (s.loggers type).write = some a ∧
      logSystemNext c s (.execute type now) = some (s.wrote type a log { tmp := tmp, now := now }) ∧
      OnDisk alone c (s.wrote type a log { tmp := tmp, now := now }) := by
  obtain ⟨hlater, hfew⟩ := hok
  obtain ⟨a, ha⟩ : ∃ a, (s.loggers type).write = some a := by simp [AsyncLogger.write, hplace]
  let t : LogTurn := { tmp := tmp, now := now }
  obtain ⟨log, hlog, hfilled⟩ := (h.filled type).step hmax (fun _ => rfl : ∀ file, t.opens file = true) hlater hfew
  have hstep : logSystemNext c s (.execute type now) = some (s.wrote type a log t) := by
    simp only [logSystemNext, hplace, ha, Option.bind_some, LogSystem.execute]
    exact congrArg (Option.map _) hlog
  refine ⟨a, log, ha, hstep, h.single, fun type' => ?_, fun type' => ?_, fun type' => ?_⟩
  · by_cases ht : type' = type
    · subst ht
      simp only [LogSystem.wrote, LogSystem.consumer, Function.update_self]
      exact hfilled.of_files fun _ _ => rfl
    · simp only [LogSystem.wrote, LogSystem.consumer, Function.update_of_ne ht]
      refine (h.filled type').of_files fun date k => hfilled.others _ fun date' k' heq => ?_
      exact ht (fullFileName_type heq)
  · by_cases ht : type' = type
    · subst ht
      simp only [LogSystem.wrote, Function.update_self]
      refine List.pairwise_append.mpr ⟨h.sorted type', List.pairwise_singleton _ _, fun u hu t' ht' => ?_⟩
      rw [List.mem_singleton.mp ht']
      exact hlater u hu
    · simp only [LogSystem.wrote, Function.update_of_ne ht]
      exact h.sorted type'
  · show SameRecords alone (s.pushed type') _
    rw [LogSystem.wrote_records (t := t) hplace ha]
    exact h.records type'

theorem step {l : LogSystemStep} (h : OnDisk alone c s) (hmax : 0 ≤ c.maxSize) (hok : LogInOrder s l)
    (halone : alone → LoopAlone s l) (hn : logSystemNext c s l = some s') : OnDisk alone c s' := by
  cases l with
  | pushLog type msg =>
      cases hn
      exact h.pushLog type msg
  | goOn caller =>
      cases hn
      exact h.goOn caller halone
  | take type =>
      obtain ⟨a, ha, rfl⟩ := Option.map_eq_some_iff.mp hn
      exact h.take ha
  | execute type now =>
      cases hplace : (s.loggers type).place with
      | writing tmp isStop =>
          obtain ⟨a, log, -, hnext, hdisk⟩ := h.execute hmax hplace hok
          obtain rfl := Option.some.inj (hnext.symm.trans hn)
          exact hdisk
      | _ =>
          simp only [logSystemNext, hplace] at hn
          cases hn

end OnDisk

/-! ## What is on the disk -/

/-- The first `n` files of a day, one behind the other. -/
def dayText (dir : Bytes → Option Bytes) (c : LogConfig) (date : Bytes) (n : Nat) : Bytes :=
  ((List.range n).map fun k : Nat => (dir (c.fullFileName date k)).getD []).flatten

theorem dayText_filled {c : LogConfig} {before : Bytes → Option Bytes} {done : List LogTurn} {s : LogFiles}
    (h : Filled c before done s) (date : LogDate) :
    dayText s.files c date.date (volumesOf c done date.date).length = (batchesOf done date.date).flatten.flatten := by
  have hfiles : ((List.range (volumesOf c done date.date).length).map fun k : Nat =>
      (s.files (c.fullFileName date.date k)).getD []) = (volumesOf c done date.date).map batchText := by
    refine List.ext_getElem (by simp) fun k hk _ => ?_
    rw [List.length_map, List.length_range] at hk
    simp [h.files date k, List.getElem?_eq_getElem hk]
  have hbatches : (volumesOf c done date.date).flatten = batchesOf done date.date := volumes_flatten _
  rw [dayText, hfiles, batchText_flatten, hbatches]

/-- A day that has a file has had a turn. -/
theorem volumesOf_turn {c : LogConfig} {done : List LogTurn} {date : Bytes} {k : Nat}
    (hk : k < (volumesOf c done date).length) : ∃ t ∈ done, t.now.date = date := by
  by_contra hnone
  have hempty : volumesOf c done date = [] := by
    rw [volumesOf, batchesOf, List.filter_eq_nil_iff.mpr fun t ht heq => hnone ⟨t, ht, of_decide_eq_true heq⟩]
    rfl
  rw [hempty] at hk
  exact Nat.not_lt_zero k hk

theorem flatMap_records {K : Type} (ks : List K) (g : K → List LogTurn) :
    ((ks.flatMap g).map LogTurn.tmp).flatten.flatten = ks.flatMap fun k => ((g k).map LogTurn.tmp).flatten.flatten := by
  induction ks with
  | nil => rfl
  | cons k ks ih =>
      rw [List.flatMap_cons, List.map_append, List.flatten_append, List.flatten_append, ih, List.flatMap_cons]

/-- The files of a log are numbered from zero on each of its days, and read in the order of the days and of the numbers
they are `content`. -/
def LogHolds (c : LogConfig) (dir : Bytes → Option Bytes) (content : Bytes) : Prop :=
  ∃ days : List (Bytes × Nat), days.Pairwise (fun d d' => d.1 ≤ d'.1 ∧ d.1 ≠ d'.1) ∧
    (∀ (date : LogDate) (k : Nat), (dir (c.fullFileName date.date k)).isSome ↔ ∃ n, (date.date, n) ∈ days ∧ k < n) ∧
    content = days.flatMap fun d => dayText dir c d.1 d.2

theorem OnDisk.holds (h : OnDisk alone c s) (type : LogType) :
    LogHolds (c.config type) s.dir (s.written type).flatten := by
  have hfilled := h.filled type
  obtain ⟨ks, hks, hmem, hflat⟩ := exists_keys (fun _ _ => List.le_antisymm) (h.sorted type)
  refine ⟨ks.map fun date => (date, (volumesOf (c.config type) (s.turns type) date).length), List.pairwise_map.mpr hks,
    fun date k => ?_, ?_⟩
  · have hfile : s.dir ((c.config type).fullFileName date.date k) =
        (volumesOf (c.config type) (s.turns type) date.date)[k]?.map batchText := hfilled.files date k
    have hsome : (volumesOf (c.config type) (s.turns type) date.date)[k]?.isSome ↔
        k < (volumesOf (c.config type) (s.turns type) date.date).length := by simp
    rw [hfile, Option.isSome_map, hsome]
    constructor
    · intro hk
      exact ⟨_, List.mem_map.mpr ⟨date.date, (hmem _).mpr (volumesOf_turn hk), rfl⟩, hk⟩
    · rintro ⟨n, hn, hk⟩
      obtain ⟨date', -, heq⟩ := List.mem_map.mp hn
      cases heq
      exact hk
  · have hturns : ((s.turns type).map LogTurn.tmp).flatten.flatten =
        ks.flatMap fun date =>
          dayText s.dir (c.config type) date (volumesOf (c.config type) (s.turns type) date).length := by
      conv => lhs; rw [← hflat, flatMap_records]
      refine List.flatMap_congr fun date hdate => ?_
      obtain ⟨t, -, rfl⟩ := (hmem date).mp hdate
      exact (dayText_filled hfilled t.now).symm
    rw [LogSystem.written, hturns, List.flatMap_map]

/-! ## Every interleaving -/

/-- In every state of every run: the files of a log hold what its consumer has written, and that is, together with the
records on their way, what has been pushed; none is lost and none is there twice. -/
theorem no_record_lost (hmax : 0 ≤ c.maxSize) (h : Reachable (logSystemNext c) (LogSystemStart c) LogInOrder s)
    (type : LogType) :
    LogHolds (c.config type) s.dir (s.written type).flatten ∧
      (s.pushed type).Perm (s.written type ++ s.underway type) := by
  have hdisk : OnDisk False c s :=
    h.invariant (fun _ => OnDisk.start) fun _ _ _ hI hok hn => hI.step hmax hok False.elim hn
  exact ⟨hdisk.holds type, (hdisk.records type).perm⟩

def smallLogs : LogInit := { fileName := text "log", filePath := text "./", maxSize := 5 }

def noLogs : LogSystem := { dir := fun _ => none, consumers := fun _ => { files := fun _ => none } }

theorem noLogs_start : LogSystemStart smallLogs noLogs := ⟨rfl, fun _ _ _ => rfl⟩

/-- The timer has swapped `a`, and before it pushes it `Flush` swaps and pushes `b`. -/
def overlapping : List LogSystemStep :=
  [.pushLog .RPC_LOG (text "a\n"), .goOn .timer, .goOn .timer, .pushLog .RPC_LOG (text "b\n"),
    .goOn .flush, .goOn .flush, .goOn .flush, .goOn .timer, .take .RPC_LOG, .execute .RPC_LOG firstDay, .take .RPC_LOG]

/-- The records change places, and both are there. -/
theorem no_record_lost_overlapping : ∃ s : LogSystem, s.written .RPC_LOG = [text "b\n"] ∧
    s.underway .RPC_LOG = [text "a\n"] ∧ LogHolds (smallLogs.config .RPC_LOG) s.dir (text "b\n") ∧
    [text "a\n", text "b\n"].Perm ([text "b\n"] ++ [text "a\n"]) := by
  have hrecords : ((runLabels (logSystemNext smallLogs) noLogs overlapping).map fun s =>
      (s.pushed .RPC_LOG, s.written .RPC_LOG, s.underway .RPC_LOG)) =
        some ([text "a\n", text "b\n"], [text "b\n"], [text "a\n"]) := by
    decide
  obtain ⟨s, hs, hrecords⟩ := Option.map_eq_some_iff.mp hrecords
  obtain ⟨hpushed, hrecords⟩ := Prod.mk.inj hrecords
  obtain ⟨hwritten, hunderway⟩ := Prod.mk.inj hrecords
  have hreach := (Reachable.start noLogs_start).of_runOk
    (by decide : RunOk (logSystemNext smallLogs) LogInOrder noLogs overlapping) hs
  obtain ⟨hholds, hperm⟩ := no_record_lost (by decide) hreach .RPC_LOG
  rw [hpushed, hwritten, hunderway] at hperm
  rw [hwritten, List.flatten_singleton] at hholds
  exact ⟨s, hwritten, hunderway, hholds, hperm⟩

/-! ## One call of `LoopFunc` at a time -/

/-- `LogInOrder`, and no two calls of `LoopFunc` overlap. -/
def LogInTurn (s : LogSystem) (l : LogSystemStep) : Prop := LogInOrder s l ∧ LoopAlone s l

instance (s : LogSystem) (l : LogSystemStep) : Decidable (LogInTurn s l) :=
  inferInstanceAs (Decidable (LogInOrder s l ∧ LoopAlone s l))

/-- In every state of every run in which no two calls of `LoopFunc` overlap, the files of a log are, byte for byte, what
has been pushed, up to the records on their way. -/
theorem log_on_disk (hmax : 0 ≤ c.maxSize) (h : Reachable (logSystemNext c) (LogSystemStart c) LogInTurn s)
    (type : LogType) :
    ∃ content, LogHolds (c.config type) s.dir content ∧
      (s.pushed type).flatten = content ++ (s.underway type).flatten := by
  have hdisk : OnDisk True c s :=
    h.invariant (fun _ => OnDisk.start) fun _ _ _ hI hok hn => hI.step hmax hok.1 (fun _ => hok.2) hn
  refine ⟨(s.written type).flatten, hdisk.holds type, ?_⟩
  rw [(hdisk.records type).order trivial, List.flatten_append]

/-- The framework has logged `a` and `c`, of which only the first is written, and `d` while `Flush` is in `LoopFunc`. -/
def twoRecords : List LogSystemStep :=
  [.pushLog .RPC_LOG (text "a\n"), .pushLog .APP_LOG (text "b\n"), .goOn .timer, .goOn .timer, .goOn .timer,
    .goOn .timer, .take .RPC_LOG, .execute .RPC_LOG firstDay, .take .APP_LOG, .pushLog .RPC_LOG (text "c\n"),
    .execute .APP_LOG nextDay, .goOn .flush, .goOn .flush, .pushLog .RPC_LOG (text "d\n")]

theorem log_on_disk_two : ∃ s : LogSystem, s.underway .RPC_LOG = [text "c\n", text "d\n"] ∧
    ∃ content, LogHolds (smallLogs.config .RPC_LOG) s.dir content ∧
      [text "a\n", text "c\n", text "d\n"].flatten = content ++ (s.underway .RPC_LOG).flatten := by
  have hrecords : ((runLabels (logSystemNext smallLogs) noLogs twoRecords).map fun s =>
      (s.underway .RPC_LOG, s.pushed .RPC_LOG)) =
        some ([text "c\n", text "d\n"], [text "a\n", text "c\n", text "d\n"]) := by
    decide
  obtain ⟨s, hs, hrecords⟩ := Option.map_eq_some_iff.mp hrecords
  obtain ⟨hunderway, hpushed⟩ := Prod.mk.inj hrecords
  have hreach := (Reachable.start noLogs_start).of_runOk
    (by decide : RunOk (logSystemNext smallLogs) LogInTurn noLogs twoRecords) hs
  obtain ⟨content, hholds, hcontent⟩ := log_on_disk (by decide) hreach .RPC_LOG
  rw [hpushed] at hcontent
  exact ⟨s, hunderway, content, hholds, hcontent⟩

end Tirpc
