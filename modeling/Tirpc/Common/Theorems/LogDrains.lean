import Tirpc.Common.Theorems.LogOnDisk

/-!
# Nothing stays behind

Until `Flush` is called, the timer and the consumers bring everything that has been pushed to the disk: the timer ends
the call of `LoopFunc` that it is in and makes one more, and each consumer writes its batches.
-/

namespace Tirpc

open Lib

variable {c : LogInit} {s s' s'' : LogSystem} {l : LogSystemStep} {type type' : LogType} {now : LogDate}

/-! ## Before `Flush` -/

/-- The steps of a run in which `Flush` has not been called. -/
def BeforeFlush (s : LogSystem) (l : LogSystemStep) : Prop := LogInOrder s l ∧ l ≠ .goOn .flush

instance (s : LogSystem) (l : LogSystemStep) : Decidable (BeforeFlush s l) :=
  inferInstanceAs (Decidable (LogInOrder s l ∧ l ≠ .goOn .flush))

/-- A logger whose flag is not set, with its consumer. -/
structure AsyncLogger.Running (a : AsyncLogger) : Prop where
  stop : a.stop = false
  place : a.place = .loop ∨ ∃ tmp, a.place = .writing tmp false

namespace AsyncLogger.Running

variable {a a' : AsyncLogger}

theorem push (h : a.Running) (batch : List Bytes) : (a.push batch).Running := by
  obtain ⟨-, hplace, hstop⟩ := push_tasks_flatten a batch
  exact ⟨hstop.trans h.stop, hplace ▸ h.place⟩

theorem take (h : a.Running) (hn : a.take = some a') : a'.Running := by
  simp only [AsyncLogger.take] at hn
  split at hn
  case h_1 =>
    rw [h.stop] at hn
    cases hn
  case h_2 tmp rest _ _ =>
    cases hn
    exact ⟨h.stop, .inr ⟨tmp, by rw [h.stop]⟩⟩
  case h_3 => cases hn

theorem write (h : a.Running) (hn : a.write = some a') : a'.Running := by
  simp only [AsyncLogger.write] at hn
  split at hn
  case h_1 tmp isStop hplace =>
    cases hn
    rcases h.place with hloop | ⟨tmp', hwriting⟩
    · cases hloop.symm.trans hplace
    · cases hwriting.symm.trans hplace
      exact ⟨h.stop, .inl rfl⟩
  case h_2 => cases hn

end AsyncLogger.Running

/-- `Flush` has not been called, and the timer is never behind `LoopFunc` as it is. -/
structure Unflushed (s : LogSystem) : Prop where
  flush : s.callers .flush = .outside
  timer : (s.callers .timer).Holding ∨ s.callers .timer = .outside
  running : ∀ type, (s.loggers type).Running

namespace Unflushed

theorem start (h : LogSystemStart c s) : Unflushed s := by
  rw [h.1]
  exact ⟨rfl, .inr rfl, fun _ => ⟨rfl, .inl rfl⟩⟩

theorem setLogger (h : Unflushed s) {a : AsyncLogger} (ha : a.Running) (type : LogType) :
    Unflushed (s.setLogger type a) := by
  refine ⟨h.flush, h.timer, fun type' => ?_⟩
  by_cases ht : type' = type
  · subst ht
    simpa [LogSystem.setLogger] using ha
  · simpa [LogSystem.setLogger, ht] using h.running type'

theorem setTimer (h : Unflushed s) {place : LoopFuncPlace} (hplace : place.Holding ∨ place = .outside) :
    Unflushed (s.setCaller .timer place) :=
  ⟨h.flush, hplace, h.running⟩

theorem swap (h : Unflushed s) (type : LogType) : Unflushed (s.swap type) := ⟨h.flush, h.timer, h.running⟩

theorem timer_not_behind (h : Unflushed s) : s.callers .timer ≠ .looped ∧ s.callers .timer ≠ .rpcStopped := by
  constructor
  all_goals
    intro hplace
    rcases h.timer with hin | hout
    · rw [hplace] at hin
      exact hin
    · rw [hplace] at hout
      cases hout

theorem goOn (h : Unflushed s) : Unflushed (s.goOn .timer) := by
  cases hplace : s.callers .timer with
  | outside =>
      simp only [LogSystem.goOn, hplace]
      exact (h.swap _).setTimer (.inl trivial)
  | appSwapped _ =>
      simp only [LogSystem.goOn, hplace]
      exact (h.swap _).setTimer (.inl trivial)
  | rpcSwapped rpcTmp _ =>
      simp only [LogSystem.goOn, hplace]
      exact (h.setLogger ((h.running .RPC_LOG).push rpcTmp) _).setTimer (.inl trivial)
  | rpcPushed appTmp =>
      simp only [LogSystem.goOn, hplace]
      exact (h.setLogger ((h.running .APP_LOG).push appTmp) _).setTimer (.inr rfl)
  | looped => exact absurd hplace h.timer_not_behind.1
  | rpcStopped => exact absurd hplace h.timer_not_behind.2

theorem step (h : Unflushed s) (hl : l ≠ .goOn .flush) (hn : logSystemNext c s l = some s') : Unflushed s' := by
  cases l with
  | pushLog type msg =>
      cases hn
      exact ⟨h.flush, h.timer, h.running⟩
  | goOn caller =>
      cases caller with
      | timer =>
          cases hn
          exact h.goOn
      | flush => exact absurd rfl hl
  | take type =>
      obtain ⟨a, ha, rfl⟩ := Option.map_eq_some_iff.mp hn
      exact h.setLogger ((h.running type).take ha) type
  | execute type now =>
      simp only [logSystemNext] at hn
      split at hn
      case h_1 =>
        obtain ⟨a, ha, hn⟩ := Option.bind_eq_some_iff.mp hn
        obtain ⟨log, -, rfl⟩ := Option.map_eq_some_iff.mp hn
        have hset := h.setLogger ((h.running type).write ha) type
        exact ⟨hset.flush, hset.timer, hset.running⟩
      case h_2 => cases hn

/-- The timer is alone. -/
theorem loopAlone (h : Unflushed s) (hl : l ≠ .goOn .flush) : LoopAlone s l := by
  cases l with
  | goOn caller =>
      cases caller with
      | timer =>
          intro _ hin
          rw [LoopCaller.other, h.flush] at hin
          exact hin
      | flush => exact absurd rfl hl
  | _ => trivial

end Unflushed

/-! ## Steps that write -/

/-- A turn of the timer, and the consumers. -/
def Drains (now : LogDate) : LogSystemStep → Prop
  | .goOn .timer | .take _ => True
  | .goOn .flush | .pushLog _ _ => False
  | .execute _ now' => now' = now

/-- The step is one of those that write what has been pushed, with the clock at `now`. -/
def DrainStep (now : LogDate) (s : LogSystem) (l : LogSystemStep) : Prop := LogInOrder s l ∧ Drains now l

/-- Records make one batch, if there are any. -/
def parcel (records : List Bytes) : Nat := min 1 records.length

@[simp] theorem parcel_nil : parcel [] = 0 := rfl

def ConsumerPlace.hand : ConsumerPlace → Nat
  | .writing _ _ => 1
  | .loop | .ended => 0

/-- The batches of a log that are written, and those that the records on their way make before `Flush`. -/
def LogSystem.batches (s : LogSystem) (type : LogType) : Nat :=
  (s.turns type).length + ((s.loggers type).place.hand + (s.loggers type).tasks.length) +
    (parcel ((s.callers .timer).taken type) + parcel (s.buffer type))

theorem push_tasks_length (a : AsyncLogger) (batch : List Bytes) :
    (a.push batch).tasks.length = a.tasks.length + parcel batch := by
  cases batch with
  | nil => rfl
  | cons _ _ => simp [AsyncLogger.push, parcel]

theorem goOn_timer_batches (h : Unflushed s) (type : LogType) : (s.goOn .timer).batches type = s.batches type := by
  have hpush := push_tasks_length (s.loggers type)
  have hplace := fun batch => (push_tasks_flatten (s.loggers type) batch).2.1
  cases htimer : s.callers .timer with
  | outside =>
      simp only [LogSystem.goOn, htimer, LogSystem.batches]
      cases type <;> simp [LogSystem.setCaller, LogSystem.swap, LoopFuncPlace.taken]
  | appSwapped appTmp =>
      simp only [LogSystem.goOn, htimer, LogSystem.batches]
      cases type <;> simp [LogSystem.setCaller, LogSystem.swap, LoopFuncPlace.taken]
  | rpcSwapped rpcTmp appTmp =>
      simp only [LogSystem.goOn, htimer, LogSystem.batches]
      cases type with
      | RPC_LOG =>
          simp only [LogSystem.setCaller, LogSystem.setLogger, Function.update_self, LoopFuncPlace.taken, hpush, hplace,
            parcel_nil]
          omega
      | APP_LOG => simp [LogSystem.setCaller, LogSystem.setLogger, LoopFuncPlace.taken]
  | rpcPushed appTmp =>
      simp only [LogSystem.goOn, htimer, LogSystem.batches]
      cases type with
      | RPC_LOG => simp [LogSystem.setCaller, LogSystem.setLogger, LoopFuncPlace.taken, LoopCaller.behindLoop]
      | APP_LOG =>
          simp only [LogSystem.setCaller, LogSystem.setLogger, Function.update_self, LoopFuncPlace.taken,
            LoopCaller.behindLoop, hpush, hplace, parcel_nil]
          omega
  | looped => exact absurd htimer h.timer_not_behind.1
  | rpcStopped => exact absurd htimer h.timer_not_behind.2

theorem setLogger_batches {a : AsyncLogger} (type' : LogType)
    (ha : type' = type → a.place.hand + a.tasks.length =
      (s.loggers type).place.hand + (s.loggers type).tasks.length) :
    (s.setLogger type a).batches type' = s.batches type' := by
  by_cases ht : type' = type
  · subst ht
    simp only [LogSystem.batches, LogSystem.setLogger, Function.update_self, ha rfl]
  · simp only [LogSystem.batches, LogSystem.setLogger, Function.update_of_ne ht]

theorem take_batches {a a' : AsyncLogger} (h : a.Running) (hn : a.take = some a') :
    a'.place.hand + a'.tasks.length = a.place.hand + a.tasks.length := by
  simp only [AsyncLogger.take] at hn
  split at hn
  case h_1 =>
    rw [h.stop] at hn
    cases hn
  case h_2 hplace htasks =>
    cases hn
    simp only [ConsumerPlace.hand, hplace, htasks, List.length_cons]
    omega
  case h_3 => cases hn

theorem write_batches {a a' : AsyncLogger} {tmp : List Bytes} (hplace : a.place = .writing tmp false)
    (hn : a.write = some a') : a'.place = .loop ∧ a'.tasks = a.tasks := by
  simp only [AsyncLogger.write, hplace, Option.some.injEq] at hn
  rw [← hn]
  exact ⟨rfl, rfl⟩

/-! ## A run of such steps -/

/-- The run has led from `s` to `s'`. -/
structure Draining (c : LogInit) (now : LogDate) (s s' : LogSystem) : Prop where
  reach : Reachable (logSystemNext c) (· = s) (DrainStep now) s'
  disk : OnDisk True c s'
  unflushed : Unflushed s'
  later : ∀ type, ∀ t ∈ s'.turns type, t.now.date ≤ now.date
  pushed : s'.pushed = s.pushed
  batches : ∀ type, s'.batches type = s.batches type

namespace Draining

theorem goOn (h : Draining c now s s') : Draining c now s (s'.goOn .timer) := by
  obtain ⟨hpushed, -, -, hturns, -⟩ := s'.goOn_frame .timer
  have hl : LogSystemStep.goOn .timer ≠ .goOn .flush := nofun
  exact ⟨.step h.reach (.goOn .timer) ⟨trivial, trivial⟩ rfl,
    h.disk.goOn .timer fun _ => h.unflushed.loopAlone hl, h.unflushed.goOn, by rw [hturns]; exact h.later,
    hpushed.trans h.pushed, fun type => (goOn_timer_batches h.unflushed type).trans (h.batches type)⟩

/-- The timer ends its call of `LoopFunc`. -/
theorem returns (h : Draining c now s s') : ∃ s'', Draining c now s s'' ∧ s''.callers .timer = .outside := by
  cases htimer : s'.callers .timer with
  | outside => exact ⟨s', h, htimer⟩
  | appSwapped _ => exact ⟨_, h.goOn.goOn.goOn, by simp [LogSystem.goOn, htimer, LogSystem.setCaller,
      LogSystem.setLogger, LogSystem.swap, LoopCaller.behindLoop]⟩
  | rpcSwapped _ _ => exact ⟨_, h.goOn.goOn, by simp [LogSystem.goOn, htimer, LogSystem.setCaller,
      LogSystem.setLogger, LoopCaller.behindLoop]⟩
  | rpcPushed _ => exact ⟨_, h.goOn, by simp [LogSystem.goOn, htimer, LogSystem.setCaller,
      LoopCaller.behindLoop]⟩
  | looped => exact absurd htimer h.unflushed.timer_not_behind.1
  | rpcStopped => exact absurd htimer h.unflushed.timer_not_behind.2

/-- One more call of `LoopFunc` empties the buffers. -/
theorem loops (h : Draining c now s s') (htimer : s'.callers .timer = .outside) :
    ∃ s'', Draining c now s s'' ∧ s''.callers .timer = .outside ∧ ∀ type, s''.buffer type = [] := by
  refine ⟨_, h.goOn.goOn.goOn.goOn, ?_, fun type => ?_⟩
  · simp [LogSystem.goOn, htimer, LogSystem.setCaller, LogSystem.setLogger, LogSystem.swap, LoopCaller.behindLoop]
  · cases type <;> simp [LogSystem.goOn, htimer, LogSystem.setCaller, LogSystem.setLogger, LogSystem.swap]

end Draining

/-- What the consumer of one log leaves as it is. -/
structure SameBut (type : LogType) (s s' : LogSystem) : Prop where
  callers : s'.callers = s.callers
  buffer : s'.buffer = s.buffer
  loggers : ∀ type', type' ≠ type → s'.loggers type' = s.loggers type'

theorem SameBut.trans (h : SameBut type s s') (h' : SameBut type s' s'') : SameBut type s s'' where
  callers := h'.callers.trans h.callers
  buffer := h'.buffer.trans h.buffer
  loggers type' ht := (h'.loggers type' ht).trans (h.loggers type' ht)

/-- The consumer waits in front of `tasks`. -/
def LogSystem.Waits (s : LogSystem) (type : LogType) (tasks : List (List Bytes)) : Prop :=
  (s.loggers type).place = .loop ∧ (s.loggers type).tasks = tasks

namespace Draining

variable {tmp : List Bytes} {tasks : List (List Bytes)}

/-- The consumer takes the next batch. -/
theorem takes (h : Draining c now s s') (hwaits : s'.Waits type (tmp :: tasks)) :
    ∃ s'', Draining c now s s'' ∧ SameBut type s' s'' ∧ (s''.loggers type).place = .writing tmp false ∧
      (s''.loggers type).tasks = tasks := by
  obtain ⟨hplace, htasks⟩ := hwaits
  have hrunning := h.unflushed.running type
  let a : AsyncLogger := { s'.loggers type with tasks := tasks, place := .writing tmp false }
  have ha : (s'.loggers type).take = some a := by
    simp only [AsyncLogger.take, hplace, htasks, hrunning.stop, a]
  have hstep : logSystemNext c s' (.take type) = some (s'.setLogger type a) := by
    simp only [logSystemNext, ha, Option.map_some]
  have hhere : (s'.setLogger type a).loggers type = a := Function.update_self _ _ _
  refine ⟨s'.setLogger type a, ⟨.step h.reach (.take type) ⟨trivial, trivial⟩ hstep, h.disk.take ha,
    h.unflushed.setLogger (hrunning.take ha) type, h.later, h.pushed, fun type' => ?_⟩,
    ⟨rfl, rfl, fun type' ht => Function.update_of_ne ht _ _⟩, congrArg AsyncLogger.place hhere,
    congrArg AsyncLogger.tasks hhere⟩
  exact (setLogger_batches type' fun _ => take_batches hrunning ha).trans (h.batches type')

/-- The consumer writes the batch in its hand, and waits again. -/
theorem writes (h : Draining c now s s') (hmax : 0 ≤ c.maxSize) (hfew : s.batches type < 2147483648)
    (hplace : (s'.loggers type).place = .writing tmp false) :
    ∃ s'', Draining c now s s'' ∧ SameBut type s' s'' ∧ s''.Waits type (s'.loggers type).tasks := by
  have hbatches := h.batches type
  have hok : LogInOrder s' (.execute type now) := by
    refine ⟨h.later type, ?_⟩
    simp only [LogSystem.batches, hplace, ConsumerPlace.hand] at hbatches hfew
    omega
  have hexecute : LogSystemStep.execute type now ≠ .goOn .flush := by
    intro he
    cases he
  obtain ⟨a, log, ha, hstep, hdisk⟩ := h.disk.execute hmax hplace hok
  obtain ⟨hloop, htasks⟩ := write_batches hplace ha
  let t : LogTurn := { tmp := tmp, now := now }
  have hhere : (s'.wrote type a log t).loggers type = a := Function.update_self _ _ _
  have hlater : ∀ type', ∀ u ∈ (s'.wrote type a log t).turns type', u.now.date ≤ now.date := by
    intro type' u hu
    by_cases htype : type' = type
    · subst htype
      simp only [LogSystem.wrote, Function.update_self] at hu
      rcases List.mem_append.mp hu with hu | hu
      · exact h.later type' u hu
      · rw [List.mem_singleton.mp hu]
        exact List.le_refl _
    · simp only [LogSystem.wrote, Function.update_of_ne htype] at hu
      exact h.later type' u hu
  have hsame : ∀ type', (s'.wrote type a log t).batches type' = s'.batches type' := by
    intro type'
    by_cases htype : type' = type
    · subst htype
      simp only [LogSystem.batches, LogSystem.wrote, LogSystem.setLogger, Function.update_self, List.length_append,
        List.length_singleton, hloop, htasks, hplace, ConsumerPlace.hand]
      omega
    · simp only [LogSystem.batches, LogSystem.wrote, LogSystem.setLogger, Function.update_of_ne htype]
  exact ⟨_, ⟨.step h.reach _ ⟨hok, rfl⟩ hstep, hdisk, h.unflushed.step hexecute hstep, hlater, h.pushed,
    fun type' => (hsame type').trans (h.batches type')⟩, ⟨rfl, rfl, fun type' ht => Function.update_of_ne ht _ _⟩,
    (congrArg AsyncLogger.place hhere).trans hloop, (congrArg AsyncLogger.tasks hhere).trans htasks⟩

/-- A consumer writes one batch after the other. -/
theorem drains (h : Draining c now s s') (hmax : 0 ≤ c.maxSize) (hfew : s.batches type < 2147483648)
    (hwaits : s'.Waits type tasks) : ∃ s'', Draining c now s s'' ∧ SameBut type s' s'' ∧ s''.Waits type [] := by
  induction tasks generalizing s' with
  | nil => exact ⟨s', h, ⟨rfl, rfl, fun _ _ => rfl⟩, hwaits⟩
  | cons tmp tasks ih =>
      obtain ⟨s₁, h₁, hsame₁, hplace₁, htasks₁⟩ := h.takes hwaits
      obtain ⟨s₂, h₂, hsame₂, hwaits₂⟩ := h₁.writes hmax hfew hplace₁
      rw [htasks₁] at hwaits₂
      obtain ⟨s'', h', hsame, hwaits'⟩ := ih h₂ hwaits₂
      exact ⟨s'', h', (hsame₁.trans hsame₂).trans hsame, hwaits'⟩

/-- A consumer, wherever it is, writes all that it has before it. -/
theorem consumer (h : Draining c now s s') (hmax : 0 ≤ c.maxSize) (hfew : ∀ type, s.batches type < 2147483648)
    (type : LogType) : ∃ s'', Draining c now s s'' ∧ SameBut type s' s'' ∧ s''.Waits type [] := by
  rcases (h.unflushed.running type).place with hplace | ⟨tmp, hplace⟩
  · exact h.drains hmax (hfew type) ⟨hplace, rfl⟩
  · obtain ⟨s₁, h₁, hsame₁, hwaits₁⟩ := h.writes hmax (hfew type) hplace
    obtain ⟨s'', h', hsame, hwaits⟩ := h₁.drains hmax (hfew type) hwaits₁
    exact ⟨s'', h', hsame₁.trans hsame, hwaits⟩

end Draining

/-- From every state that is reached before `Flush` is called, the timer and the consumers lead to a state in which the
files of both logs are, byte for byte, what has been pushed. -/
theorem log_drains (hmax : 0 ≤ c.maxSize) (h : Reachable (logSystemNext c) (LogSystemStart c) BeforeFlush s)
    (hlater : ∀ type, ∀ t ∈ s.turns type, t.now.date ≤ now.date)
    (hfew : ∀ type, s.batches type < 2147483648) :
    ∃ s', Reachable (logSystemNext c) (· = s) (DrainStep now) s' ∧
      ∀ type, s'.pushed type = s.pushed type ∧ s'.underway type = [] ∧
        LogHolds (c.config type) s'.dir (s.pushed type).flatten := by
  obtain ⟨hdisk, hunflushed⟩ : OnDisk True c s ∧ Unflushed s :=
    h.invariant (I := fun s => OnDisk True c s ∧ Unflushed s) (fun _ hs => ⟨.start hs, .start hs⟩)
      fun _ _ _ hI hok hn => ⟨hI.1.step hmax hok.1 (fun _ => hI.2.loopAlone hok.2) hn, hI.2.step hok.2 hn⟩
  have hhere : Draining c now s s := ⟨.start rfl, hdisk, hunflushed, hlater, rfl, fun _ => rfl⟩
  obtain ⟨s₁, h₁, htimer₁⟩ := hhere.returns
  obtain ⟨s₂, h₂, htimer₂, hbuffer₂⟩ := h₁.loops htimer₁
  obtain ⟨s₃, h₃, hsame₃, hrpc⟩ := h₂.consumer hmax hfew .RPC_LOG
  obtain ⟨s₄, h₄, hsame₄, happ⟩ := h₃.consumer hmax hfew .APP_LOG
  have hwaits : ∀ type, s₄.Waits type [] := by
    intro type
    cases type with
    | RPC_LOG =>
        rw [LogSystem.Waits, hsame₄.loggers .RPC_LOG (by decide)]
        exact hrpc
    | APP_LOG => exact happ
  refine ⟨s₄, h₄.reach, fun type => ?_⟩
  have hunderway : s₄.underway type = [] := by
    obtain ⟨hplace, htasks⟩ := hwaits type
    have htimer : s₄.callers .timer = .outside := by rw [hsame₄.callers, hsame₃.callers, htimer₂]
    have hbuffer : s₄.buffer type = [] := by rw [hsame₄.buffer, hsame₃.buffer, hbuffer₂]
    simp [LogSystem.underway, LogSystem.queued, LogSystem.swapped, hplace, htasks, htimer, h₄.unflushed.flush, hbuffer,
      ConsumerPlace.inHand, LoopFuncPlace.taken]
  have hrecords := (h₄.disk.records type).order trivial
  rw [hunderway, List.append_nil, h₄.pushed] at hrecords
  exact ⟨congrFun h₄.pushed type, hunderway, hrecords ▸ h₄.disk.holds type⟩

/-- The timer is in `LoopFunc` with `b`, and `c` is in the buffer. -/
def threeRecords : List LogSystemStep :=
  [.pushLog .RPC_LOG (text "a\n"), .goOn .timer, .goOn .timer, .goOn .timer, .goOn .timer, .take .RPC_LOG,
    .pushLog .RPC_LOG (text "b\n"), .goOn .timer, .goOn .timer, .pushLog .RPC_LOG (text "c\n"),
    .execute .RPC_LOG firstDay]

theorem log_drains_three : ∃ s s', runLabels (logSystemNext smallLogs) noLogs threeRecords = some s ∧
    Reachable (logSystemNext smallLogs) (· = s) (DrainStep nextDay) s' ∧
    LogHolds (smallLogs.config .RPC_LOG) s'.dir [text "a\n", text "b\n", text "c\n"].flatten := by
  have hbefore : ((runLabels (logSystemNext smallLogs) noLogs threeRecords).map fun s =>
      decide (s.pushed .RPC_LOG = [text "a\n", text "b\n", text "c\n"] ∧
        ((∀ t ∈ s.turns .RPC_LOG, t.now.date ≤ nextDay.date) ∧ ∀ t ∈ s.turns .APP_LOG, t.now.date ≤ nextDay.date) ∧
        s.batches .RPC_LOG < 2147483648 ∧ s.batches .APP_LOG < 2147483648)) = some true := by
    decide
  obtain ⟨s, hs, hbefore⟩ := Option.map_eq_some_iff.mp hbefore
  obtain ⟨hpushed, hlater, hfew⟩ := of_decide_eq_true hbefore
  have hreach := (Reachable.start noLogs_start).of_runOk
    (by decide : RunOk (logSystemNext smallLogs) BeforeFlush noLogs threeRecords) hs
  obtain ⟨s', hs', hdrained⟩ := log_drains (by decide) hreach
    (fun type => by cases type; exacts [hlater.1, hlater.2]) (fun type => by cases type; exacts [hfew.1, hfew.2])
  exact ⟨s, s', hs, hs', hpushed ▸ (hdrained .RPC_LOG).2.2⟩

end Tirpc
