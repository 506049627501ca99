import Mathlib.Data.List.Nodup
import Tirpc.Tcp.TimeWheel

/-!
# When the time wheel lets a connection go

A `Fresh` puts its reference into the last bucket, so that the bucket at each place of the wheel holds the
references of the `Fresh` tasks that ran a certain number of ticks ago. A slot goes with the last of them.
-/

namespace Tirpc

open Lib

variable {C : Type} {s s' : TimeWheelRun C} {conn slot : C} {bucketCount : Nat}

/-- The last `Fresh` of the connection ran after `t` ticks. -/
def LastFresh (s : TimeWheelRun C) (conn : C) (t : Nat) : Prop :=
  (conn, t) ∈ s.executed ∧ ∀ t', (conn, t') ∈ s.executed → t' ≤ t

/-- The connection lives, no `Fresh` of it is queued, and the next tick is number `bucketCount` behind its last. -/
def TimesOut (bucketCount : Nat) (s : TimeWheelRun C) (conn : C) : Prop :=
  s.life conn = .live ∧ conn ∉ s.pendingTasks ∧ ∃ t, LastFresh s conn t ∧ s.ticks + 1 = t + bucketCount

variable [DecidableEq C]

/-- The wheel keeps its buckets, each connection is shut down at most once, and a step shuts down just those that
time out by it. -/
structure KeepsTime (bucketCount : Nat) (s : TimeWheelRun C) : Prop where
  buckets : s.wheel.wheel.length = bucketCount
  once : (s.shutdowns.map Prod.fst).Nodup
  onTime : ∀ l s', timeWheelNext s l = some s' → ∃ new, s'.shutdowns = s.shutdowns ++ new ∧
    ∀ conn tick, (conn, tick) ∈ new ↔ l = .loopFunc ∧ tick = s.ticks + 1 ∧ TimesOut bucketCount s conn

/-! ## What the buckets hold -/

/-- The slots that the `(i + 1)`-th tick from now lets go. -/
def TimeWheelRun.bucketAt (bucketCount : Nat) (s : TimeWheelRun C) (i : Nat) : List C :=
  (s.executed.filter fun e => e.2 + bucketCount = s.ticks + i + 1).map Prod.fst

structure WheelTurns (bucketCount : Nat) (s : TimeWheelRun C) : Prop where
  wheel_eq : s.wheel.wheel = (List.range bucketCount).map (s.bucketAt bucketCount)
  past : ∀ e ∈ s.executed, e.2 ≤ s.ticks
  counts : Counts s.useCount (s.wheel.wheel.flatten ++ s.pendingTasks)
  fresh : ∀ conn, s.life conn = .notAccepted → s.useCount conn = 0 ∧ ∀ e ∈ s.shutdowns, e.1 ≠ conn
  once : (s.shutdowns.map Prod.fst).Nodup
  gone : ∀ e ∈ s.shutdowns, s.useCount e.1 = 0

omit [DecidableEq C] in
theorem mem_bucketAt {i : Nat} : conn ∈ s.bucketAt bucketCount i ↔
    ∃ t, (conn, t) ∈ s.executed ∧ t + bucketCount = s.ticks + i + 1 := by
  simp [TimeWheelRun.bucketAt, and_comm]

/-- What stays when the front of the wheel goes. -/
def TimeWheelRun.behind (bucketCount : Nat) (s : TimeWheelRun C) : List (List C) :=
  (List.range (bucketCount - 1)).map fun i => s.bucketAt bucketCount (i + 1)

theorem WheelTurns.cut (h : WheelTurns bucketCount s) (hcount : 1 ≤ bucketCount) :
    s.wheel.wheel = s.bucketAt bucketCount 0 :: s.behind bucketCount := by
  obtain ⟨n, rfl⟩ := Nat.exists_eq_add_of_le' hcount
  rw [h.wheel_eq, List.range_succ_eq_map, List.map_cons, List.map_map]
  rfl

theorem WheelTurns.front (h : WheelTurns bucketCount s) (hcount : 1 ≤ bucketCount) :
    s.wheel.loopFunc.1 = s.bucketAt bucketCount 0 := by
  simp [TcpTimeWheel.loopFunc, h.cut hcount]

theorem WheelTurns.counts_cut (h : WheelTurns bucketCount s) (hcount : 1 ≤ bucketCount) :
    Counts s.useCount (s.bucketAt bucketCount 0 ++ ((s.behind bucketCount).flatten ++ s.pendingTasks)) := by
  have hcounts := h.counts
  rwa [h.cut hcount, List.flatten_cons, List.append_assoc] at hcounts

theorem WheelTurns.freshTcpConnection (h : WheelTurns bucketCount s) (hlife : s.life conn ≠ .notAccepted)
    (hgone : ∀ e ∈ s.shutdowns, e.1 ≠ conn) : WheelTurns bucketCount (s.freshTcpConnection conn) := by
  have hother : ∀ c, c ≠ conn → (s.freshTcpConnection conn).useCount c = s.useCount c :=
    fun c hc => Function.update_of_ne hc _ _
  refine ⟨h.wheel_eq, h.past, ?_, fun c hc => ?_, h.once, fun e he => ?_⟩
  · have hadd := h.counts.addRef conn
    rwa [List.append_assoc] at hadd
  · have hne : c ≠ conn := fun he => hlife (he ▸ hc)
    rw [hother c hne]
    exact h.fresh c hc
  · rw [hother e.1 (hgone e he)]
    exact h.gone e he

theorem WheelTurns.setLife (h : WheelTurns bucketCount s) (conn : C) {life : ConnectionLife} (hlife : life ≠ .notAccepted) :
    WheelTurns bucketCount { s with life := Function.update s.life conn life } := by
  refine ⟨h.wheel_eq, h.past, h.counts, fun c hc => h.fresh c ?_, h.once, h.gone⟩
  by_cases he : c = conn
  · subst he
    exact absurd (Function.update_self c life s.life ▸ hc) hlife
  · exact Function.update_of_ne he life s.life ▸ hc

omit [DecidableEq C] in
theorem bucketAt_runTask {rest : List C} (i : Nat) : (s.runTask slot rest).bucketAt bucketCount i =
    s.bucketAt bucketCount i ++ if s.ticks + bucketCount = s.ticks + i + 1 then [slot] else [] := by
  have happend : (s.runTask slot rest).bucketAt bucketCount i = s.bucketAt bucketCount i ++
      ([(slot, s.ticks)].filter fun e => e.2 + bucketCount = s.ticks + i + 1).map Prod.fst := by
    rw [TimeWheelRun.bucketAt, TimeWheelRun.bucketAt, ← List.map_append, ← List.filter_append]
    rfl
  rw [happend]
  by_cases hi : s.ticks + bucketCount = s.ticks + i + 1
  · rw [if_pos hi]
    simp [hi]
  · rw [if_neg hi]
    simp [hi]

/-- The reference of a `Fresh` joins the last bucket, which is `bucketCount` ticks away from its end. -/
theorem WheelTurns.runTask {rest : List C} (h : WheelTurns bucketCount s) (hcount : 1 ≤ bucketCount)
    (htasks : s.pendingTasks = slot :: rest) : WheelTurns bucketCount (s.runTask slot rest) := by
  obtain ⟨n, rfl⟩ := Nat.exists_eq_add_of_le' hcount
  have hwheel := h.wheel_eq
  rw [List.range_succ, List.map_append, List.map_singleton] at hwheel
  have hold : ∀ i ∈ List.range n, (s.runTask slot rest).bucketAt (n + 1) i = s.bucketAt (n + 1) i := by
    intro i hi
    have hlt := List.mem_range.mp hi
    rw [bucketAt_runTask, if_neg (by omega), List.append_nil]
  have hnew : (s.runTask slot rest).bucketAt (n + 1) n = s.bucketAt (n + 1) n ++ [slot] := by
    rw [bucketAt_runTask, if_pos (Nat.add_assoc ..).symm]
  have hfresh : (s.wheel.fresh slot).wheel =
      (List.range n).map (s.bucketAt (n + 1)) ++ [s.bucketAt (n + 1) n ++ [slot]] := by
    simp [TcpTimeWheel.fresh, hwheel]
  refine ⟨?_, fun e he => ?_, ?_, h.fresh, h.once, h.gone⟩
  · rw [List.range_succ, List.map_append, List.map_singleton, hnew, List.map_congr_left hold]
    exact hfresh
  · rcases List.mem_append.mp he with he | he
    · exact h.past e he
    · rw [List.mem_singleton.mp he]
      exact Nat.le_refl _
  · refine h.counts.perm ?_
    rw [htasks, hwheel]
    simp [TimeWheelRun.runTask, hfresh]

/-! ## One tick -/

/-- What the tick destroys. -/
theorem WheelTurns.timesOut_iff (h : WheelTurns bucketCount s) (hcount : 1 ≤ bucketCount) :
    conn ∈ (dropRefs s.useCount s.wheel.loopFunc.1).2 ∧ s.life conn = .live ↔ TimesOut bucketCount s conn := by
  rw [h.front hcount, mem_dropRefs (h.counts_cut hcount), mem_bucketAt, List.mem_append, not_or]
  constructor
  · rintro ⟨⟨⟨t, hmem, ht⟩, hrest, hpending⟩, hlive⟩
    refine ⟨hlive, hpending, t, ⟨hmem, fun t' hmem' => ?_⟩, by omega⟩
    -- A later one would be in a bucket further back.
    by_contra hlater
    have hpast := h.past _ hmem'
    refine hrest (List.mem_flatten.mpr ⟨_, List.mem_map.mpr ⟨t' - t - 1, List.mem_range.mpr ?_, rfl⟩, ?_⟩)
    · simp only at hpast
      omega
    · exact mem_bucketAt.mpr ⟨t', hmem', by omega⟩
  · rintro ⟨hlive, hpending, t, ⟨hmem, hlast⟩, ht⟩
    refine ⟨⟨⟨t, hmem, by omega⟩, fun hrest => ?_, hpending⟩, hlive⟩
    obtain ⟨bucket, hbucket, hin⟩ := List.mem_flatten.mp hrest
    obtain ⟨i, -, rfl⟩ := List.mem_map.mp hbucket
    obtain ⟨t', hmem', ht'⟩ := mem_bucketAt.mp hin
    have hle := hlast t' hmem'
    omega

theorem bucketAt_loopFunc (i : Nat) : s.loopFunc.bucketAt bucketCount i = s.bucketAt bucketCount (i + 1) := by
  have hshift : s.ticks + (i + 1) + 1 = s.ticks + 1 + i + 1 := by omega
  rw [TimeWheelRun.bucketAt, TimeWheelRun.bucketAt, hshift]
  rfl

/-- The callbacks of the next tick. -/
def TimeWheelRun.timedOut (s : TimeWheelRun C) : List C :=
  (dropRefs s.useCount s.wheel.loopFunc.1).2.filter fun conn => s.life conn = .live

theorem loopFunc_shutdowns :
    s.loopFunc.shutdowns = s.shutdowns ++ s.timedOut.map fun conn => (conn, s.ticks + 1) := rfl

theorem loopFunc_once : s.loopFunc.shutdowns.map Prod.fst = s.shutdowns.map Prod.fst ++ s.timedOut := by
  have hfst : (s.timedOut.map fun conn => (conn, s.ticks + 1)).map Prod.fst = s.timedOut := by
    rw [List.map_map]
    exact List.map_id _
  rw [loopFunc_shutdowns, List.map_append, hfst]

namespace WheelTurns

theorem loopFunc_wheel (h : WheelTurns bucketCount s) (hcount : 1 ≤ bucketCount) :
    s.loopFunc.wheel.wheel = s.behind bucketCount ++ [[]] := by
  simp [TimeWheelRun.loopFunc, TcpTimeWheel.loopFunc, h.cut hcount]

/-- The new bucket has the place of the one that went. -/
theorem loopFunc_wheel_eq (h : WheelTurns bucketCount s) (hcount : 1 ≤ bucketCount) :
    s.loopFunc.wheel.wheel = (List.range bucketCount).map (s.loopFunc.bucketAt bucketCount) := by
  rw [h.loopFunc_wheel hcount, TimeWheelRun.behind]
  obtain ⟨n, rfl⟩ := Nat.exists_eq_add_of_le' hcount
  have hnew : s.bucketAt (n + 1) (n + 1) = [] := by
    refine List.eq_nil_iff_forall_not_mem.mpr fun c hc => ?_
    obtain ⟨t, ht, hlate⟩ := mem_bucketAt.mp hc
    have hpast : t ≤ s.ticks := h.past _ ht
    omega
  rw [List.range_succ, List.map_append, List.map_singleton, Nat.add_sub_cancel, bucketAt_loopFunc, hnew,
    List.map_congr_left fun i _ => bucketAt_loopFunc i]

theorem loopFunc_counts (h : WheelTurns bucketCount s) (hcount : 1 ≤ bucketCount) :
    Counts s.loopFunc.useCount ((s.behind bucketCount).flatten ++ s.pendingTasks) := by
  simp only [TimeWheelRun.loopFunc, h.front hcount]
  exact (h.counts_cut hcount).dropRefs

theorem stays_zero (h : WheelTurns bucketCount s) (hcount : 1 ≤ bucketCount) (hzero : s.useCount conn = 0) :
    s.loopFunc.useCount conn = 0 := by
  rw [(h.loopFunc_counts hcount).zero_iff]
  exact fun hm => (h.counts_cut hcount).zero_iff.mp hzero (List.mem_append_right _ hm)

theorem timedOut_gone (h : WheelTurns bucketCount s) (hcount : 1 ≤ bucketCount) (hconn : conn ∈ s.timedOut) :
    s.useCount conn ≠ 0 ∧ s.loopFunc.useCount conn = 0 ∧ s.life conn = .live := by
  obtain ⟨hdropped, hlive⟩ := List.mem_filter.mp hconn
  rw [h.front hcount, mem_dropRefs (h.counts_cut hcount)] at hdropped
  refine ⟨fun hzero => ?_, (h.loopFunc_counts hcount).zero_iff.mpr hdropped.2, of_decide_eq_true hlive⟩
  exact (h.counts_cut hcount).zero_iff.mp hzero (List.mem_append_left _ hdropped.1)

theorem loopFunc (h : WheelTurns bucketCount s) (hcount : 1 ≤ bucketCount) : WheelTurns bucketCount s.loopFunc := by
  refine ⟨h.loopFunc_wheel_eq hcount, fun e he => Nat.le_succ_of_le (h.past e he), ?_, fun c hc => ?_, ?_,
    fun e he => ?_⟩
  · rw [h.loopFunc_wheel hcount, List.flatten_append, List.flatten_singleton, List.append_nil]
    exact h.loopFunc_counts hcount
  · obtain ⟨hzero, hnever⟩ := h.fresh c hc
    refine ⟨h.stays_zero hcount hzero, fun e he hec => ?_⟩
    rw [loopFunc_shutdowns] at he
    rcases List.mem_append.mp he with he | he
    · exact hnever e he hec
    · obtain ⟨c', hc', rfl⟩ := List.mem_map.mp he
      cases (h.timedOut_gone hcount hc').2.2.symm.trans (hec ▸ hc)
  · have hheld := h.front hcount ▸ h.counts_cut hcount
    rw [loopFunc_once]
    refine List.Nodup.append h.once ((nodup_dropRefs hheld).filter _) fun c hc hnew => ?_
    obtain ⟨e, he, rfl⟩ := List.mem_map.mp hc
    exact (h.timedOut_gone hcount hnew).1 (h.gone e he)
  · rw [loopFunc_shutdowns] at he
    rcases List.mem_append.mp he with he | he
    · exact h.stays_zero hcount (h.gone e he)
    · obtain ⟨c', hc', rfl⟩ := List.mem_map.mp he
      exact (h.timedOut_gone hcount hc').2.1

end WheelTurns

/-! ## Every run -/

theorem timeWheelStep_turns {l : TimeWheelStep C} (h : WheelTurns bucketCount s) (hcount : 1 ≤ bucketCount)
    (hn : timeWheelNext s l = some s') : WheelTurns bucketCount s' := by
  cases l with
  | initServer conn =>
      obtain ⟨hlife, hn⟩ := Option.ite_none_right_eq_some.mp hn
      cases hn
      have hlive : WheelTurns bucketCount { s with life := Function.update s.life conn .live } := h.setLife conn nofun
      exact hlive.freshTcpConnection (by simp) (h.fresh conn hlife).2
  | input conn =>
      obtain ⟨hlife, hn⟩ := Option.ite_none_right_eq_some.mp hn
      cases hn
      rw [TimeWheelRun.input]
      split
      · exact h
      · rename_i hcount
        exact h.freshTcpConnection (by rw [hlife]; nofun) fun e he hec => hcount (hec ▸ h.gone e he)
  | runTask =>
      simp only [timeWheelNext] at hn
      split at hn
      · cases hn
      · rename_i slot rest htasks
        cases hn
        exact h.runTask hcount htasks
  | loopFunc =>
      cases hn
      exact h.loopFunc hcount
  | delete conn =>
      obtain ⟨-, hn⟩ := Option.ite_none_right_eq_some.mp hn
      cases hn
      exact h.setLife conn nofun

theorem timeWheelStart_turns (h : TimeWheelStart bucketCount s) : WheelTurns bucketCount s := by
  cases h
  refine ⟨?_, nofun, ?_, fun _ _ => ⟨rfl, nofun⟩, List.nodup_nil, nofun⟩
  · have hempty : TimeWheelRun.bucketAt bucketCount { wheel := TcpTimeWheel.new C bucketCount } = fun _ => [] := rfl
    rw [hempty, List.map_const', List.length_range]
    rfl
  · intro c
    simp [TcpTimeWheel.new]

theorem WheelTurns.keepsTime (h : WheelTurns bucketCount s) (hcount : 1 ≤ bucketCount) :
    KeepsTime bucketCount s := by
  refine ⟨?_, h.once, fun l s' hn => ?_⟩
  · rw [h.wheel_eq, List.length_map, List.length_range]
  · cases l with
    | loopFunc =>
        cases hn
        refine ⟨_, loopFunc_shutdowns, fun conn tick => ?_⟩
        rw [← h.timesOut_iff hcount]
        simp [TimeWheelRun.timedOut, and_comm, eq_comm]
    | initServer conn =>
        obtain ⟨-, hn⟩ := Option.ite_none_right_eq_some.mp hn
        cases hn
        exact ⟨[], (List.append_nil _).symm, by simp⟩
    | input conn =>
        obtain ⟨-, hn⟩ := Option.ite_none_right_eq_some.mp hn
        cases hn
        refine ⟨[], ?_, by simp⟩
        rw [TimeWheelRun.input, List.append_nil]
        split <;> rfl
    | runTask =>
        simp only [timeWheelNext] at hn
        split at hn
        · cases hn
        · cases hn
          exact ⟨[], (List.append_nil _).symm, by simp⟩
    | delete conn =>
        obtain ⟨-, hn⟩ := Option.ite_none_right_eq_some.mp hn
        cases hn
        exact ⟨[], (List.append_nil _).symm, by simp⟩

/-- For any number of buckets from one on, in every run: the wheel keeps its buckets, and a tick shuts down, once,
just the connections that live, have no `Fresh` in the queue, and had their last `Fresh` that many ticks ago. -/
theorem wheel_keeps_time (hcount : 1 ≤ bucketCount)
    (h : Reachable timeWheelNext (TimeWheelStart bucketCount) anyStep s) : KeepsTime bucketCount s := by
  have hturns : WheelTurns bucketCount s :=
    h.invariant (fun _ h0 => timeWheelStart_turns h0) fun _ _ _ hI _ hn => timeWheelStep_turns hI hcount hn
  exact hturns.keepsTime hcount

/-- A connection is refreshed once, and then idle for two ticks. -/
def idleForTwo : List (TimeWheelStep Bool) :=
  [.initServer true, .runTask, .loopFunc, .input true, .runTask, .loopFunc, .loopFunc]

theorem wheel_keeps_time_two : ∃ s : TimeWheelRun Bool, s.shutdowns = [(true, 3)] ∧ KeepsTime 2 s := by
  obtain ⟨s, hs, hshutdowns⟩ : ∃ s, runLabels timeWheelNext { wheel := TcpTimeWheel.new Bool 2 } idleForTwo = some s ∧
      s.shutdowns = [(true, 3)] := ⟨_, rfl, by decide⟩
  exact ⟨s, hshutdowns, wheel_keeps_time (by decide) ((Reachable.start (timeWheelStart_new 2)).of_run hs)⟩

end Tirpc
