import Mathlib.Algebra.BigOperators.Fin
import Tirpc.Base.TaskQueue
import Tirpc.Lib.Family

/-!
# Events that are pushed and taken

What a call takes leaves the front of one queue and joins the end of its own list, so that at any time the
events are in their queues or with the calls that have taken them.
-/

namespace Tirpc

open Lib

variable {n : Nat} {F : Type} {s s' : TaskQueueRun n F} {c c' : TaskCall n F} {call : Nat}

namespace TaskQueueRun

/-- What a call has taken from a queue. -/
def takenBy (s : TaskQueueRun n F) (call : Nat) (threadIdx : Fin n) : List F :=
  ((s.taken threadIdx).filter fun e => e.1 = call).map Prod.snd

end TaskQueueRun

def TaskCallKind.cnt : TaskCallKind n → Nat
  | .popSome _ popCnt => popCnt
  | .steal _ stealCnt => stealCnt

/-- The queues that a call may take from. -/
def TaskCallKind.MayTake : TaskCallKind n → Fin n → Prop
  | .popSome threadIdx _, i => i = threadIdx
  | .steal threadIdx _, i => i ≠ threadIdx

/-- A call has what is recorded as taken by it, from the queues in their order; it is no more than was asked
for, and from no other queues. -/
structure TakesItsOwn (s : TaskQueueRun n F) (call : Nat) (c : TaskCall n F) : Prop where
  tasks_eq : c.tasks = (List.finRange n).flatMap (s.takenBy call)
  bounded : c.tasks.length ≤ c.kind.cnt
  allowed : ∀ i, s.takenBy call i ≠ [] → c.kind.MayTake i

/-- Nothing is lost or made up: the events pushed are those that the calls have taken and those in the queues;
a queue gives them out in the order in which they came, each to one call. -/
structure EventsConserved (s : TaskQueueRun n F) : Prop where
  conserved : ∑ i, (s.pushed i : Multiset F) =
    (s.calls.map fun c => (c.tasks : Multiset F)).sum + ∑ i, (s.queue.tasks i : Multiset F)
  inOrder : ∀ i, s.pushed i = (s.taken i).map Prod.snd ++ s.queue.tasks i
  byCalls : ∀ i, ∀ e ∈ s.taken i, e.1 < s.calls.length
  own : ∀ call c, s.calls[call]? = some c → TakesItsOwn s call c

/-! ## One step -/

/-- The loop of a call has before it only queues from which it has taken nothing. -/
def Ahead (s : TaskQueueRun n F) (call : Nat) (c : TaskCall n F) : Prop :=
  ∃ passed, List.finRange n = passed ++ c.victims ∧ ∀ i ∈ c.victims, s.takenBy call i = []

structure TasksKept (s : TaskQueueRun n F) : Prop extends EventsConserved s where
  ahead : ∀ call c, s.calls[call]? = some c → Ahead s call c

theorem TakesItsOwn.congr (h : TakesItsOwn s call c) (hs : s'.takenBy call = s.takenBy call) (hkind : c'.kind = c.kind)
    (htasks : c'.tasks = c.tasks) : TakesItsOwn s' call c' where
  tasks_eq := by rw [htasks, hs, h.tasks_eq]
  bounded := by rw [htasks, hkind]; exact h.bounded
  allowed i hi := by rw [hkind]; exact h.allowed i (by rwa [hs] at hi)

theorem takenBy_new (h : ∀ i, ∀ e ∈ s.taken i, e.1 < s.calls.length) (i : Fin n) :
    s.takenBy s.calls.length i = [] := by
  refine List.map_eq_nil_iff.mpr (List.filter_eq_nil_iff.mpr fun e he => ?_)
  have hlt := h i e he
  simp only [decide_eq_true_eq]
  omega

theorem TasksKept.push (h : TasksKept s) (threadIdx : Fin n) (cor : F) : TasksKept (s.push threadIdx cor) where
  conserved := by
    have hpushed := sum_coe_update_append s.pushed threadIdx [cor]
    have hqueue := sum_coe_update_append s.queue.tasks threadIdx [cor]
    simp only [TaskQueueRun.push, CoroutineTaskQueue.push]
    rw [hpushed, hqueue, h.conserved, add_assoc]
  inOrder i := by
    by_cases hi : i = threadIdx
    · subst hi
      simp [TaskQueueRun.push, CoroutineTaskQueue.push, h.inOrder i]
    · simp [TaskQueueRun.push, CoroutineTaskQueue.push, hi, h.inOrder i]
  byCalls := h.byCalls
  own call c hc := (h.own call c hc).congr rfl rfl rfl
  ahead call c hc := h.ahead call c hc

/-- A new call has taken nothing. -/
theorem TasksKept.begin (h : TasksKept s) {c : TaskCall n F} (htasks : c.tasks = [])
    (hvictims : c.victims = [] ∨ c.victims = List.finRange n) : TasksKept (s.begin c) := by
  have hnew : ∀ call c', (s.begin c).calls[call]? = some c' →
      s.calls[call]? = some c' ∨ call = s.calls.length ∧ c' = c := fun _ _ hc => of_getElem?_concat hc
  have hnone := takenBy_new h.byCalls
  refine ⟨⟨?_, h.inOrder, fun i e he => ?_, fun call c' hc => ?_⟩, fun call c' hc => ?_⟩
  · rw [TaskQueueRun.begin, List.map_append, List.sum_append, List.map_singleton, List.sum_singleton, htasks]
    rw [h.conserved]
    simp
  · exact Nat.lt_of_lt_of_le (h.byCalls i e he) (by simp [TaskQueueRun.begin])
  · rcases hnew call c' hc with hc | ⟨rfl, rfl⟩
    · exact (h.own call c' hc).congr rfl rfl rfl
    · exact ⟨by rw [htasks]; exact (List.flatMap_eq_nil_iff.mpr fun i _ => hnone i).symm, by simp [htasks],
        fun i hi => absurd (hnone i) hi⟩
  · rcases hnew call c' hc with hc | ⟨rfl, rfl⟩
    · exact h.ahead call c' hc
    · rcases hvictims with hv | hv
      · exact ⟨List.finRange n, by rw [hv, List.append_nil], fun i _ => hnone i⟩
      · exact ⟨[], by rw [hv, List.nil_append], fun i _ => hnone i⟩

/-- A turn of a loop that takes nothing. -/
theorem TasksKept.setCall (h : TasksKept s) (hc : s.calls[call]? = some c) (hkind : c'.kind = c.kind)
    (htasks : c'.tasks = c.tasks) (hvictims : c'.victims <:+ c.victims) : TasksKept (s.setCall call c') := by
  have hset : ∀ k d, (s.setCall call c').calls[k]? = some d →
      k ≠ call ∧ s.calls[k]? = some d ∨ k = call ∧ d = c' := fun _ _ hd => of_getElem?_set hd
  refine ⟨⟨?_, h.inOrder, fun i e he => ?_, fun k d hd => ?_⟩, fun k d hd => ?_⟩
  · have hsum := sum_map_set (f := fun c : TaskCall n F => (c.tasks : Multiset F)) (b := c') (x := 0) hc
      (by rw [htasks, add_zero])
    simp only [TaskQueueRun.setCall]
    rw [hsum, add_zero, h.conserved]
  · rw [TaskQueueRun.setCall, List.length_set]
    exact h.byCalls i e he
  · rcases hset k d hd with ⟨-, hd⟩ | ⟨rfl, rfl⟩
    · exact (h.own k d hd).congr rfl rfl rfl
    · exact (h.own k c hc).congr rfl hkind htasks
  · rcases hset k d hd with ⟨-, hd⟩ | ⟨rfl, rfl⟩
    · exact h.ahead k d hd
    · obtain ⟨passed, hsplit, hnone⟩ := h.ahead k c hc
      obtain ⟨skipped, hskip⟩ := hvictims
      refine ⟨passed ++ skipped, by rw [List.append_assoc, hskip, hsplit], fun i hi => hnone i ?_⟩
      exact hskip ▸ List.mem_append_right skipped hi

/-! ## Taking from a queue -/

theorem takenBy_take (victim : Fin n) (cnt : Nat) : (s.take call c victim cnt).takenBy call =
    Function.update (s.takenBy call) victim (s.takenBy call victim ++ (s.queue.popSome victim cnt).1) := by
  funext i
  by_cases hi : i = victim
  · subst hi
    have hall : (((s.queue.popSome i cnt).1.map fun cor => (call, cor)).filter fun e => e.1 = call) =
        (s.queue.popSome i cnt).1.map fun cor => (call, cor) := by simp
    simp only [TaskQueueRun.takenBy, TaskQueueRun.take, Function.update_self, List.filter_append, List.map_append, hall]
    simp
  · simp [TaskQueueRun.takenBy, TaskQueueRun.take, hi]

theorem takenBy_take_of_ne {k : Nat} (hk : k ≠ call) (victim : Fin n) (cnt : Nat) :
    (s.take call c victim cnt).takenBy k = s.takenBy k := by
  funext i
  by_cases hi : i = victim
  · subst hi
    simp [TaskQueueRun.takenBy, TaskQueueRun.take, Ne.symm hk]
  · simp [TaskQueueRun.takenBy, TaskQueueRun.take, hi]

/-- The call that is about to take from `victim` has taken nothing from there or from the queues behind. -/
structure AboutToTake (s : TaskQueueRun n F) (call : Nat) (c : TaskCall n F) (victim : Fin n) (cnt : Nat) : Prop where
  set : ∃ c', s.calls[call]? = some c' ∧ c'.kind = c.kind ∧ c'.tasks = c.tasks
  split : ∃ passed after, List.finRange n = passed ++ victim :: after ∧ (c.victims = [] ∨ c.victims = after) ∧
    ∀ i ∈ after, s.takenBy call i = []
  fits : c.tasks.length + cnt ≤ c.kind.cnt
  may : c.kind.MayTake victim

theorem TakesItsOwn.take {victim : Fin n} {cnt : Nat} (h : TakesItsOwn s call c)
    (hto : AboutToTake s call c victim cnt) : TakesItsOwn (s.take call c victim cnt) call
      { c with tasks := c.tasks ++ (s.queue.popSome victim cnt).1 } where
  tasks_eq := by
    obtain ⟨passed, after, hsplit, -, hnone⟩ := hto.split
    rw [takenBy_take, flatMap_update hsplit (List.nodup_finRange n) hnone, ← h.tasks_eq]
  bounded := by
    have hlen : (s.queue.popSome victim cnt).1.length ≤ cnt := List.length_take_le ..
    rw [List.length_append]
    exact Nat.le_trans (Nat.add_le_add_left hlen _) hto.fits
  allowed i hi := by
    rw [takenBy_take] at hi
    by_cases hv : i = victim
    · exact hv ▸ hto.may
    · rw [Function.update_of_ne hv] at hi
      exact h.allowed i hi

/-- The queue that has been taken from is behind the loop, too. -/
theorem AboutToTake.ahead {victim : Fin n} {cnt : Nat} (hto : AboutToTake s call c victim cnt) :
    Ahead (s.take call c victim cnt) call { c with tasks := c.tasks ++ (s.queue.popSome victim cnt).1 } := by
  obtain ⟨passed, after, hsplit, hvictims, hnone⟩ := hto.split
  rcases hvictims with hv | hv
  · refine ⟨List.finRange n, by rw [hv, List.append_nil], fun i hi => ?_⟩
    rw [hv] at hi
    cases hi
  · refine ⟨passed ++ [victim], by rw [hv, hsplit, List.append_assoc]; rfl, fun i hi => ?_⟩
    rw [hv] at hi
    have hnodup := List.nodup_finRange n
    rw [hsplit, List.nodup_append'] at hnodup
    have hne : i ≠ victim := fun he => (List.nodup_cons.mp hnodup.2.1).1 (he ▸ hi)
    rw [takenBy_take, Function.update_of_ne hne]
    exact hnone i hi

/-- `PopSome` takes the first `min(popCnt, size)` events of its queue, and leaves all others. -/
theorem popSome_takes (s : TaskQueueRun n F) (threadIdx : Fin n) (popCnt : Nat) :
    ∃ s' vec, taskQueueNext s (.popSome threadIdx popCnt) = some s' ∧
      s'.calls = s.calls ++ [{ kind := .popSome threadIdx popCnt, tasks := vec }] ∧
      s.queue.tasks threadIdx = vec ++ s'.queue.tasks threadIdx ∧
      vec.length = min popCnt (s.queue.tasks threadIdx).length ∧
      ∀ i, i ≠ threadIdx → s'.queue.tasks i = s.queue.tasks i := by
  refine ⟨_, (s.queue.tasks threadIdx).take popCnt, rfl, ?_, ?_, List.length_take, fun i hi => ?_⟩
  · simp [TaskQueueRun.take, TaskQueueRun.begin, TaskQueueRun.setCall, CoroutineTaskQueue.popSome]
  · simp [TaskQueueRun.take, TaskQueueRun.begin, TaskQueueRun.setCall, CoroutineTaskQueue.popSome]
  · simp [TaskQueueRun.take, TaskQueueRun.begin, TaskQueueRun.setCall, CoroutineTaskQueue.popSome, hi]

theorem popSome_split (q : CoroutineTaskQueue n F) (victim : Fin n) (cnt : Nat) :
    q.tasks victim = (q.popSome victim cnt).1 ++ (q.tasks victim).drop cnt :=
  (List.take_append_drop cnt (q.tasks victim)).symm

theorem TasksKept.take {victim : Fin n} {cnt : Nat} (h : TasksKept s) (hto : AboutToTake s call c victim cnt) :
    TasksKept (s.take call c victim cnt) := by
  obtain ⟨c', hc, hkind, htasks⟩ := hto.set
  have hsplit := popSome_split s.queue victim cnt
  have hown : TakesItsOwn s call c := (h.own call c' hc).congr rfl hkind.symm htasks.symm
  have hset : ∀ k d, (s.take call c victim cnt).calls[k]? = some d → k ≠ call ∧ s.calls[k]? = some d ∨
      k = call ∧ d = { c with tasks := c.tasks ++ (s.queue.popSome victim cnt).1 } := fun _ _ hd => of_getElem?_set hd
  refine ⟨⟨?_, fun i => ?_, fun i e he => ?_, fun k d hd => ?_⟩, fun k d hd => ?_⟩
  · have hcalls := sum_map_set (f := fun c : TaskCall n F => (c.tasks : Multiset F))
      (b := { c with tasks := c.tasks ++ (s.queue.popSome victim cnt).1 })
      (x := ((s.queue.popSome victim cnt).1 : Multiset F)) hc (by rw [htasks, ← Multiset.coe_add])
    have hqueues := sum_coe_update_rest hsplit
    simp only [TaskQueueRun.take, TaskQueueRun.setCall]
    rw [hcalls, h.conserved, ← hqueues, add_right_comm, add_assoc]
    rfl
  · by_cases hi : i = victim
    · subst hi
      have horder := h.inOrder i
      rw [hsplit] at horder
      simp [TaskQueueRun.take, TaskQueueRun.setCall, CoroutineTaskQueue.popSome, horder]
    · simp [TaskQueueRun.take, TaskQueueRun.setCall, CoroutineTaskQueue.popSome, hi, h.inOrder i]
  · have hlt : call < s.calls.length := (List.getElem?_eq_some_iff.mp hc).1
    simp only [TaskQueueRun.take, TaskQueueRun.setCall, List.length_set]
    by_cases hi : i = victim
    · subst hi
      simp only [TaskQueueRun.take, Function.update_self, List.mem_append, List.mem_map] at he
      rcases he with he | ⟨cor, -, rfl⟩
      · exact h.byCalls i e he
      · exact hlt
    · simp only [TaskQueueRun.take, Function.update_of_ne hi] at he
      exact h.byCalls i e he
  · rcases hset k d hd with ⟨hk, hd⟩ | ⟨rfl, rfl⟩
    · exact (h.own k d hd).congr (takenBy_take_of_ne hk victim cnt) rfl rfl
    · exact hown.take hto
  · rcases hset k d hd with ⟨hk, hd⟩ | ⟨rfl, rfl⟩
    · obtain ⟨passed, hpassed, hnone⟩ := h.ahead k d hd
      exact ⟨passed, hpassed, fun i hi => (congrFun (takenBy_take_of_ne hk victim cnt) i).trans (hnone i hi)⟩
    · exact hto.ahead

/-! ## Every run -/

theorem TasksKept.popSome (h : TasksKept s) (threadIdx : Fin n) (popCnt : Nat) :
    TasksKept ((s.begin { kind := .popSome threadIdx popCnt }).take s.calls.length
      { kind := .popSome threadIdx popCnt } threadIdx popCnt) := by
  have hbegin : TasksKept (s.begin { kind := .popSome threadIdx popCnt }) := h.begin rfl (.inl rfl)
  obtain ⟨passed, after, hsplit⟩ := List.append_of_mem (List.mem_finRange threadIdx)
  refine hbegin.take ⟨⟨_, List.getElem?_concat_length, rfl, rfl⟩, ⟨passed, after, hsplit, .inl rfl, fun i _ => ?_⟩,
    Nat.le_of_eq (Nat.zero_add popCnt), rfl⟩
  exact takenBy_new h.byCalls i

theorem TasksKept.turn {threadIdx victim : Fin n} {stealCnt : Nat} {victims : List (Fin n)} {tasks : List F}
    (h : TasksKept s) (hc : s.calls[call]? = some ⟨.steal threadIdx stealCnt, victim :: victims, tasks⟩)
    (hvictim : victim ≠ threadIdx) :
    TasksKept (s.take call ⟨.steal threadIdx stealCnt, victims, tasks⟩ victim (stealCnt - tasks.length)) := by
  obtain ⟨passed, hsplit, hnone⟩ := h.ahead call _ hc
  have hbounded : tasks.length ≤ stealCnt := (h.own call _ hc).bounded
  refine h.take ⟨⟨_, hc, rfl, rfl⟩, ⟨passed, victims, hsplit, .inr rfl, fun i hi => ?_⟩,
    Nat.le_of_eq (Nat.add_sub_of_le hbounded), hvictim⟩
  exact hnone i (List.mem_cons_of_mem victim hi)

theorem taskQueueStep_kept {l : TaskQueueStep n F} (h : TasksKept s) (hn : taskQueueNext s l = some s') :
    TasksKept s' := by
  cases l with
  | push threadIdx cor =>
      cases hn
      exact h.push threadIdx cor
  | popSome threadIdx popCnt =>
      cases hn
      exact h.popSome threadIdx popCnt
  | steal threadIdx stealCnt =>
      cases hn
      exact h.begin rfl (.inr rfl)
  | turn call =>
      simp only [taskQueueNext] at hn
      split at hn
      · rename_i threadIdx stealCnt victim victims tasks hc
        split at hn
        · cases hn
          exact h.setCall hc rfl rfl (List.nil_suffix)
        · split at hn
          · cases hn
            exact h.setCall hc rfl rfl (List.suffix_cons victim victims)
          · rename_i hvictim
            cases hn
            exact h.turn hc hvictim
      · cases hn

/-- In every run, over any number of queues, no event is lost or taken twice, each queue gives its events out in
their order, and a call of `Steal` takes at most what it asked for, and nothing from its own queue. -/
theorem events_conserved (h : Reachable taskQueueNext TaskQueueStart anyStep s) : EventsConserved s := by
  refine (h.invariant (I := TasksKept) ?_ fun _ _ _ hI _ hn => taskQueueStep_kept hI hn).toEventsConserved
  rintro s rfl
  exact ⟨⟨by simp [CoroutineTaskQueue.new], fun _ => rfl, nofun, nofun⟩, nofun⟩

/-- A call steals two of the three events of two other queues. -/
def stealTwo : List (TaskQueueStep 3 Char) :=
  [.push 1 'a', .push 2 'b', .steal 0 2, .turn 0, .turn 0, .push 2 'c', .turn 0]

theorem events_conserved_steal : ∃ s : TaskQueueRun 3 Char, s.queue.tasks 2 = ['c'] ∧
    s.calls.map (fun c => c.tasks) = [['a', 'b']] ∧ EventsConserved s := by
  obtain ⟨s, hs, hqueue, hcalls⟩ : ∃ s, runLabels taskQueueNext {} stealTwo = some s ∧ s.queue.tasks 2 = ['c'] ∧
      s.calls.map (fun c => c.tasks) = [['a', 'b']] := ⟨_, rfl, rfl, rfl⟩
  exact ⟨s, hqueue, hcalls, events_conserved ((Reachable.start taskQueueStart_new).of_run hs)⟩

end Tirpc
