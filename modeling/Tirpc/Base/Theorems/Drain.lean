import Mathlib.Data.List.Induction
import Tirpc.Base.Reactor

/-!
# Does the order of the requests survive the queue?

For one descriptor, the queue keeps the first addition and whether there was a deletion, and the deletion
comes last. So the last request must be a deletion, or there was none and it is no different from the
first.
-/

namespace Tirpc

open Lib

variable {ε : Type}

/-! ## One descriptor -/

/-- What the reactor and the kernel know of a descriptor. -/
structure Watch (ε : Type) where
  inFds : Bool
  mask : Option ε
  deriving DecidableEq, Repr

namespace Watch

/-- A request: `some` is an addition, `none` a deletion. -/
def step (w : Watch ε) : Option ε → Watch ε
  | some event =>
      match w.inFds, w.mask with
      | true, some _ => { inFds := true, mask := some event }
      | false, none => { inFds := true, mask := some event }
      | _, _ => w
  | none => if w.inFds then { inFds := false, mask := none } else w

/-- What a drain makes of the requests: the first addition, and then the deletions. -/
def drained (w : Watch ε) (cs : List (Option ε)) : Watch ε :=
  let added := (cs.find? Option.isSome).elim w w.step
  if cs.any Option.isNone then added.step none else added

/-- The kernel watches a descriptor that the reactor does not know: every `epoll_ctl` is refused. -/
def Unknown (w : Watch ε) : Prop := w.inFds = false ∧ w.mask ≠ none

/-- The kernel has dropped a descriptor, as it does when that is closed, and the reactor has not. -/
def Forgotten (w : Watch ε) : Prop := w.inFds = true ∧ w.mask = none

/-- If the last request is an addition, no deletion is among the requests and the first addition is no
different. -/
def OrderFits (w : Watch ε) (cs : List (Option ε)) : Prop :=
  ∀ event, cs.getLast? = some (some event) →
    w.Unknown ∨ none ∉ cs ∧ (cs.head? = some (some event) ∨ w.Forgotten)

/-- What a request leaves of a descriptor on which the reactor and the kernel agree. -/
def after : Option ε → Watch ε
  | some event => { inFds := true, mask := some event }
  | none => { inFds := false, mask := none }

variable {w : Watch ε} {cs : List (Option ε)} {c : Option ε}

theorem step_unknown (h : w.Unknown) : w.step c = w := by
  obtain ⟨b, m⟩ := w
  obtain ⟨rfl, hm⟩ := h
  cases m with
  | none => exact absurd rfl hm
  | some e => cases c <;> rfl

theorem step_settled (h1 : ¬w.Unknown) (h2 : ¬w.Forgotten) : w.step c = after c := by
  obtain ⟨b, m⟩ := w
  cases b <;> cases m <;> cases c <;> simp_all [Unknown, Forgotten, step, after]

theorem step_forgotten (h : w.Forgotten) : w.step c = if c = none then after none else w := by
  obtain ⟨b, m⟩ := w
  obtain ⟨rfl, rfl⟩ := h
  cases c <;> simp [step, after]

theorem step_del (h : ¬w.Unknown) : w.step none = after none := by
  by_cases hf : w.Forgotten
  · simp [step_forgotten hf]
  · exact step_settled h hf

theorem after_agrees : ¬(after c).Unknown ∧ ¬(after c).Forgotten := by
  cases c <;> simp [after, Unknown, Forgotten]

theorem foldl_unknown (h : w.Unknown) : cs.foldl step w = w := by
  induction cs with
  | nil => rfl
  | cons c cs ih => rw [List.foldl_cons, step_unknown h, ih]

theorem foldl_forgotten (h : w.Forgotten) (hn : none ∉ cs) : cs.foldl step w = w := by
  induction cs with
  | nil => rfl
  | cons c cs ih =>
      rw [List.mem_cons, not_or] at hn
      rw [List.foldl_cons, step_forgotten h, if_neg (Ne.symm hn.1), ih hn.2]

/-- Once the reactor and the kernel agree, they stay in agreement; a deletion makes them agree. -/
theorem foldl_agrees (hu : ¬w.Unknown) (h : ¬w.Forgotten ∨ none ∈ cs) :
    ¬(cs.foldl step w).Unknown ∧ ¬(cs.foldl step w).Forgotten := by
  induction cs generalizing w with
  | nil => exact ⟨hu, h.resolve_right List.not_mem_nil⟩
  | cons c cs ih =>
      rw [List.foldl_cons]
      by_cases hf : w.Forgotten
      · rw [step_forgotten hf]
        have hmem := h.resolve_left (not_not_intro hf)
        split
        · exact ih after_agrees.1 (.inl after_agrees.2)
        · rename_i hc
          exact ih hu (.inr (List.mem_of_ne_of_mem (Ne.symm hc) hmem))
      · rw [step_settled hu hf]
        exact ih after_agrees.1 (.inl after_agrees.2)

theorem foldl_concat (hu : ¬w.Unknown) (h : ¬w.Forgotten ∨ none ∈ cs) :
    (cs ++ [c]).foldl step w = after c := by
  obtain ⟨h1, h2⟩ := foldl_agrees hu h
  rw [List.foldl_concat, step_settled h1 h2]

/-! ## The requests in their order, and in that of the drain -/

theorem any_isNone : cs.any Option.isNone = true ↔ none ∈ cs := by simp

theorem drained_del (hu : ¬w.Unknown) (h : none ∈ cs) : w.drained cs = after none := by
  simp only [drained]
  rw [if_pos (any_isNone.mpr h)]
  refine step_del ?_
  cases cs.find? Option.isSome with
  | none => exact hu
  | some c =>
      by_cases hf : w.Forgotten
      · simp only [Option.elim_some, step_forgotten hf]
        split
        · exact after_agrees.1
        · exact hu
      · simp only [Option.elim_some, step_settled hu hf]
        exact after_agrees.1

theorem drained_add (h : none ∉ cs) : w.drained cs = cs.head?.elim w w.step := by
  simp only [drained]
  rw [if_neg (fun hn => h (any_isNone.mp hn))]
  cases cs with
  | nil => rfl
  | cons c cs =>
      cases c with
      | none => exact absurd List.mem_cons_self h
      | some e => rfl

theorem after_inj {c c' : Option ε} : (after c : Watch ε) = after c' ↔ c = c' := by
  cases c <;> cases c' <;> simp [after]

theorem foldl_eq_drained_iff : cs.foldl step w = w.drained cs ↔ w.OrderFits cs := by
  by_cases hu : w.Unknown
  · refine ⟨fun _ event _ => .inl hu, fun _ => ?_⟩
    rw [foldl_unknown hu, drained]
    have hadd : (cs.find? Option.isSome).elim w w.step = w := by
      cases cs.find? Option.isSome with
      | none => rfl
      | some c => exact step_unknown hu
    simp only [hadd, step_unknown hu, ite_self]
  · rcases List.eq_nil_or_concat' cs with rfl | ⟨l, c, rfl⟩
    · simp [OrderFits, drained]
    · simp only [OrderFits, List.getLast?_concat, Option.some.injEq, hu, false_or]
      by_cases hn : none ∈ l ++ [c]
      · rw [drained_del hu hn]
        have hfold : (l ++ [c]).foldl step w = after c := by
          by_cases hf : w.Forgotten
          · cases c with
            | none =>
                by_cases hl : none ∈ l
                · exact foldl_concat hu (.inr hl)
                · rw [List.foldl_concat, foldl_forgotten hf hl, step_del hu]
            | some e => exact foldl_concat hu (.inr (by simpa using hn))
          · exact foldl_concat hu (.inl hf)
        rw [hfold, after_inj]
        cases c with
        | none => simp
        | some e => simp [hn]
      · rw [drained_add hn]
        by_cases hf : w.Forgotten
        · rw [foldl_forgotten hf hn]
          cases hh : (l ++ [c]).head? with
          | none => simp [hn, hf]
          | some c' =>
              have hc : c' ≠ none := fun he => hn (he ▸ List.mem_of_mem_head? hh)
              simp [hn, hf, step_forgotten hf, hc]
        · rw [foldl_concat hu (.inl hf)]
          cases hh : (l ++ [c]).head? with
          | none => simp at hh
          | some c' =>
              simp only [Option.elim_some, step_settled hu hf, after_inj]
              cases c with
              | none => simp at hn
              | some e => simp [hn, hf, eq_comm]

end Watch

/-! ## The reactor, seen from one descriptor -/

/-- The request that a call makes for a descriptor; the number -1 is turned away. -/
def ReactorCall.about (fd : Int) : ReactorCall ε → Option (Option ε)
  | .add fd' event => if fd' = fd ∧ fd ≠ -1 then some (some event) else none
  | .del fd' => if fd' = fd ∧ fd ≠ -1 then some none else none

def callsAbout (fd : Int) (calls : List (ReactorCall ε)) : List (Option ε) :=
  calls.filterMap (ReactorCall.about fd)

def FdMap.get? (m : FdMap ε) (fd : Int) : Option ε := (m.entries.find? fun p => p.1 = fd).map Prod.snd

namespace Reactor

def watch (r : Reactor ε) (fd : Int) : Watch ε := { inFds := decide (fd ∈ r.fds), mask := r.interest fd }

variable {r : Reactor ε} {fd fd' : Int} {event : ε}

theorem watch_add : (r.addEventInLoopThread fd' event).watch fd =
    if fd' = fd then (r.watch fd).step (some event) else r.watch fd := by
  simp only [addEventInLoopThread]
  split
  · rename_i hmem
    split
    · rename_i m hm
      by_cases he : fd' = fd
      · subst he
        simp [watch, Watch.step, hmem, hm]
      · simp [watch, he, Ne.symm he]
    · rename_i hm
      split
      · rename_i he
        subst he
        simp [watch, Watch.step, hmem, hm]
      · rfl
  · rename_i hmem
    split
    · rename_i m hm
      split
      · rename_i he
        subst he
        simp [watch, Watch.step, hmem, hm]
      · rfl
    · rename_i hm
      by_cases he : fd' = fd
      · subst he
        simp [watch, Watch.step, hmem, hm]
      · simp [watch, he, Ne.symm he]

theorem watch_del : (r.delEventInLoopThread fd').watch fd =
    if fd' = fd then (r.watch fd).step none else r.watch fd := by
  simp only [delEventInLoopThread]
  split
  · rename_i hmem
    by_cases he : fd' = fd
    · subst he
      simp [watch, Watch.step, hmem, r.nodup.not_mem_erase]
    · simp [watch, he, Ne.symm he, List.mem_erase_of_ne (Ne.symm he)]
  · rename_i hmem
    split
    · rename_i he
      subst he
      simp [watch, Watch.step, hmem]
    · rfl

theorem watch_perform (c : ReactorCall ε) :
    (r.perform true c).watch fd = (c.about fd).elim (r.watch fd) (r.watch fd).step := by
  cases c with
  | add fd' event =>
      simp only [perform, addEvent, ReactorCall.about, ↓reduceIte]
      split
      · rename_i hneg
        rw [if_neg (by omega)]
        rfl
      · rename_i hneg
        rw [watch_add]
        by_cases he : fd' = fd
        · subst he
          rw [if_pos rfl, if_pos ⟨rfl, hneg⟩]
          rfl
        · rw [if_neg he, if_neg (fun h => he h.1)]
          rfl
  | del fd' =>
      simp only [perform, delEvent, ReactorCall.about, ↓reduceIte]
      split
      · rename_i hneg
        rw [if_neg (by omega)]
        rfl
      · rename_i hneg
        rw [watch_del]
        by_cases he : fd' = fd
        · subst he
          rw [if_pos rfl, if_pos ⟨rfl, hneg⟩]
          rfl
        · rw [if_neg he, if_neg (fun h => he h.1)]
          rfl

theorem watch_inOrder (calls : List (ReactorCall ε)) :
    (r.inOrder calls).watch fd = (callsAbout fd calls).foldl Watch.step (r.watch fd) := by
  induction calls generalizing r with
  | nil => rfl
  | cons c calls ih =>
      have hrest : (r.inOrder (c :: calls)).watch fd = ((r.perform true c).inOrder calls).watch fd := rfl
      rw [hrest, ih, watch_perform, callsAbout, callsAbout, List.filterMap_cons]
      cases c.about fd <;> rfl

/-! The requests on their way through the queue. -/

theorem get?_insert (m : FdMap ε) : (m.insert fd' event).get? fd =
    if fd' = fd then some ((m.get? fd).getD event) else m.get? fd := by
  obtain ⟨ps, hs⟩ := m
  simp only [FdMap.insert, FdMap.get?]
  induction ps with
  | nil => by_cases he : fd' = fd <;> simp [insertFd, he]
  | cons p ps ih =>
      obtain ⟨hp, hps⟩ := List.pairwise_cons.mp hs
      simp only [insertFd]
      split
      · rename_i hlt
        have hnone : (p :: ps).find? (fun q => q.1 = fd') = none := by
          rw [List.find?_eq_none]
          intro q hq
          cases List.mem_cons.mp hq with
          | inl hq => subst hq; simp only [decide_eq_true_eq]; omega
          | inr hq => have := hp q hq; simp only [decide_eq_true_eq]; omega
        by_cases he : fd' = fd
        · subst he
          simp [hnone]
        · simp [he]
      · split
        · rename_i heq
          by_cases he : fd' = fd
          · simp [he, heq ▸ he]
          · simp [he]
        · rename_i hne
          rw [List.find?_cons, List.find?_cons]
          by_cases hpf : p.1 = fd
          · have he : fd' ≠ fd := fun he => hne (he.trans hpf.symm)
            simp [hpf, he]
          · simpa [hpf] using ih hps

theorem queued_cons (c : ReactorCall ε) (calls : List (ReactorCall ε)) :
    r.queued (c :: calls) = (r.perform false c).queued calls := rfl

theorem queued_watch (calls : List (ReactorCall ε)) : (r.queued calls).watch fd = r.watch fd := by
  induction calls generalizing r with
  | nil => rfl
  | cons c calls ih =>
      rw [queued_cons, ih]
      cases c with
      | add fd' event => simp only [perform, addEvent]; split <;> rfl
      | del fd' => simp only [perform, delEvent]; split <;> rfl

/-- The queue keeps the first addition of a descriptor. -/
theorem queued_pendingAddFds (calls : List (ReactorCall ε)) :
    ((r.queued calls).pendingAddFds.get? fd).map some =
      ((r.pendingAddFds.get? fd).map some).or ((callsAbout fd calls).find? Option.isSome) := by
  induction calls generalizing r with
  | nil => simp [queued, callsAbout]
  | cons c calls ih =>
      rw [queued_cons, ih, callsAbout, callsAbout, List.filterMap_cons]
      cases c with
      | add fd' event =>
          by_cases hneg : fd' = -1
          · have hno : ¬(fd' = fd ∧ fd ≠ -1) := by omega
            simp [perform, addEvent, hneg, ReactorCall.about, hneg ▸ hno]
          · by_cases he : fd' = fd
            · subst he
              simp only [perform, addEvent, hneg, ↓reduceIte, Bool.false_eq_true, get?_insert,
                ReactorCall.about, ne_eq, not_false_eq_true, and_self]
              cases r.pendingAddFds.get? fd' <;> simp
            · simp [perform, addEvent, hneg, get?_insert, he, ReactorCall.about]
      | del fd' =>
          have hsame : ((r.perform false (.del fd')).pendingAddFds) = r.pendingAddFds := by
            simp only [perform, delEvent]
            split <;> rfl
          rw [hsame]
          by_cases hc : fd' = fd ∧ fd ≠ -1 <;> simp [ReactorCall.about, hc]

theorem queued_pendingDelFds (calls : List (ReactorCall ε)) (hneg : fd ≠ -1) :
    fd ∈ (r.queued calls).pendingDelFds ↔ fd ∈ r.pendingDelFds ∨ none ∈ callsAbout fd calls := by
  induction calls generalizing r with
  | nil => simp [queued, callsAbout]
  | cons c calls ih =>
      rw [queued_cons, ih, callsAbout, callsAbout, List.filterMap_cons]
      cases c with
      | add fd' event =>
          have hsame : ((r.perform false (.add fd' event)).pendingDelFds) = r.pendingDelFds := by
            simp only [perform, addEvent]
            split <;> rfl
          rw [hsame]
          by_cases hc : fd' = fd ∧ fd ≠ -1 <;> simp [ReactorCall.about, hc]
      | del fd' =>
          by_cases he : fd' = fd
          · subst he
            simp [perform, delEvent, hneg, ReactorCall.about]
          · have hne : fd ≠ fd' := Ne.symm he
            simp only [perform, delEvent, ReactorCall.about, he, false_and, ↓reduceIte, Bool.false_eq_true]
            split <;> simp [hne]

theorem queued_neg (calls : List (ReactorCall ε)) (h : -1 ∉ r.pendingDelFds) :
    -1 ∉ (r.queued calls).pendingDelFds := by
  induction calls generalizing r with
  | nil => exact h
  | cons c calls ih =>
      refine ih (r := r.perform false c) ?_
      cases c with
      | add fd' event => simp only [perform, addEvent]; split <;> exact h
      | del fd' =>
          simp only [perform, delEvent, Bool.false_eq_true, ↓reduceIte]
          split
          · exact h
          · rename_i hne
            simp [h, Ne.symm hne]

/-! ## The drain -/

theorem watch_foldl_add (m : FdMap ε) : (m.entries.foldl (fun r p => r.addEventInLoopThread p.1 p.2) r).watch fd =
    ((m.get? fd).map some).elim (r.watch fd) (r.watch fd).step := by
  obtain ⟨ps, hs⟩ := m
  simp only [FdMap.get?]
  induction ps generalizing r with
  | nil => rfl
  | cons p ps ih =>
      obtain ⟨hp, hps⟩ := List.pairwise_cons.mp hs
      rw [List.foldl_cons, ih hps, watch_add, List.find?_cons]
      by_cases he : p.1 = fd
      · have hnone : ps.find? (fun q => q.1 = fd) = none := by
          rw [List.find?_eq_none]
          intro q hq
          have := hp q hq
          simp only [decide_eq_true_eq]
          omega
        simp [he, hnone]
      · simp [he]

theorem watch_foldl_del (dels : List Int) : (dels.foldl delEventInLoopThread r).watch fd =
    if fd ∈ dels then (r.watch fd).step none else r.watch fd := by
  induction dels generalizing r with
  | nil => rfl
  | cons d dels ih =>
      have hidem : ((r.watch fd).step none).step none = (r.watch fd).step none := by
        simp only [Watch.step]
        split <;> simp_all
      rw [List.foldl_cons, ih, watch_del]
      by_cases he : d = fd
      · simp [he, hidem]
      · simp [he, Ne.symm he]

theorem adds_pending {ps : List (Int × ε)} (h : r.pendingAddFds = .empty ∧ r.pendingDelFds = []) :
    (ps.foldl (fun r p => r.addEventInLoopThread p.1 p.2) r).pendingAddFds = .empty ∧
      (ps.foldl (fun r p => r.addEventInLoopThread p.1 p.2) r).pendingDelFds = [] := by
  induction ps generalizing r with
  | nil => exact h
  | cons p ps ih =>
      refine ih (r := r.addEventInLoopThread p.1 p.2) ?_
      simp only [addEventInLoopThread]
      split <;> split <;> exact h

theorem dels_pending {dels : List Int} (h : r.pendingAddFds = .empty ∧ r.pendingDelFds = []) :
    (dels.foldl delEventInLoopThread r).pendingAddFds = .empty ∧
      (dels.foldl delEventInLoopThread r).pendingDelFds = [] := by
  induction dels generalizing r with
  | nil => exact h
  | cons d dels ih =>
      refine ih (r := r.delEventInLoopThread d) ?_
      simp only [delEventInLoopThread]
      split <;> exact h

/-- One drain has for each descriptor the effect of its first addition and then of its deletions. -/
theorem watch_drain (h0 : r.pendingAddFds = .empty) (h1 : r.pendingDelFds = []) (calls : List (ReactorCall ε)) :
    (r.queued calls).drain.watch fd = (r.watch fd).drained (callsAbout fd calls) := by
  have hadd : ((r.queued calls).pendingAddFds.get? fd).map some =
      (callsAbout fd calls).find? Option.isSome := by
    rw [queued_pendingAddFds, h0]
    rfl
  have hdel : fd ∈ (r.queued calls).pendingDelFds ↔ (callsAbout fd calls).any Option.isNone = true := by
    rw [Watch.any_isNone]
    by_cases hneg : fd = -1
    · subst hneg
      refine iff_of_false (queued_neg calls (by simp [h1])) fun hmem => ?_
      obtain ⟨c, -, hc⟩ := List.mem_filterMap.mp hmem
      cases c <;> simp [ReactorCall.about] at hc
    · simp [queued_pendingDelFds calls hneg, h1]
  have hsame : ({ r.queued calls with pendingAddFds := .empty, pendingDelFds := [] } : Reactor ε).watch fd =
      r.watch fd := queued_watch calls
  simp only [drain]
  rw [watch_foldl_del, watch_foldl_add, hadd, hsame, Watch.drained]
  simp only [hdel]

/-- A drain leaves nothing pending. -/
theorem drain_pending (r : Reactor ε) : r.drain.pendingAddFds = .empty ∧ r.drain.pendingDelFds = [] := by
  refine dels_pending ?_
  exact adds_pending ⟨rfl, rfl⟩

/-- After any drain, and for any calls of other threads: the next drain leaves what the calls would have
left one by one exactly if, for each descriptor, the last call is a deletion, or there was no deletion and
the first call is no different from the last. -/
theorem drain_in_order_iff (r : Reactor ε) (calls : List (ReactorCall ε)) :
    (∀ fd, (fd ∈ (r.drain.queued calls).drain.fds ↔ fd ∈ (r.drain.inOrder calls).fds) ∧
      (r.drain.queued calls).drain.interest fd = (r.drain.inOrder calls).interest fd) ↔
    ∀ fd, (r.drain.watch fd).OrderFits (callsAbout fd calls) := by
  have hempty := drain_pending r
  refine forall_congr' fun fd => ?_
  rw [← Watch.foldl_eq_drained_iff, ← watch_inOrder, ← watch_drain hempty.1 hempty.2]
  simp only [watch, Watch.mk.injEq, decide_eq_decide]
  refine and_congr ⟨?_, ?_⟩ eq_comm <;> exact fun h => h.symm

/-- A reactor that watches descriptor 7 for reading. -/
def watchesSeven : Reactor Nat :=
  { fds := [7], nodup := List.nodup_singleton 7, interest := fun fd => if fd = 7 then some 1 else none }

/-- Descriptor 7 is given up, its number comes back for a new connection, and the drain gives that up too. -/
theorem drain_loses_reused :
    ¬∀ fd, (fd ∈ (watchesSeven.drain.queued [.del 7, .add 7 1]).drain.fds ↔
        fd ∈ (watchesSeven.drain.inOrder [.del 7, .add 7 1]).fds) ∧
      (watchesSeven.drain.queued [.del 7, .add 7 1]).drain.interest fd =
        (watchesSeven.drain.inOrder [.del 7, .add 7 1]).interest fd := by
  intro h
  have hout : 7 ∉ (watchesSeven.drain.queued [.del 7, .add 7 1]).drain.fds := by decide
  have hin : 7 ∈ (watchesSeven.drain.inOrder [.del 7, .add 7 1]).fds := by decide
  exact hout ((h 7).1.mpr hin)

end Reactor

end Tirpc
