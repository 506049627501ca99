import Tirpc.Tcp.Closing

/-!
# Two threads that close one connection

`ShutdownConnection` checks the state and then sets it and calls `shutdown`, and `ClearClient` closes the
descriptor and then sets the state. When the two do not overlap, the state stays closed and a closed descriptor
is left alone.
-/

namespace Tirpc

open Lib

variable {s s' : ClosingConnection}

/-- The state never leaves `Closed`, and no `shutdown` comes after `close`. -/
structure ClosedForGood (s : ClosingConnection) : Prop where
  staysClosed : .closed ∈ s.sets → s.state = .closed
  leftAlone : s.calls.Pairwise fun call later => call = .close → later ≠ .shutdown

/-- `close` is not called while the main thread is in `ShutdownConnection`, and `ShutdownConnection` does not check
the state between `close` and `SetState(Closed)`. -/
def NoOverlap (s : ClosingConnection) : ClosingStep → Prop
  | .close => s.main = .idle
  | .shutdownConnection => s.io ≠ .closed
  | _ => True

instance (s : ClosingConnection) : (l : ClosingStep) → Decidable (NoOverlap s l)
  | .close => inferInstanceAs (Decidable (s.main = .idle))
  | .shutdownConnection => inferInstanceAs (Decidable (s.io ≠ .closed))
  | .setHalfClosing | .shutdown | .clearClientTimer | .input | .received _ | .clearClient | .setClosed =>
      inferInstanceAs (Decidable True)

/-! ## Before and behind `close` -/

/-- While the descriptor is open nothing has been closed; behind `close` the main thread is out of
`ShutdownConnection`. -/
inductive ClosedInOrder (s : ClosingConnection) : Prop
  | before (hio : s.io ≠ .closed ∧ s.io ≠ .yielded) (hstate : s.state ≠ .closed) (hsets : .closed ∉ s.sets)
      (hcalls : .close ∉ s.calls)
  | between (hio : s.io = .closed) (hmain : s.main = .idle) (hsets : .closed ∉ s.sets)
      (hcalls : s.calls.Pairwise fun call later => call = .close → later ≠ .shutdown)
  | behind (hio : s.io = .yielded) (hmain : s.main = .idle) (hstate : s.state = .closed)
      (hcalls : s.calls.Pairwise fun call later => call = .close → later ≠ .shutdown)

theorem pairwise_of_not_mem {α : Type} {a : α} {P : α → Prop} {l : List α} (h : a ∉ l) :
    l.Pairwise fun x y => x = a → P y :=
  List.Pairwise.imp_of_mem (R := fun _ _ => True) (fun hx _ _ he => absurd (he ▸ hx) h)
    (List.pairwise_of_forall fun _ _ => trivial)

theorem ClosedInOrder.closedForGood (h : ClosedInOrder s) : ClosedForGood s := by
  cases h with
  | before _ _ hsets hcalls => exact ⟨fun hm => absurd hm hsets, pairwise_of_not_mem hcalls⟩
  | between _ _ hsets hcalls => exact ⟨fun hm => absurd hm hsets, hcalls⟩
  | behind _ _ hstate hcalls => exact ⟨fun _ => hstate, hcalls⟩

/-- A step that changes none of what the order speaks of. -/
theorem ClosedInOrder.same (h : ClosedInOrder s) (hio : s'.io = s.io) (hmain : s.main = .idle → s'.main = .idle)
    (hstate : s'.state = s.state) (hsets : s'.sets = s.sets) (hcalls : s'.calls = s.calls) : ClosedInOrder s' := by
  cases h with
  | before hio' hstate' hsets' hcalls' =>
      exact .before (hio ▸ hio') (hstate ▸ hstate') (hsets ▸ hsets') (hcalls ▸ hcalls')
  | between hio' hmain' hsets' hcalls' =>
      exact .between (hio.trans hio') (hmain hmain') (hsets ▸ hsets') (hcalls ▸ hcalls')
  | behind hio' hmain' hstate' hcalls' =>
      exact .behind (hio.trans hio') (hmain hmain') (hstate.trans hstate') (hcalls ▸ hcalls')

/-- In `ShutdownConnection` the main thread is before `close`. -/
theorem ClosedInOrder.open_of_main (h : ClosedInOrder s) (hmain : s.main ≠ .idle) :
    (s.io ≠ .closed ∧ s.io ≠ .yielded) ∧ s.state ≠ .closed ∧ .closed ∉ s.sets ∧ .close ∉ s.calls := by
  cases h with
  | before hio hstate hsets hcalls => exact ⟨hio, hstate, hsets, hcalls⟩
  | between _ hidle => exact absurd hidle hmain
  | behind _ hidle => exact absurd hidle hmain

theorem mainStep_inOrder {l : ClosingStep} (h : ClosedInOrder s) (hok : NoOverlap s l)
    (hn : s.mainNext l = some s') : ClosedInOrder s' := by
  cases l with
  | shutdownConnection =>
      obtain ⟨-, hn⟩ := Option.ite_none_right_eq_some.mp hn
      split at hn
      · cases hn
        exact h
      · rename_i hopen
        cases hn
        cases h with
        | before hio hstate hsets hcalls => exact .before hio hstate hsets hcalls
        | between hio => exact absurd hio hok
        | behind _ _ hstate => exact absurd (.inl hstate) hopen
  | setHalfClosing =>
      obtain ⟨hmain, hn⟩ := Option.ite_none_right_eq_some.mp hn
      cases hn
      obtain ⟨hio, -, hsets, hcalls⟩ := h.open_of_main (by rw [hmain]; nofun)
      refine .before hio nofun (fun hm => ?_) hcalls
      rcases List.mem_append.mp hm with hm | hm
      · exact hsets hm
      · cases List.mem_singleton.mp hm
  | shutdown =>
      obtain ⟨hmain, hn⟩ := Option.ite_none_right_eq_some.mp hn
      cases hn
      obtain ⟨hio, hstate, hsets, hcalls⟩ := h.open_of_main (by rw [hmain]; nofun)
      refine .before hio hstate hsets fun hm => ?_
      rcases List.mem_append.mp hm with hm | hm
      · exact hcalls hm
      · cases List.mem_singleton.mp hm
  | clearClientTimer =>
      obtain ⟨-, hn⟩ := Option.ite_none_right_eq_some.mp hn
      cases hn
      exact h.same rfl id rfl rfl rfl
  | _ => cases hn

/-- The IO thread goes on to a place before `close`. -/
theorem ClosedInOrder.goto {place : InputPlace} (h : ClosedInOrder s) (hio : s.io ≠ .closed ∧ s.io ≠ .yielded)
    (hplace : place ≠ .closed ∧ place ≠ .yielded) : ClosedInOrder { s with io := place } := by
  cases h with
  | before _ hstate hsets hcalls => exact .before hplace hstate hsets hcalls
  | between hclosed => exact absurd hclosed hio.1
  | behind hyielded => exact absurd hyielded hio.2

theorem ioStep_inOrder {l : ClosingStep} (h : ClosedInOrder s) (hok : NoOverlap s l)
    (hn : s.ioNext l = some s') : ClosedInOrder s' := by
  cases l with
  | input =>
      obtain ⟨⟨hio, -⟩, hn⟩ := Option.ite_none_right_eq_some.mp hn
      split at hn
      · cases hn
        exact h
      · cases hn
        exact h.goto (by rw [hio]; exact ⟨nofun, nofun⟩) ⟨nofun, nofun⟩
  | received rt =>
      obtain ⟨hio, hn⟩ := Option.ite_none_right_eq_some.mp hn
      cases hn
      refine h.goto (by rw [hio]; exact ⟨nofun, nofun⟩) ?_
      split <;> exact ⟨nofun, nofun⟩
  | clearClient =>
      obtain ⟨hio, hn⟩ := Option.ite_none_right_eq_some.mp hn
      cases hn
      cases h with
      | before hio' hstate hsets hcalls =>
          rw [if_neg hstate]
          exact .before ⟨nofun, nofun⟩ hstate hsets hcalls
      | between hclosed => cases hio.symm.trans hclosed
      | behind hyielded => cases hio.symm.trans hyielded
  | close =>
      obtain ⟨hio, hn⟩ := Option.ite_none_right_eq_some.mp hn
      cases hn
      cases h with
      | before _ hstate hsets hcalls =>
          refine .between rfl hok hsets (List.pairwise_append.mpr ⟨pairwise_of_not_mem hcalls, ?_, ?_⟩)
          · exact List.pairwise_singleton _ _
          · intro call hcall _ _ he
            exact absurd (he ▸ hcall) hcalls
      | between hclosed => cases hio.symm.trans hclosed
      | behind hyielded => cases hio.symm.trans hyielded
  | setClosed =>
      obtain ⟨hio, hn⟩ := Option.ite_none_right_eq_some.mp hn
      cases hn
      cases h with
      | before hopen => exact absurd hio hopen.1
      | between _ hmain _ hcalls => exact .behind rfl hmain rfl hcalls
      | behind hyielded => cases hio.symm.trans hyielded
  | _ => cases hn

/-- In every run without an overlap, a closed connection stays closed and its descriptor is left alone. -/
theorem closed_for_good (h : Reachable closingNext ClosingStart NoOverlap s) : ClosedForGood s := by
  refine (h.invariant (I := ClosedInOrder) ?_ fun s s' l hI hok hn => ?_).closedForGood
  · rintro s rfl
    exact .before ⟨nofun, nofun⟩ nofun nofun nofun
  · cases l with
    | shutdownConnection => exact mainStep_inOrder hI hok hn
    | setHalfClosing => exact mainStep_inOrder hI hok hn
    | shutdown => exact mainStep_inOrder hI hok hn
    | clearClientTimer => exact mainStep_inOrder hI hok hn
    | input => exact ioStep_inOrder hI hok hn
    | received rt => exact ioStep_inOrder hI hok hn
    | clearClient => exact ioStep_inOrder hI hok hn
    | close => exact ioStep_inOrder hI hok hn
    | setClosed => exact ioStep_inOrder hI hok hn

/-- The time wheel lets the connection go, and the peer answers with the end of the stream. -/
def timedOut : List ClosingStep :=
  [.input, .shutdownConnection, .setHalfClosing, .shutdown, .received 0, .clearClient, .close, .setClosed,
    .shutdownConnection, .clearClientTimer]

theorem closed_for_good_timed_out : ∃ s : ClosingConnection, s.sets = [.halfClosing, .closed] ∧
    s.calls = [.shutdown, .close] ∧ ClosedForGood s := by
  obtain ⟨s, hs, hsets, hcalls⟩ : ∃ s, runLabels closingNext {} timedOut = some s ∧
      s.sets = [.halfClosing, .closed] ∧ s.calls = [.shutdown, .close] := ⟨_, rfl, rfl, rfl⟩
  have hok : RunOk closingNext NoOverlap {} timedOut := by decide
  exact ⟨s, hsets, hcalls, closed_for_good ((Reachable.start closingStart_new).of_runOk hok hs)⟩

/-- The peer closes while the main thread stands between its check and `SetState`. -/
def overtaken : List ClosingStep :=
  [.input, .shutdownConnection, .received 0, .clearClient, .close, .setClosed, .setHalfClosing, .shutdown]

theorem reopened_after_close : ∃ s : ClosingConnection,
    Reachable closingNext ClosingStart anyStep s ∧ s.state = .halfClosing ∧ ¬ClosedForGood s := by
  obtain ⟨s, hs, hsets, hstate⟩ : ∃ s, runLabels closingNext {} overtaken = some s ∧
      s.sets = [.closed, .halfClosing] ∧ s.state = .halfClosing := ⟨_, rfl, rfl, rfl⟩
  refine ⟨s, (Reachable.start closingStart_new).of_run hs, hstate, fun h => ?_⟩
  have hclosed := h.staysClosed (by rw [hsets]; exact List.mem_cons_self)
  cases hstate.symm.trans hclosed

end Tirpc
