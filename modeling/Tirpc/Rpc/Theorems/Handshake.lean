import Tirpc.Lib.Transition
import Tirpc.Rpc.AsyncChannel

/-!
# Does a caller that waits get its completion?

`Wait` and the completion task read each other's flag behind writing their own. This is safe as long as no access
of the one falls between the two of the other, which holds when both run on one thread. The completion task runs on
the thread that the channel was made on, and the caller may have moved to another.
-/

namespace Tirpc

open Lib

variable {T A : Type}

/-- `Wait` has only returned behind `is_finished_`, the completion task has resumed the caller at most once, and in
`Wait`, and it has not left it there. -/
structure Handshake (s : AsyncCall T A) : Prop where
  waited : s.waited = true → s.channel.isFinished = true
  once : s.resumes.length ≤ 1
  suspended : ∀ place ∈ s.resumes, place = .waiting
  left : s.completion = .done → s.caller ≠ .waiting

/-- `Wait` does not begin between the two accesses of the completion task. The task does not set its flag between
the two accesses of `Wait`, and does not read the other before `Wait` has yielded. Nobody else resumes the caller
in `Wait`. -/
def Timely (s : AsyncCall T A) : AsyncStep T → Prop
  | .setNeedResume => s.completion ≠ .finishedSet
  | .setFinished => ∀ t ∈ s.caller.thread, s.caller ≠ .waitSet t
  | .checkNeedResume => ∀ t ∈ s.caller.thread, s.caller ≠ .yielding t
  | .wake _ => s.caller ≠ .waiting
  | _ => True

instance [DecidableEq T] (s : AsyncCall T A) : (l : AsyncStep T) → Decidable (Timely s l)
  | .setNeedResume => inferInstanceAs (Decidable (_ ≠ _))
  | .setFinished | .checkNeedResume => inferInstanceAs (Decidable (∀ t ∈ s.caller.thread, _ ≠ _))
  | .wake _ => inferInstanceAs (Decidable (_ ≠ _))
  | .saveCallee | .callMethod .. | .suspend | .checkFinished | .yield | .post | .runClosure =>
      inferInstanceAs (Decidable True)

/-! ## What a step can do -/

inductive AsyncEffect (s : AsyncCall T A) : AsyncStep T → AsyncCall T A → Prop
  | saveCallee {t : T} (hc : s.caller = .running t) (h : ¬s.Called) :
      AsyncEffect s .saveCallee { s with channel := s.channel.saveCallee }
  | callMethod {t : T} {runtimeMsgNo : Option Bytes} {genMsgNumber : MsgNumber} (hc : s.caller = .running t)
      (h : ¬s.Called) : AsyncEffect s (.callMethod runtimeMsgNo genMsgNumber) (s.callMethod runtimeMsgNo genMsgNumber)
  | suspend {t : T} (hc : s.caller = .running t) : AsyncEffect s .suspend { s with caller := .hooked }
  | wake {t : T} (hc : s.caller.thread = none) (h : t = s.channel.currentIothread → ¬s.InCompletion) :
      AsyncEffect s (.wake t) (s.resumeCaller t)
  | setNeedResume {t : T} (hc : s.caller = .running t) (h : s.Called) :
      AsyncEffect s .setNeedResume
        { s with channel := { s.channel with needResume := true }, caller := .waitSet t }
  | checkFinished {t : T} (hc : s.caller = .waitSet t) : AsyncEffect s .checkFinished (s.checkFinished t)
  | yield {t : T} (hc : s.caller = .yielding t) : AsyncEffect s .yield { s with caller := .waiting }
  | post (h : s.completion = .requested) : AsyncEffect s .post { s with completion := .posted }
  | runClosure (ht : s.TaskRuns) (h : s.completion = .posted) :
      AsyncEffect s .runClosure { s with completion := .closureRun }
  | setFinished (ht : s.TaskRuns) (h : s.completion = .closureRun) :
      AsyncEffect s .setFinished { s with channel := s.channel.setFinished true, completion := .finishedSet }
  | checkNeedResume (ht : s.TaskRuns) (h : s.completion = .finishedSet) :
      AsyncEffect s .checkNeedResume s.checkNeedResume

variable {s s' : AsyncCall T A} {l : AsyncStep T}

theorem callerStep_effect {place : CallerPlace T} (hplace : s.caller = place) (hn : s.callerStep l place = some s') :
    AsyncEffect s l s' := by
  cases place with
  | running t =>
      cases l with
      | saveCallee =>
          obtain ⟨h, hn⟩ := Option.ite_none_left_eq_some.mp hn
          cases hn
          exact .saveCallee hplace h
      | callMethod runtimeMsgNo genMsgNumber =>
          obtain ⟨h, hn⟩ := Option.ite_none_left_eq_some.mp hn
          cases hn
          exact .callMethod hplace h
      | suspend =>
          cases hn
          exact .suspend hplace
      | setNeedResume =>
          obtain ⟨h, hn⟩ := Option.ite_none_right_eq_some.mp hn
          cases hn
          exact .setNeedResume hplace h
      | _ => cases hn
  | hooked => cases l <;> cases hn
  | waitSet t =>
      cases l with
      | checkFinished =>
          cases hn
          exact .checkFinished hplace
      | _ => cases hn
  | yielding t =>
      cases l with
      | yield =>
          cases hn
          exact .yield hplace
      | _ => cases hn
  | waiting => cases l <;> cases hn

theorem completionStep_effect {place : CompletionPlace} (hplace : s.completion = place) (ht : s.TaskRuns)
    (hn : s.completionStep l place = some s') : AsyncEffect s l s' := by
  cases place with
  | posted =>
      cases l with
      | runClosure =>
          cases hn
          exact .runClosure ht hplace
      | _ => cases hn
  | closureRun =>
      cases l with
      | setFinished =>
          cases hn
          exact .setFinished ht hplace
      | _ => cases hn
  | finishedSet =>
      cases l with
      | checkNeedResume =>
          cases hn
          exact .checkNeedResume ht hplace
      | _ => cases hn
  | _ => cases l <;> cases hn

theorem asyncNext_effect [DecidableEq T] (hn : asyncNext s l = some s') : AsyncEffect s l s' := by
  cases l with
  | wake t =>
      obtain ⟨⟨hc, h⟩, hn⟩ := Option.ite_none_right_eq_some.mp hn
      cases hn
      exact .wake hc fun ht hin => h ⟨hin, ht⟩
  | post =>
      obtain ⟨h, hn⟩ := Option.ite_none_right_eq_some.mp hn
      cases hn
      exact .post h
  | runClosure =>
      obtain ⟨ht, hn⟩ := Option.ite_none_right_eq_some.mp hn
      exact completionStep_effect rfl ht hn
  | setFinished =>
      obtain ⟨ht, hn⟩ := Option.ite_none_right_eq_some.mp hn
      exact completionStep_effect rfl ht hn
  | checkNeedResume =>
      obtain ⟨ht, hn⟩ := Option.ite_none_right_eq_some.mp hn
      exact completionStep_effect rfl ht hn
  | _ => exact callerStep_effect rfl hn

/-! ## The flags and the places -/

namespace CallerPlace

/-- In `Wait`, behind its check. -/
def Unfinished : CallerPlace T → Prop
  | .yielding _ | .waiting => True
  | .running _ | .hooked | .waitSet _ => False

def InWait : CallerPlace T → Prop
  | .waitSet _ | .yielding _ | .waiting => True
  | .running _ | .hooked => False

end CallerPlace

/-- What the completion has done up to its place. -/
def Completed (s : AsyncCall T A) : CompletionPlace → Prop
  | .notCalled => (s.waited = true → s.channel.isFinished = true) ∧ ¬s.caller.Unfinished ∧ s.resumes = []
  | .requested | .posted | .closureRun => s.channel.isFinished = false ∧ s.waited = false ∧ s.resumes = []
  | .finishedSet =>
      s.channel.isFinished = true ∧ s.waited = false ∧ (∀ t, s.caller ≠ .waitSet t) ∧ s.resumes = []
  | .done =>
      s.channel.isFinished = true ∧ ¬s.caller.Unfinished ∧ (s.resumes = [] ∨ s.resumes = [.waiting])

/-- `need_resume_` tells that the caller has been in `Wait`. -/
structure Synced (s : AsyncCall T A) : Prop where
  completed : Completed s s.completion
  needResume : s.channel.needResume = true → s.waited = true ∨ s.caller.InWait
  inWait : s.caller.InWait → s.channel.needResume = true ∧ s.Called

theorem Synced.handshake (h : Synced s) : Handshake s := by
  have hc := h.completed
  cases hplace : s.completion with
  | notCalled =>
      rw [hplace] at hc
      obtain ⟨hw, -, hr⟩ := hc
      exact ⟨hw, by simp [hr], by simp [hr], by simp [hplace]⟩
  | finishedSet =>
      rw [hplace] at hc
      obtain ⟨hf, -, -, hr⟩ := hc
      exact ⟨fun _ => hf, by simp [hr], by simp [hr], by simp [hplace]⟩
  | done =>
      rw [hplace] at hc
      obtain ⟨hf, hu, hr⟩ := hc
      refine ⟨fun _ => hf, ?_, ?_, fun _ hwaiting => hu (by rw [hwaiting]; trivial)⟩
      · rcases hr with hr | hr <;> simp [hr]
      · rcases hr with hr | hr <;> simp [hr]
  | _ =>
      rw [hplace] at hc
      obtain ⟨-, hw, hr⟩ := hc
      exact ⟨by simp [hw], by simp [hr], by simp [hr], by simp [hplace]⟩

theorem synced_start (h : AsyncStart s) : Synced s := by
  obtain ⟨thread, controller, rfl⟩ := h
  exact ⟨⟨nofun, id, rfl⟩, nofun, nofun⟩

/-- The step of a caller that does not come behind the check. -/
theorem Completed.caller {channel : RpcAsyncChannel T} {controller : RpcController A} {caller : CallerPlace T}
    {place : CompletionPlace} (h : Completed s place) (hf : channel.isFinished = s.channel.isFinished)
    (hu : caller.Unfinished → s.caller.Unfinished)
    (hset : place = .finishedSet → ∀ t, caller = .waitSet t → s.caller = .waitSet t) :
    Completed { s with channel := channel, controller := controller, caller := caller } place := by
  cases place with
  | notCalled => exact ⟨fun hw => hf.trans (h.1 hw), fun hc => h.2.1 (hu hc), h.2.2⟩
  | finishedSet => exact ⟨hf.trans h.1, h.2.1, fun t hc => h.2.2.1 t (hset rfl t hc), h.2.2.2⟩
  | done => exact ⟨hf.trans h.1, fun hc => h.2.1 (hu hc), h.2.2⟩
  | _ => exact ⟨hf.trans h.1, h.2⟩

theorem CallerPlace.Unfinished.inWait {place : CallerPlace T} (h : place.Unfinished) : place.InWait := by
  cases place with
  | yielding t => trivial
  | waiting => trivial
  | _ => cases h

theorem Synced.waited_of_out (h : Synced s) (hneed : s.channel.needResume = true) (hout : ¬s.caller.InWait) :
    s.waited = true := (h.needResume hneed).resolve_right hout

theorem hooked_of_suspended (hthread : s.caller.thread = none) (hwait : s.caller ≠ .waiting) : s.caller = .hooked := by
  cases hc : s.caller with
  | hooked => rfl
  | waiting => exact absurd hc hwait
  | _ =>
      rw [hc] at hthread
      cases hthread

theorem resumeCaller_hooked {t : T} (hc : s.caller = .hooked) : s.resumeCaller t = { s with caller := .running t } := by
  simp [AsyncCall.resumeCaller, hc, CallerPlace.resume]

theorem Synced.callMethod {runtimeMsgNo : Option Bytes} {genMsgNumber : MsgNumber} {t : T} (h : Synced s)
    (hc : s.caller = .running t) (hcalled : ¬s.Called) : Synced (s.callMethod runtimeMsgNo genMsgNumber) := by
  obtain ⟨hplace, hf⟩ := not_or.mp hcalled
  have hnot : s.completion = .notCalled := not_not.mp hplace
  have hcompleted := h.completed
  rw [hnot] at hcompleted
  obtain ⟨hw, hu, hr⟩ := hcompleted
  have hout : ¬s.caller.InWait := by
    rw [hc]
    exact id
  simp only [AsyncCall.callMethod]
  split
  · refine ⟨?_, h.needResume, fun hin => absurd hin hout⟩
    rw [hnot]
    exact ⟨fun _ => rfl, hu, hr⟩
  · exact ⟨⟨Bool.not_eq_true _ ▸ hf, Bool.not_eq_true _ ▸ fun hwaited => hf (hw hwaited), hr⟩, h.needResume,
      fun hin => absurd hin hout⟩

/-- The check finds the flag set behind a call that was not prepared, or behind the whole completion task. -/
theorem Synced.checkFinished {t : T} (h : Synced s) (hc : s.caller = .waitSet t) : Synced (s.checkFinished t) := by
  have hcompleted := h.completed
  obtain ⟨hneed, hcalled⟩ := h.inWait (by rw [hc]; trivial)
  simp only [AsyncCall.checkFinished]
  split
  · rename_i hf
    refine ⟨?_, fun _ => .inl rfl, nofun⟩
    cases hplace : s.completion with
    | notCalled =>
        rw [hplace] at hcompleted
        exact ⟨fun _ => hf, id, hcompleted.2.2⟩
    | finishedSet =>
        rw [hplace] at hcompleted
        exact absurd hc (hcompleted.2.2.1 t)
    | done =>
        rw [hplace] at hcompleted
        exact ⟨hf, id, hcompleted.2.2⟩
    | _ =>
        rw [hplace] at hcompleted
        rw [hcompleted.1] at hf
        cases hf
  · rename_i hf
    refine ⟨?_, fun _ => .inr trivial, fun _ => ⟨hneed, hcalled⟩⟩
    cases hplace : s.completion with
    | notCalled => exact absurd (hcalled.resolve_left (not_not.mpr hplace)) hf
    | finishedSet =>
        rw [hplace] at hcompleted
        exact absurd hcompleted.1 hf
    | done =>
        rw [hplace] at hcompleted
        exact absurd hcompleted.1 hf
    | _ =>
        rw [hplace] at hcompleted
        exact hcompleted

/-- The task finds the caller in `Yield`, or the caller has not come to `Wait`. -/
theorem Synced.checkNeedResume (h : Synced s) (hplace : s.completion = .finishedSet)
    (hyield : ∀ t, s.caller ≠ .yielding t) : Synced s.checkNeedResume := by
  have hcompleted := h.completed
  rw [hplace] at hcompleted
  obtain ⟨hf, hw, hset, hr⟩ := hcompleted
  simp only [AsyncCall.checkNeedResume]
  split
  · rename_i hneed
    have hin : s.caller.InWait := (h.needResume hneed).resolve_left (by simp [hw])
    cases hc : s.caller with
    | waitSet t => exact absurd hc (hset t)
    | yielding t => exact absurd hc (hyield t)
    | waiting =>
        simp only [AsyncCall.resumeCaller, hc, CallerPlace.resume]
        exact ⟨⟨hf, id, .inr (by rw [hr]; rfl)⟩, fun _ => .inl (Bool.or_true _), nofun⟩
    | _ =>
        rw [hc] at hin
        cases hin
  · rename_i hneed
    have hout : ¬s.caller.InWait := fun hin => hneed (h.inWait hin).1
    exact ⟨⟨hf, fun hu => hout hu.inWait, .inl hr⟩, h.needResume, fun hin => absurd hin hout⟩

theorem synced_step (h : Synced s) (hok : Timely s l) (hn : AsyncEffect s l s') : Synced s' := by
  have hcompleted := h.completed
  cases hn with
  | saveCallee hc hcalled => exact ⟨hcompleted.caller rfl id fun _ _ => id, h.needResume, h.inWait⟩
  | callMethod hc hcalled => exact h.callMethod hc hcalled
  | suspend hc =>
      exact ⟨hcompleted.caller rfl nofun nofun, fun hr => .inl (h.waited_of_out hr (by rw [hc]; exact id)), nofun⟩
  | wake hthread ht =>
      have hc : s.caller = .hooked := hooked_of_suspended hthread hok
      rw [resumeCaller_hooked hc]
      exact ⟨hcompleted.caller rfl nofun nofun, fun hr => .inl (h.waited_of_out hr (by rw [hc]; exact id)), nofun⟩
  | setNeedResume hc hcalled =>
      exact ⟨hcompleted.caller rfl nofun fun hset => absurd hset hok, fun _ => .inr trivial, fun _ => ⟨rfl, hcalled⟩⟩
  | checkFinished hc => exact h.checkFinished hc
  | yield hc =>
      have hin : s.caller.Unfinished := by
        rw [hc]
        trivial
      exact ⟨hcompleted.caller rfl (fun _ => hin) nofun, fun _ => .inr trivial, fun _ => h.inWait hin.inWait⟩
  | post hplace =>
      rw [hplace] at hcompleted
      exact ⟨hcompleted, h.needResume, fun hin => ⟨(h.inWait hin).1, .inl nofun⟩⟩
  | runClosure ht hplace =>
      rw [hplace] at hcompleted
      exact ⟨hcompleted, h.needResume, fun hin => ⟨(h.inWait hin).1, .inl nofun⟩⟩
  | setFinished ht hplace =>
      rw [hplace] at hcompleted
      exact ⟨⟨rfl, hcompleted.2.1, fun t hc => hok t (by rw [hc]; rfl) hc, hcompleted.2.2⟩, h.needResume,
        fun hin => ⟨(h.inWait hin).1, .inl nofun⟩⟩
  | checkNeedResume ht hplace => exact h.checkNeedResume hplace fun t hc => hok t (by rw [hc]; rfl) hc

/-! ## Runs -/

/-- In every run whose steps are timely, the handshake is kept in every state reached. -/
theorem handshake_timely [DecidableEq T] (h : Reachable asyncNext AsyncStart Timely s) : Handshake s := by
  have hsynced : Synced s :=
    h.invariant (fun _ hs => synced_start hs) fun _ _ _ hI hok hn => synced_step hI hok (asyncNext_effect hn)
  exact hsynced.handshake

/-- A channel that was made on thread `true`, in its first call. -/
def callFromTrue : AsyncCall Bool Nat where
  channel := { currentIothread := true }
  caller := .running true

theorem callFromTrue_start : AsyncStart callFromTrue := ⟨true, {}, rfl⟩

/-- The caller is stolen by thread `false` while a hook has suspended it, and checks the flag there. -/
def stolenCaller : List (AsyncStep Bool) :=
  [.saveCallee, .callMethod none ⟨text "1", MsgNumber.digits_one⟩, .suspend, .wake false, .setNeedResume,
    .checkFinished]

/-- The caller has yielded when the completion task reads `need_resume_`. -/
theorem handshake_stolen : ∃ s : AsyncCall Bool Nat,
    s.completion = .done ∧ s.caller = .running true ∧ s.resumes = [.waiting] ∧ Handshake s := by
  let ls := stolenCaller ++ [.yield, .post, .runClosure, .setFinished, .checkNeedResume]
  obtain ⟨s, hs, hdone, hcaller, hr⟩ : ∃ s, runLabels asyncNext callFromTrue ls = some s ∧
      s.completion = .done ∧ s.caller = .running true ∧ s.resumes = [.waiting] := ⟨_, rfl, rfl, rfl, rfl⟩
  have hok : RunOk asyncNext Timely callFromTrue ls := by decide
  exact ⟨s, hdone, hcaller, hr, handshake_timely ((Reachable.start callFromTrue_start).of_runOk hok hs)⟩

/-- The completion task runs between the check and `Yield`: it resumes a caller that runs on another thread, which
then yields and is never resumed. -/
theorem handshake_missed : ∃ s : AsyncCall Bool Nat, Reachable asyncNext AsyncStart anyStep s ∧
    s.completion = .done ∧ s.caller = .waiting ∧ s.resumes = [.yielding false] ∧ ¬Handshake s := by
  let ls := stolenCaller ++ [.post, .runClosure, .setFinished, .checkNeedResume, .yield]
  obtain ⟨s, hs, hdone, hcaller, hr⟩ : ∃ s, runLabels asyncNext callFromTrue ls = some s ∧
      s.completion = .done ∧ s.caller = .waiting ∧ s.resumes = [.yielding false] := ⟨_, rfl, rfl, rfl, rfl⟩
  exact ⟨s, (Reachable.start callFromTrue_start).of_run hs, hdone, hcaller, hr, fun h => h.left hdone hcaller⟩

/-! ## On one thread -/

/-- The caller is resumed on its own thread, and not in `Wait`. -/
def StaysHome (s : AsyncCall T A) : AsyncStep T → Prop
  | .wake t => t = s.channel.currentIothread ∧ s.caller ≠ .waiting
  | _ => True

/-- The caller only runs on the thread of the channel, and not while the completion task does. -/
structure AtHome (s : AsyncCall T A) : Prop where
  thread : ∀ t ∈ s.caller.thread, t = s.channel.currentIothread
  apart : s.InCompletion → s.caller.thread = none

theorem AtHome.suspended (h : AtHome s) (ht : s.TaskRuns) : s.caller.thread = none := by
  cases hc : s.caller.thread with
  | none => rfl
  | some t => exact absurd (by rw [hc, h.thread t hc]) ht

theorem AtHome.goto {caller : CallerPlace T} {needResume waited : Bool} (h : AtHome s)
    (hthread : caller.thread = s.caller.thread) :
    AtHome { s with channel := { s.channel with needResume := needResume }, caller := caller, waited := waited } :=
  ⟨fun t ht => h.thread t (hthread ▸ ht), fun hin => hthread.trans (h.apart hin)⟩

theorem AtHome.timely (h : AtHome s) (hhome : StaysHome s l) (hn : AsyncEffect s l s') : Timely s l := by
  cases hn with
  | setNeedResume hc hcalled =>
      intro hset
      have hnone := h.apart (.inr hset)
      rw [hc] at hnone
      cases hnone
  | setFinished ht hplace =>
      intro t ht'
      rw [h.suspended ht] at ht'
      cases ht'
  | checkNeedResume ht hplace =>
      intro t ht'
      rw [h.suspended ht] at ht'
      cases ht'
  | wake hthread ht => exact hhome.2
  | _ => trivial

theorem atHome_step (h : AtHome s) (hhome : StaysHome s l) (hn : AsyncEffect s l s') : AtHome s' := by
  cases hn with
  | saveCallee hc hcalled => exact ⟨h.thread, h.apart⟩
  | callMethod hc hcalled =>
      simp only [AsyncCall.callMethod]
      split
      · exact ⟨h.thread, h.apart⟩
      · exact ⟨h.thread, by rintro (hin | hin) <;> cases hin⟩
  | suspend hc => exact ⟨nofun, fun _ => rfl⟩
  | wake hthread ht =>
      obtain ⟨rfl, hwait⟩ := hhome
      rw [resumeCaller_hooked (hooked_of_suspended hthread hwait)]
      exact ⟨fun t ht' => (Option.some.inj ht').symm, fun hin => absurd hin (ht rfl)⟩
  | setNeedResume hc hcalled => exact h.goto (by rw [hc]; rfl)
  | checkFinished hc =>
      simp only [AsyncCall.checkFinished]
      split
      · exact h.goto (by rw [hc]; rfl)
      · exact h.goto (by rw [hc]; rfl)
  | yield hc => exact ⟨nofun, fun _ => rfl⟩
  | post hplace => exact ⟨h.thread, by rintro (hin | hin) <;> cases hin⟩
  | runClosure ht hplace => exact ⟨h.thread, fun _ => h.suspended ht⟩
  | setFinished ht hplace => exact ⟨h.thread, fun _ => h.suspended ht⟩
  | checkNeedResume ht hplace =>
      have hnone := h.suspended ht
      simp only [AsyncCall.checkNeedResume]
      split
      · refine ⟨fun t ht' => ?_, by rintro (hin | hin) <;> cases hin⟩
        cases hc : s.caller with
        | hooked =>
            simp only [AsyncCall.resumeCaller, hc, CallerPlace.resume] at ht'
            exact (Option.some.inj ht').symm
        | waiting =>
            simp only [AsyncCall.resumeCaller, hc, CallerPlace.resume] at ht'
            exact (Option.some.inj ht').symm
        | _ =>
            rw [hc] at hnone
            cases hnone
      · exact ⟨h.thread, by rintro (hin | hin) <;> cases hin⟩

theorem atHome_start (h : AsyncStart s) : AtHome s := by
  obtain ⟨thread, controller, rfl⟩ := h
  exact ⟨fun t ht => (Option.some.inj ht).symm, by rintro (hin | hin) <;> cases hin⟩

/-- A caller that is not stolen, and that nobody else resumes in `Wait`, needs no luck. -/
theorem handshake_at_home [DecidableEq T] (h : Reachable asyncNext AsyncStart StaysHome s) : Handshake s := by
  have hboth : Synced s ∧ AtHome s := by
    refine h.invariant (I := fun s => Synced s ∧ AtHome s) (fun s hs => ⟨synced_start hs, atHome_start hs⟩) ?_
    rintro s s' l ⟨hsynced, hhome⟩ hok hn
    have heffect := asyncNext_effect hn
    exact ⟨synced_step hsynced (hhome.timely hok heffect) heffect, atHome_step hhome hok heffect⟩
  exact hboth.1.handshake

end Tirpc
