import Tirpc.Coroutine.Lemmas.Hook

/-!
# Is a coroutine run by one thread only?

`toEpoll` makes a coroutine known to a reactor before it yields. That does no harm on the reactor of its own
thread, which does not look before the coroutine has yielded. But the reactor of a descriptor is the one where
it was last used, and a coroutine that has been stolen may come back to it from another thread.
-/

namespace Tirpc

open Lib

variable {n : Nat} {C : Type}

namespace Process

/-- The next statement of the thread is `Coroutine::Resume` of the coroutine. -/
def Resumes (s : Process n C) (t : Thread n) (cor : C) : Prop :=
  (s.threads t).currentCoroutine = none ∧
    match (s.threads t).place with
    | .tasks (fd :: _) _ => (s.fdEvents fd).cor = some cor
    | .pendingTasks (front :: _) => front = cor
    | .events ((fd, event) :: _) =>
        t = .main ∧ (event.read || event.write) = true ∧ (s.fdEvents fd).cor = some cor
    | _ => False

/-- No two threads run a coroutine, and one that is about to be resumed is suspended and run by no thread. -/
structure OneThread (s : Process n C) : Prop where
  apart : ∀ t t' cor, (s.threads t).currentCoroutine = some cor → (s.threads t').currentCoroutine = some cor → t = t'
  resumes : ∀ t cor, s.Resumes t cor →
    (s.places cor).Suspended ∧ ∀ t', (s.threads t').currentCoroutine ≠ some cor

/-- The descriptor of the hook has the reactor of the thread, and no coroutine waits for it. -/
def OwnDescriptor (s : Process n C) (t : Thread n) : CorPlace Int → Prop
  | .hook fd _ => (∀ r ∈ (s.fdEvents fd).reactor, r = t) ∧ (s.fdEvents fd).cor = none
  | _ => True

instance [DecidableEq C] (s : Process n C) (t : Thread n) : (p : CorPlace Int) → Decidable (s.OwnDescriptor t p)
  | .hook _ _ => inferInstanceAs (Decidable (_ ∧ _))
  | .idle | .scheduled | .body | .registered _ _ | .waiting _ _ | .resumed _ _ => inferInstanceAs (Decidable True)

def RegistersOwn (s : Process n C) : ProcessStep n C → Prop
  | .toEpoll t => ∀ cor ∈ (s.threads t).currentCoroutine, s.OwnDescriptor t (s.places cor)
  | _ => True

instance [DecidableEq C] (s : Process n C) : (l : ProcessStep n C) → Decidable (s.RegistersOwn l)
  | .toEpoll t => inferInstanceAs (Decidable (∀ cor ∈ (s.threads t).currentCoroutine, s.OwnDescriptor t (s.places cor)))
  | .addCoroutine .. | .loop _ | .epollWait .. | .epollWaitFails _ | .hook .. | .hookReturns _ | .yield _
  | .afterYield _ | .unregister .. | .finish _ => inferInstanceAs (Decidable True)

variable {s s' : Process n C} {t : Thread n} {cor : C} {fd : Int}

theorem Kept.oneThread (h : s.Kept) : s.OneThread := by
  refine ⟨fun t t' cor => h.apart.once t t' cor, fun t cor hres => ?_⟩
  have hasleep : (s.places cor).Suspended → ∀ t', (s.threads t').currentCoroutine ≠ some cor := by
    intro hs t' hr
    have hawake := h.apart.awake t' cor hr
    simp only [whereabouts] at hawake
    cases hp : s.places cor <;> simp_all [CorPlace.Awake, CorPlace.Suspended]
  suffices hs : (s.places cor).Suspended from ⟨hs, hasleep hs⟩
  obtain ⟨hrun, hplace⟩ := hres
  split at hplace
  · rename_i fd tasks popped hp
    have hheld : fd ∈ s.whereabouts.held (.inr t) := by simp [whereabouts, hp, LoopPlace.inHand]
    obtain ⟨co, event, hcor, hw⟩ := h.apart.held _ fd hheld
    have he : co = cor := Option.some.inj (hcor.symm.trans hplace)
    simp only [whereabouts, he] at hw
    simp [hw, CorPlace.Suspended]
  · rename_i front tmpTasks hp
    have hstart : front ∈ s.whereabouts.starts t := by simp [whereabouts, hp, LoopPlace.starting]
    have hsched := h.apart.starts t front hstart
    simp only [whereabouts, hplace] at hsched
    simp [hsched, CorPlace.Suspended]
  · rename_i fd event reEvents hp
    obtain ⟨-, -, hcor⟩ := hplace
    have hw : s.whereabouts.watched t fd := .inr (by simp [hp, LoopPlace.eventFds])
    rcases h.apart.watchedCor t fd cor hw hcor with hr | ⟨event', hwait⟩
    · simp [whereabouts, hrun] at hr
    · simp only [whereabouts] at hwait
      simp [hwait, CorPlace.Suspended]
  · cases hplace

variable [DecidableEq C]

theorem corStep_kept {l : ProcessStep n C} (h : s.Kept) (hrun : (s.threads t).currentCoroutine = some cor)
    (hl : l.thread = some t) (hok : s.RegistersOwn l) (hn : s.corStep t cor l = some s') : s'.Kept := by
  cases l with
  | hook _ fd event =>
      obtain ⟨hplace, hn⟩ := Option.ite_none_right_eq_some.mp hn
      cases hn
      exact hook_kept h hrun hplace
  | hookReturns _ =>
      simp only [corStep] at hn
      split at hn
      · rename_i hplace
        cases hn
        exact hookReturns_kept h hrun hplace
      · cases hn
  | toEpoll t' =>
      cases hl
      simp only [corStep] at hn
      split at hn
      · rename_i fd event hplace
        cases hn
        have hdescriptor : s.OwnDescriptor t (s.places cor) := hok cor hrun
        rw [hplace] at hdescriptor
        obtain ⟨hown, hcor⟩ := hdescriptor
        exact toEpoll_kept h hrun hplace hown hcor
      · cases hn
  | yield _ =>
      simp only [corStep] at hn
      split at hn
      · rename_i hplace
        cases hn
        exact yield_kept h hrun hplace
      · cases hn
  | afterYield _ =>
      simp only [corStep] at hn
      split at hn
      · rename_i hplace
        cases hn
        exact afterYield_kept h hrun hplace
      · cases hn
  | unregister _ fd =>
      obtain ⟨-, hn⟩ := Option.ite_none_right_eq_some.mp hn
      cases hn
      exact unregister_kept h
  | finish _ =>
      obtain ⟨hplace, hn⟩ := Option.ite_none_right_eq_some.mp hn
      cases hn
      exact finish_kept h hrun hplace
  | _ => cases hn

end Process

/-! ## Runs -/

open Process

theorem processNext_kept [DecidableEq C] {s s' : Process n C} {l : ProcessStep n C} (h : s.Kept)
    (hok : s.RegistersOwn l) (hn : processNext s l = some s') : s'.Kept := by
  simp only [processNext] at hn
  split at hn
  · obtain ⟨hidle, hn⟩ := Option.ite_none_right_eq_some.mp hn
    cases hn
    exact addCoroutine_kept h hidle
  · rename_i hrun
    simp only [ProcessStep.thread, Option.map_some, Option.some.injEq, Prod.mk.injEq] at hrun
    exact loop_kept h (hrun.1 ▸ hrun.2) hn
  · rename_i t reEvents _ _
    split at hn
    · rename_i hplace
      obtain ⟨hreports, hn⟩ := Option.ite_none_right_eq_some.mp hn
      cases hn
      refine goto_kept h (by rw [hplace]; rfl) (by rw [hplace]; rfl) hreports.2.1 fun fd hm => .inl ?_
      obtain ⟨p, hp, rfl⟩ := List.mem_map.mp hm
      have hmask := hreports.2.2 p hp
      intro hnone
      rw [hnone] at hmask
      cases hmask
    · cases hn
  · split at hn
    · rename_i hplace
      cases hn
      exact goto_same h hplace rfl rfl rfl
    · cases hn
  · rename_i t cor hrun
    obtain ⟨t', hl, ht⟩ := Option.map_eq_some_iff.mp hrun
    simp only [Prod.mk.injEq] at ht
    obtain ⟨rfl, hcur⟩ := ht
    exact corStep_kept h hcur hl hok hn
  · cases hn

theorem processStart_kept {s : Process n C} (h : ProcessStart s) : s.Kept := by
  obtain ⟨hs, hfd⟩ := h
  have hthreads : s.threads = fun _ => {} := by rw [hs]
  have hqueue : s.queue = .new n Int := by rw [hs]
  have hplaces : s.places = fun _ => .idle := by rw [hs]
  have hstarts : s.whereabouts.starts = fun _ => [] := by
    funext t
    simp [whereabouts, hthreads, LoopPlace.starting]
  have hheld : s.whereabouts.held = fun _ => [] := by
    funext p
    cases p <;> simp [whereabouts, hthreads, hqueue, LoopPlace.inHand, CoroutineTaskQueue.new]
  have hrunning : ∀ t co, s.whereabouts.running t ≠ some co := by simp [whereabouts, hthreads]
  have hwatched : ∀ t fd, ¬s.whereabouts.watched t fd := by
    simp [whereabouts, hthreads, LoopThread.Watches, LoopPlace.eventFds]
  refine ⟨⟨fun t co hr => absurd hr (hrunning t co), fun t _ co hr => absurd hr (hrunning t co), ?_, ?_, ?_, ?_, ?_,
    fun t fd hw => absurd hw (hwatched t fd), fun t fd _ hw => absurd hw (hwatched t fd),
    fun t co _ _ hr => absurd hr (hrunning t co)⟩, fun t => ?_⟩
  · simp [hstarts]
  · rw [hstarts]
    exact .nil
  · simp [whereabouts, hfd, hplaces]
  · simp [hheld]
  · rw [hheld]
    exact .nil
  · rw [hthreads]
    exact ⟨⟨rfl, fun fd hw => absurd rfl hw⟩, List.nodup_nil⟩

/-- In every run in which coroutines register on the reactors of their own threads, no coroutine is resumed
while it has not yielded, or run by two threads. -/
theorem one_thread [DecidableEq C] {s : Process n C} (h : Reachable processNext ProcessStart RegistersOwn s) :
    s.OneThread :=
  (h.invariant (I := Kept) (fun _ => processStart_kept) fun _ _ _ => processNext_kept).oneThread

/-! ## A coroutine that comes back to another thread's descriptor -/

/-- Two IO threads; the descriptors belong to connections that were built for the first. -/
def twoThreads : Process 2 Unit := { fdEvents := fun _ => { reactor := some (.io 0) } }

theorem twoThreads_start : ProcessStart twoThreads := ⟨rfl, fun _ => ⟨rfl, rfl⟩⟩

def readable (fd : Int) : List (Int × IOEvents) := [(fd, { read := true })]

/-- The coroutine waits for descriptor 5, and the second thread steals it. -/
def stolen : List (ProcessStep 2 Unit) :=
  [.addCoroutine (.io 0) ()] ++ List.replicate 6 (.loop (.io 0)) ++
    [.hook (.io 0) 5 .read, .toEpoll (.io 0), .yield (.io 0), .loop (.io 0), .epollWait (.io 0) (readable 5),
      .loop (.io 0)] ++ List.replicate 5 (.loop (.io 1)) ++ [.afterYield (.io 1)]

theorem one_thread_stolen : ∃ s : Process 2 Unit, (s.threads (.io 1)).currentCoroutine = some () ∧ s.OneThread := by
  obtain ⟨s, hs, hrun⟩ : ∃ s, runLabels processNext twoThreads stolen = some s ∧
      (s.threads (.io 1)).currentCoroutine = some () := ⟨_, rfl, rfl⟩
  have hown : RunOk processNext RegistersOwn twoThreads stolen := by decide
  exact ⟨s, hrun, one_thread ((Reachable.start twoThreads_start).of_runOk hown hs)⟩

/-- Then it registers at descriptor 6 on the first thread, which wakes it before it has yielded. -/
def registeredElsewhere : List (ProcessStep 2 Unit) :=
  stolen ++ [.hook (.io 1) 6 .read, .toEpoll (.io 1)] ++ List.replicate 7 (.loop (.io 0)) ++
    [.epollWait (.io 0) (readable 6)] ++ List.replicate 4 (.loop (.io 0))

theorem resumed_before_yield : ∃ s : Process 2 Unit, Reachable processNext ProcessStart anyStep s ∧ ¬s.OneThread := by
  obtain ⟨s, hs, hmain, hplace, hcor, hrun⟩ : ∃ s, runLabels processNext twoThreads registeredElsewhere = some s ∧
      (s.threads (.io 0)).currentCoroutine = none ∧ (s.threads (.io 0)).place = .tasks [6] true ∧
      (s.fdEvents 6).cor = some () ∧ (s.threads (.io 1)).currentCoroutine = some () :=
    ⟨_, rfl, rfl, rfl, rfl, rfl⟩
  refine ⟨s, (Reachable.start twoThreads_start).of_run hs, fun h => ?_⟩
  have hres : s.Resumes (.io 0) () := ⟨hmain, by rw [hplace]; exact hcor⟩
  exact (h.resumes (.io 0) () hres).2 (.io 1) hrun

end Tirpc
