import Tirpc.Coroutine.Lemmas.Threads

/-!
# The loop of a reactor

Each statement of `Loop` keeps the coroutines in one place each.
-/

namespace Tirpc

open Lib

variable {n : Nat} {C : Type}

namespace Process

variable {s s' : Process n C} {t : Thread n} {cor : C} {fd : Int}

theorem goto_kept (h : s.Kept) {place : LoopPlace n C} (hstarting : place.starting = (s.threads t).place.starting)
    (hhand : place.inHand = (s.threads t).place.inHand) (hnodup : place.eventFds.Nodup)
    (hevents : ∀ fd ∈ place.eventFds, (s.threads t).Watches fd) : (s.goto t place).Kept := by
  refine h.setThread ⟨(h.tidy t).reactor, hnodup⟩ rfl (by rw [hstarting]) hhand fun fd hw => ?_
  cases hw with
  | inl hw => exact .inl hw
  | inr hw => exact hevents fd hw

theorem goto_same (h : s.Kept) {place place' : LoopPlace n C} (hplace : (s.threads t).place = place)
    (hstarting : place'.starting = place.starting) (hhand : place'.inHand = place.inHand)
    (hevents : place'.eventFds = []) : (s.goto t place').Kept := by
  refine goto_kept h (hplace ▸ hstarting) (hplace ▸ hhand) (hevents ▸ List.nodup_nil) fun fd hm => ?_
  rw [hevents] at hm
  cases hm

theorem takePendingTasks_kept (h : s.Kept) (hstarting : (s.threads t).place.starting = [])
    (hhand : (s.threads t).place.inHand = []) : (s.takePendingTasks t).Kept := by
  refine h.setThread ⟨(h.tidy t).reactor, List.nodup_nil⟩ rfl ?_ (by rw [hhand]; rfl) fun fd hw => ?_
  · rw [hstarting]
    exact List.append_nil _
  · cases hw with
    | inl hw => exact .inl hw
    | inr hw => cases hw

/-- The reactor of a thread watches no more than before. -/
theorem withReactor_kept (h : s.Kept) {f : Reactor IOEvents → Reactor IOEvents}
    (hf : (f (s.threads t).reactor).Tidy ∧
      ∀ fd, (f (s.threads t).reactor).interest fd ≠ none → (s.threads t).reactor.interest fd ≠ none) :
    (s.withReactor t f).Kept := by
  refine h.setThread ⟨hf.1, (h.tidy t).events⟩ rfl rfl rfl fun fd hw => ?_
  cases hw with
  | inl hw => exact .inl (hf.2 fd hw)
  | inr hw => exact .inr hw

theorem drain_kept (h : s.Kept) (hplace : (s.threads t).place = .events []) :
    ((s.withReactor t Reactor.drain).goto t .start).Kept := by
  have hp : ((s.withReactor t Reactor.drain).threads t).place = .events [] := by
    simp only [withReactor, threads_setThread, hplace]
  exact goto_same (withReactor_kept h (h.tidy t).reactor.drain) hp rfl rfl rfl

theorem steal_kept (h : s.Kept) {i victim : Fin n} {victims : List (Fin n)} {stealTasks : List Int}
    (hplace : (s.threads (.io i)).place = .stealing (victim :: victims) stealTasks) :
    (s.steal i victim victims stealTasks).Kept := by
  simp only [steal]
  split
  · exact goto_same h hplace rfl rfl rfl
  · split
    · exact goto_same h hplace rfl rfl rfl
    · exact h.popSome victim _ (by rw [hplace]; rfl) (by rw [hplace]; rfl) rfl

theorem pop_kept (h : s.Kept) {i : Fin n} (hplace : (s.threads (.io i)).place = .popping) : (s.pop i).Kept := by
  simp only [pop]
  split
  · exact takePendingTasks_kept h (by rw [hplace]; rfl) (by rw [hplace]; rfl)
  · exact h.popSome i 16 (by rw [hplace]; rfl) (by rw [hplace]; rfl) rfl

/-- The events that are left are watched, as they were. -/
theorem nextEvent_kept (h : s.Kept) {event : IOEvents} {reEvents : List (Int × IOEvents)}
    (hplace : (s.threads t).place = .events ((fd, event) :: reEvents)) : (s.goto t (.events reEvents)).Kept := by
  have hnodup := (h.tidy t).events
  rw [hplace] at hnodup
  refine goto_kept h (by rw [hplace]; rfl) (by rw [hplace]; rfl) (List.nodup_cons.mp hnodup).2 fun fd' hm => .inr ?_
  rw [hplace]
  exact List.mem_cons_of_mem fd hm

theorem onEventSub_kept (h : s.Kept) {i : Fin n} {event : IOEvents} {reEvents : List (Int × IOEvents)}
    (hplace : (s.threads (.io i)).place = .events ((fd, event) :: reEvents))
    (hrun : (s.threads (.io i)).currentCoroutine = none) (hcor : (s.fdEvents fd).cor = some cor) :
    ({ ((s.goto (.io i) (.events reEvents)).withReactor (.io i) fun reactor =>
        reactor.delEventInLoopThread fd).setFd fd { s.fdEvents fd with reactor := none } with
      queue := s.queue.push i fd } : Process n C).Kept := by
  have hnodup := (h.tidy (.io i)).events
  rw [hplace] at hnodup
  obtain ⟨hnot, hnodup⟩ := List.nodup_cons.mp hnodup
  have hwatched : s.whereabouts.watched (.io i) fd := .inr (by rw [hplace]; exact List.mem_cons_self)
  obtain ⟨hdel, hsub, hgone⟩ := (h.tidy (.io i)).reactor.delEventInLoopThread fd
  obtain ⟨th, hth⟩ : ∃ th : LoopThread n C, th = { s.threads (.io i) with
      place := .events reEvents, reactor := (s.threads (.io i)).reactor.delEventInLoopThread fd } := ⟨_, rfl⟩
  have hs : (s.goto (.io i) (.events reEvents)).withReactor (.io i) (fun reactor =>
      reactor.delEventInLoopThread fd) = s.setThread (.io i) th := by
    simp only [goto, withReactor, threads_setThread, setThread_setThread, hth]
  rw [hs]
  have hfewer : ∀ fd', th.Watches fd' → (s.threads (.io i)).Watches fd' := by
    rintro fd' (hw | hw)
    · rw [hth] at hw
      exact .inl (hsub fd' hw)
    · rw [hth] at hw
      exact .inr (by rw [hplace]; exact List.mem_cons_of_mem fd hw)
  have hnone : ¬(s.setThread (.io i) th).whereabouts.watched (.io i) fd := by
    rw [watched_setThread, Function.update_self, hth]
    rintro (hw | hw)
    · exact hw hgone
    · exact hnot hw
  have hw := h.apart.push (p := .inl i) hwatched hcor hrun (watched_of s (.io i) th hfewer) hnone
  refine ⟨hw.quiet (running_same s (.io i) th (by rw [hth])) (starts_same s (.io i) th (by rw [hth, hplace]; rfl)) ?_ ?_
    rfl (fun _ _ hw => hw) fun fd' t' hr => ?_, tidy_setThread h.tidy ?_⟩
  · have hheld : (s.setThread (.io i) th).whereabouts.held = s.whereabouts.held :=
      held_same s (.io i) th (by rw [hth, hplace]; rfl)
    refine (held_push (s := (s.setThread (.io i) th).setFd fd _) i).trans ?_
    exact congrArg (fun held => Function.update held (Sum.inl i) (held (Sum.inl i) ++ [fd])) hheld
  · exact cor_same (s.setThread (.io i) th) { s.fdEvents fd with reactor := none } rfl
  · exact (congrFun (reactor_setFd (s.setThread (.io i) th) _) fd').trans hr
  · rw [hth]
    exact ⟨hdel, hnodup⟩

variable [DecidableEq C]

theorem addCoroutine_kept (h : s.Kept) (hidle : s.places cor = .idle) :
    ((s.setThread t { s.threads t with pendingTasks := (s.threads t).pendingTasks ++ [cor] }).setCor cor
      .scheduled).Kept := by
  have hw := h.apart.schedule (t := t) hidle
  refine ⟨hw.quiet (running_same s t _ rfl) ?_ (held_same s t _ rfl) rfl rfl (watched_of s t _ fun _ hw => hw)
    fun _ _ hr => hr, tidy_setThread h.tidy ⟨(h.tidy t).reactor, (h.tidy t).events⟩⟩
  refine (starts_setThread s t _).trans ?_
  simp only [whereabouts, List.append_assoc]

/-- The first of the scheduled coroutines starts. -/
theorem startTask_kept (h : s.Kept) {tmpTasks : List C} (hplace : (s.threads t).place = .pendingTasks (cor :: tmpTasks))
    (hrun : (s.threads t).currentCoroutine = none) :
    ((s.goto t (.pendingTasks tmpTasks)).resume t (some cor)).Kept := by
  have hstarts : s.whereabouts.starts t = cor :: (tmpTasks ++ (s.threads t).pendingTasks) := by
    simp [whereabouts, hplace, LoopPlace.starting]
  obtain ⟨hsched, hw⟩ := h.apart.begin hstarts hrun
  have hs : (s.goto t (.pendingTasks tmpTasks)).resume t (some cor) = (s.setThread t { s.threads t with
      place := .pendingTasks tmpTasks, currentCoroutine := some cor }).setCor cor .body := by
    rw [resume_scheduled (s := s.goto t (.pendingTasks tmpTasks)) hsched]
    simp only [goto, threads_setThread, setThread_setThread]
  rw [hs]
  refine ⟨hw.quiet (running_setThread s t _) (starts_setThread s t _) (held_same s t _ (by rw [hplace]; rfl)) rfl rfl
    (watched_of s t _ fun fd hw => ?_) fun _ _ hr => hr, tidy_setThread h.tidy ⟨(h.tidy t).reactor, List.nodup_nil⟩⟩
  cases hw with
  | inl hw => exact .inl hw
  | inr hw => cases hw

/-- The first of the woken descriptors gets the reactor of the thread, and its coroutine is resumed. -/
theorem resumeTask_kept (h : s.Kept) {tasks : List Int} {popped : Bool}
    (hplace : (s.threads t).place = .tasks (fd :: tasks) popped) (hrun : (s.threads t).currentCoroutine = none) :
    (((s.goto t (.tasks tasks popped)).setFd fd { s.fdEvents fd with reactor := some t }).resume t
      (s.fdEvents fd).cor).Kept := by
  have hheld : s.whereabouts.held (.inr t) = fd :: tasks := by simp [whereabouts, hplace, LoopPlace.inHand]
  obtain ⟨co, event, hcor, hwait⟩ := h.apart.held (.inr t) fd (hheld ▸ List.mem_cons_self)
  have hw := (h.apart.take (t := t) hheld).wake hrun hwait (Function.update_self _ _ _) (h.apart.heldOnce.take hheld).2
  have hs : ((s.goto t (.tasks tasks popped)).setFd fd { s.fdEvents fd with reactor := some t }).resume t
      (s.fdEvents fd).cor = ((s.setFd fd { s.fdEvents fd with reactor := some t }).setThread t { s.threads t with
        place := .tasks tasks popped, currentCoroutine := some co }).setCor co (.resumed fd event) := by
    have hco : (s.fdEvents fd).cor = some co := hcor
    rw [hco, resume_waiting (s := (s.goto t (.tasks tasks popped)).setFd fd _) hwait]
    simp only [goto, setFd_setThread, threads_setThread, setThread_setThread, hco]
  rw [hs]
  have htidy : ∀ t', ((s.setFd fd { s.fdEvents fd with reactor := some t }).threads t').Tidy := h.tidy
  refine ⟨hw.quiet (running_setThread _ t _) (starts_same _ t _ ?_) ?_ ?_ rfl (watched_of _ t _ fun fd' hw => ?_)
    fun fd' t' hr => ?_, tidy_setThread htidy ⟨(h.tidy t).reactor, List.nodup_nil⟩⟩
  · show [] ++ (s.threads t).pendingTasks = (s.threads t).place.starting ++ _
    rw [hplace]
    rfl
  · exact held_setThread (s.setFd fd { s.fdEvents fd with reactor := some t }) t _
  · exact cor_same s { s.fdEvents fd with reactor := some t } rfl
  · cases hw with
    | inl hw => exact .inl hw
    | inr hw => cases hw
  · exact (congrFun (reactor_setFd s _) fd').trans hr

theorem onEventMain_kept (h : s.Kept) {event : IOEvents} {reEvents : List (Int × IOEvents)}
    (hplace : (s.threads t).place = .events ((fd, event) :: reEvents)) (hrun : (s.threads t).currentCoroutine = none)
    (hcor : (s.fdEvents fd).cor = some cor) : ((s.goto t (.events reEvents)).resume t (some cor)).Kept := by
  have hnext := nextEvent_kept h hplace
  have hwatched : s.whereabouts.watched t fd := .inr (by rw [hplace]; exact List.mem_cons_self)
  obtain ⟨hreactor, hheld⟩ := h.apart.watched t fd hwatched
  obtain ⟨event', hwait⟩ : ∃ event', s.whereabouts.place cor = .waiting fd event' :=
    (h.apart.watchedCor t fd cor hwatched hcor).resolve_left fun hr => by cases hrun.symm.trans hr
  have hw := h.apart.wake hrun hwait hreactor hheld
  have hs : (s.goto t (.events reEvents)).resume t (some cor) = (s.setThread t { s.threads t with
      place := .events reEvents, currentCoroutine := some cor }).setCor cor (.resumed fd event') := by
    rw [resume_waiting (s := s.goto t (.events reEvents)) hwait]
    simp only [goto, threads_setThread, setThread_setThread]
  rw [hs]
  refine ⟨hw.quiet (running_setThread _ t _) (starts_same s t _ (by rw [hplace]; rfl))
    (held_same s t _ (by rw [hplace]; rfl)) rfl rfl (watched_of _ t _ fun fd' hw => ?_) fun _ _ hr => hr,
    tidy_setThread h.tidy ⟨(h.tidy t).reactor, ?_⟩⟩
  · cases hw with
    | inl hw => exact .inl hw
    | inr hw => exact .inr (by rw [hplace]; exact List.mem_cons_of_mem fd hw)
  · have hnodup := (h.tidy t).events
    rw [hplace] at hnodup
    exact (List.nodup_cons.mp hnodup).2

theorem onEvent_kept (h : s.Kept) {event : IOEvents} {reEvents : List (Int × IOEvents)}
    (hplace : (s.threads t).place = .events ((fd, event) :: reEvents)) (hrun : (s.threads t).currentCoroutine = none) :
    ((s.goto t (.events reEvents)).onEvent t fd event).Kept := by
  have hnext := nextEvent_kept h hplace
  simp only [onEvent]
  split
  · have hdel := (hnext.tidy t).reactor.delEventInLoopThread fd
    exact withReactor_kept hnext ⟨hdel.1, hdel.2.1⟩
  · split
    · exact hnext
    · rename_i cor hcor
      exact onEventMain_kept h hplace hrun hcor
    · rename_i cor i hcor
      exact onEventSub_kept h hplace hrun hcor

theorem loop_kept (h : s.Kept) (hrun : (s.threads t).currentCoroutine = none) (hn : s.loop t = some s') : s'.Kept := by
  simp only [loop] at hn
  split at hn
  · rename_i hplace
    cases hn
    exact takePendingTasks_kept h (by rw [hplace]; rfl) (by rw [hplace]; rfl)
  · rename_i i hplace
    cases hn
    split
    · exact goto_same h hplace rfl rfl rfl
    · exact goto_same h hplace rfl rfl rfl
  · rename_i victim victims stealTasks i hplace
    cases hn
    exact steal_kept h hplace
  · rename_i _ hplace
    cases hn
    exact goto_same h hplace rfl rfl rfl
  · rename_i i hplace
    cases hn
    exact pop_kept h hplace
  · cases hn
  · rename_i popped hplace
    cases hn
    split
    · exact goto_same h hplace rfl rfl rfl
    · exact takePendingTasks_kept h (by rw [hplace]; rfl) (by rw [hplace]; rfl)
  · rename_i fd tasks popped hplace
    cases hn
    have hkept := resumeTask_kept h hplace hrun
    simpa [setFd] using hkept
  · rename_i hplace
    cases hn
    exact goto_same h hplace rfl rfl rfl
  · rename_i co tmpTasks hplace
    cases hn
    exact startTask_kept h hplace hrun
  · cases hn
  · rename_i hplace
    cases hn
    exact drain_kept h hplace
  · rename_i fd event reEvents hplace
    cases hn
    exact onEvent_kept h hplace hrun

end Process

end Tirpc
