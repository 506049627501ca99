import Tirpc.Coroutine.Lemmas.Loop

/-!
# The steps of a running coroutine

Each keeps the coroutines in one place each. For `toEpoll`, that takes a descriptor of the thread's own reactor
that no coroutine waits for.
-/

namespace Tirpc

open Lib

variable {n : Nat} {C : Type}

namespace Process

variable {s s' : Process n C} {t : Thread n} {cor : C} {fd : Int}

/-- What a call on a descriptor of the thread's own reactor changes: the thread may watch that descriptor. -/
structure Updated (s s' : Process n C) (t : Thread n) (fd : Int) : Prop where
  running : s'.whereabouts.running = s.whereabouts.running
  starts : s'.whereabouts.starts = s.whereabouts.starts
  held : s'.whereabouts.held = s.whereabouts.held
  cor : s'.whereabouts.cor = s.whereabouts.cor
  place : s'.places = s.places
  watched : ∀ t' fd', s'.whereabouts.watched t' fd' →
    s.whereabouts.watched t' fd' ∨ t' = t ∧ fd' = fd ∧ s'.whereabouts.reactor fd = some t
  reactor : ∀ fd' t', s.whereabouts.reactor fd' = some t' → s'.whereabouts.reactor fd' = some t'
  tidy : ∀ t, (s'.threads t).Tidy

theorem updateToReactor_updated (htidy : ∀ t, (s.threads t).Tidy) (hown : ∀ r ∈ (s.fdEvents fd).reactor, r = t) :
    Updated s (s.updateToReactor t fd) t fd := by
  have hr : (s.fdEvents fd).reactor.getD t = t := by
    cases hr : (s.fdEvents fd).reactor with
    | none => rfl
    | some r => exact hown r hr
  obtain ⟨hadd, hmore⟩ := (htidy t).reactor.addEvent fd (s.fdEvents fd).listenEvents
  obtain ⟨th, hth⟩ : ∃ th : LoopThread n C, th = { s.threads t with
      reactor := (s.threads t).reactor.addEvent true fd (s.fdEvents fd).listenEvents } := ⟨_, rfl⟩
  have hs : s.updateToReactor t fd = (s.setFd fd { s.fdEvents fd with reactor := some t }).setThread t th := by
    simp only [updateToReactor, hr, withReactor, decide_true, hth]
    rfl
  rw [hs]
  refine ⟨running_same _ t th (by rw [hth]; rfl), starts_same _ t th (by rw [hth]; rfl), ?_, ?_, rfl, ?_, ?_, ?_⟩
  · exact held_same (s.setFd fd _) t th (by rw [hth]; rfl)
  · exact cor_same s { s.fdEvents fd with reactor := some t } rfl
  · intro t' fd' hw
    refine (em (t' = t ∧ fd' = fd)).elim (fun he => .inr ⟨he.1, he.2, ?_⟩) fun he => .inl ?_
    · refine (congrFun (reactor_setFd s _) fd).trans ?_
      exact Function.update_self _ _ _
    · rw [watched_setThread] at hw
      by_cases ht : t' = t
      · subst ht
        rw [Function.update_self, hth] at hw
        cases hw with
        | inl hw => exact .inl ((hmore fd' hw).resolve_left fun hfd => he ⟨rfl, hfd⟩)
        | inr hw => exact .inr hw
      · rwa [Function.update_of_ne ht] at hw
  · intro fd' t' hr'
    refine (congrFun (reactor_setFd s _) fd').trans ?_
    by_cases hfd : fd' = fd
    · subst hfd
      rw [Function.update_self]
      exact congrArg some (hown t' hr').symm
    · rwa [Function.update_of_ne hfd]
  · refine tidy_setThread (s := s.setFd fd _) htidy ?_
    rw [hth]
    exact ⟨hadd, (htidy t).events⟩

/-- The mask of a descriptor does not show. -/
theorem whereabouts_listenEvents (s : Process n C) (fd : Int) (listenEvents : IOEvents) :
    (s.setFd fd { s.fdEvents fd with listenEvents := listenEvents }).whereabouts = s.whereabouts := by
  have hreactor := reactor_same s { s.fdEvents fd with listenEvents := listenEvents } rfl
  have hcor := cor_same s { s.fdEvents fd with listenEvents := listenEvents } rfl
  simp only [whereabouts, Whereabouts.mk.injEq]
  exact ⟨rfl, rfl, rfl, rfl, hreactor, hcor, rfl⟩

theorem Updated.refl (htidy : ∀ t, (s.threads t).Tidy) : Updated s s t fd :=
  ⟨rfl, rfl, rfl, rfl, rfl, fun _ _ hw => .inl hw, fun _ _ hr => hr, htidy⟩

theorem listen_updated (htidy : ∀ t, (s.threads t).Tidy) (hown : ∀ r ∈ (s.fdEvents fd).reactor, r = t)
    (listenEvents : IOEvents) :
    Updated s ((s.setFd fd { s.fdEvents fd with listenEvents := listenEvents }).updateToReactor t fd) t fd := by
  have hsame := whereabouts_listenEvents s fd listenEvents
  have hown' : ∀ r ∈ ((s.setFd fd { s.fdEvents fd with listenEvents := listenEvents }).fdEvents fd).reactor, r = t := by
    simpa only [setFd, Function.update_self] using hown
  obtain ⟨h1, h2, h3, h4, h5, h6, h7, h8⟩ := updateToReactor_updated (s := s.setFd fd _) htidy hown'
  rw [hsame] at h1 h2 h3 h4 h6 h7
  exact ⟨h1, h2, h3, h4, h5, h6, h7, h8⟩

theorem addListenEvents_updated (htidy : ∀ t, (s.threads t).Tidy) (hown : ∀ r ∈ (s.fdEvents fd).reactor, r = t)
    (event : IOEvent) : Updated s (s.addListenEvents t fd event) t fd := by
  simp only [addListenEvents]
  split
  · exact .refl htidy
  · exact listen_updated htidy hown _

theorem delListenEvents_updated (htidy : ∀ t, (s.threads t).Tidy) (hown : ∀ r ∈ (s.fdEvents fd).reactor, r = t)
    (event : IOEvent) : Updated s (s.delListenEvents t fd event) t fd := by
  simp only [delListenEvents]
  split
  · exact listen_updated htidy hown _
  · exact .refl htidy

theorem unregister_kept (h : s.Kept) : (s.unregisterFromReactor t fd).Kept := by
  obtain ⟨r, hr⟩ : ∃ r, r = (s.fdEvents fd).reactor.getD t := ⟨_, rfl⟩
  have hset : (s.setFd fd { s.fdEvents fd with reactor := some r, listenEvents := {} }).Kept := by
    refine ⟨h.apart.quiet rfl rfl rfl ?_ rfl (fun _ _ hw => hw) fun fd' t' hreactor => ?_, h.tidy⟩
    · exact cor_same s { s.fdEvents fd with reactor := some r, listenEvents := {} } rfl
    · refine (congrFun (reactor_setFd s _) fd').trans ?_
      by_cases hfd : fd' = fd
      · subst hfd
        have hsome : (s.fdEvents fd').reactor = some t' := hreactor
        rw [Function.update_self, hr, hsome, Option.getD_some]
      · rwa [Function.update_of_ne hfd]
  simp only [unregisterFromReactor, ← hr]
  exact withReactor_kept hset (hset.tidy r).reactor.delEvent

variable [DecidableEq C] {event : IOEvent}

theorem toEpoll_kept (h : s.Kept) (hrun : (s.threads t).currentCoroutine = some cor)
    (hplace : s.places cor = .hook fd event) (hown : ∀ r ∈ (s.fdEvents fd).reactor, r = t)
    (hcor : (s.fdEvents fd).cor = none) :
    ((s.toEpoll t cor fd event).setCor cor (.registered fd event)).Kept := by
  have hown' : ∀ r ∈ ((s.setFd fd { s.fdEvents fd with cor := some cor }).fdEvents fd).reactor, r = t := by
    simpa only [setFd, Function.update_self] using hown
  have hsame : (s.setFd fd { s.fdEvents fd with cor := some cor }).whereabouts.reactor = s.whereabouts.reactor :=
    reactor_same s _ rfl
  obtain ⟨h1, h2, h3, h4, h5, h6, h7, h8⟩ :=
    addListenEvents_updated (s := s.setFd fd { s.fdEvents fd with cor := some cor }) h.tidy hown' event
  rw [hsame] at h7
  have hw := h.apart.register hrun hplace hcor (fun r hr => hown r hr) h6 h7
  refine ⟨hw.quiet h1 h2 h3 (h4.trans (cor_setFd s _)) ?_ (fun _ _ hw => hw) fun _ _ hr => hr, h8⟩
  exact congrArg (fun places => Function.update places cor (CorPlace.registered fd event)) h5

theorem afterYield_kept (h : s.Kept) (hrun : (s.threads t).currentCoroutine = some cor)
    (hplace : s.places cor = .resumed fd event) :
    (((s.delListenEvents t fd event).setFd fd { (s.delListenEvents t fd event).fdEvents fd with cor := none }).setCor
      cor .body).Kept := by
  have hown : ∀ r ∈ (s.fdEvents fd).reactor, r = t := by
    intro r hr
    have hself := h.apart.resumed t cor fd event hrun hplace
    exact Option.some.inj (hr.symm.trans hself)
  obtain ⟨h1, h2, h3, h4, h5, h6, h7, h8⟩ := delListenEvents_updated h.tidy hown event
  have hw := h.apart.leave hrun hplace (fun t' fd' hw => (h6 t' fd' hw).imp id fun he => ⟨he.1, he.2.1⟩) h7
  refine ⟨hw.quiet h1 h2 h3 ?_ ?_ (fun _ _ hw => hw) fun fd' t' hr => ?_, h8⟩
  · refine (cor_setFd (s.delListenEvents t fd event) _).trans ?_
    exact congrArg (fun cors => Function.update cors fd none) h4
  · exact congrArg (fun places => Function.update places cor CorPlace.body) h5
  · exact (congrFun (reactor_same (s.delListenEvents t fd event)
      { (s.delListenEvents t fd event).fdEvents fd with cor := none } rfl) fd').trans hr

theorem hook_kept (h : s.Kept) (hrun : (s.threads t).currentCoroutine = some cor) (hplace : s.places cor = .body) :
    ((s.setFd fd { s.fdEvents fd with reactor := some ((s.fdEvents fd).reactor.getD t) }).setCor cor
      (.hook fd event)).Kept := by
  have hw := h.apart.inside (.hook fd event) (fun fd' hat => ?_) hrun trivial fun fd' hat => hat
  · refine ⟨hw.quiet rfl rfl rfl ?_ rfl (fun _ _ hw => hw) fun fd' t' hr => ?_, h.tidy⟩
    · exact cor_same s { s.fdEvents fd with reactor := some ((s.fdEvents fd).reactor.getD t) } rfl
    · refine (congrFun (reactor_setFd s _) fd').trans ?_
      by_cases hfd : fd' = fd
      · subst hfd
        have hreactor : (s.fdEvents fd').reactor = some t' := hr
        rw [Function.update_self, hreactor, Option.getD_some]
      · rwa [Function.update_of_ne hfd]
  · rw [show s.whereabouts.place cor = .body from hplace] at hat
    exact hat

theorem hookReturns_kept (h : s.Kept) (hrun : (s.threads t).currentCoroutine = some cor)
    (hplace : s.places cor = .hook fd event) : (s.setCor cor .body).Kept := by
  have hw := h.apart.inside .body (fun fd' hat => ?_) hrun trivial fun fd' hat => hat
  · exact ⟨hw, h.tidy⟩
  · rw [show s.whereabouts.place cor = .hook fd event from hplace] at hat
    exact hat

theorem yield_kept (h : s.Kept) (hrun : (s.threads t).currentCoroutine = some cor)
    (hplace : s.places cor = .registered fd event) :
    ((s.setThread t { s.threads t with currentCoroutine := none }).setCor cor (.waiting fd event)).Kept := by
  have hw := h.apart.yield hrun hplace
  exact ⟨hw.quiet (running_setThread s t _) (starts_same s t _ rfl) (held_same s t _ rfl) rfl rfl
    (watched_of s t _ fun _ hw => hw) fun _ _ hr => hr, tidy_setThread h.tidy ⟨(h.tidy t).reactor, (h.tidy t).events⟩⟩

theorem finish_kept (h : s.Kept) (hrun : (s.threads t).currentCoroutine = some cor) (hplace : s.places cor = .body) :
    ((s.setThread t { s.threads t with currentCoroutine := none }).setCor cor .idle).Kept := by
  have hw := h.apart.finish hrun hplace
  exact ⟨hw.quiet (running_setThread s t _) (starts_same s t _ rfl) (held_same s t _ rfl) rfl rfl
    (watched_of s t _ fun _ hw => hw) fun _ _ hr => hr, tidy_setThread h.tidy ⟨(h.tidy t).reactor, (h.tidy t).events⟩⟩

end Process

end Tirpc
