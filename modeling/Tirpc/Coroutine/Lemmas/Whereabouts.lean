import Tirpc.Coroutine.Threads
import Tirpc.Lib.Exclusive

/-!
# Where the coroutines are

Of the threads, only what decides who may resume whom: which coroutine a thread runs, which have been
scheduled on it and which descriptors it watches; the lists through which woken descriptors go; and the
descriptors themselves. A coroutine is then in one place only.
-/

namespace Tirpc

open Lib

variable {T P F C : Type}

namespace CorPlace

/-- The coroutine has been registered at the descriptor and has not left the hook. -/
def At (p : CorPlace F) (fd : F) : Prop :=
  match p with
  | .registered fd' _ | .waiting fd' _ | .resumed fd' _ => fd' = fd
  | _ => False

section

variable {fd fd' : F} {event : IOEvent}

@[simp, grind =] theorem at_idle : (idle : CorPlace F).At fd ↔ False := Iff.rfl
@[simp, grind =] theorem at_scheduled : (scheduled : CorPlace F).At fd ↔ False := Iff.rfl
@[simp, grind =] theorem at_body : (body : CorPlace F).At fd ↔ False := Iff.rfl
@[simp, grind =] theorem at_hook : (hook fd' event).At fd ↔ False := Iff.rfl
@[simp, grind =] theorem at_registered : (registered fd' event).At fd ↔ fd' = fd := Iff.rfl
@[simp, grind =] theorem at_waiting : (waiting fd' event).At fd ↔ fd' = fd := Iff.rfl
@[simp, grind =] theorem at_resumed : (resumed fd' event).At fd ↔ fd' = fd := Iff.rfl

end

/-- A thread may be running the coroutine. -/
def Awake : CorPlace F → Prop
  | .idle | .scheduled | .waiting _ _ => False
  | _ => True

/-- The coroutine waits to be started, or in `Yield`. -/
def Suspended : CorPlace F → Prop
  | .scheduled | .waiting _ _ => True
  | _ => False

end CorPlace

structure Whereabouts (T P F C : Type) where
  running : T → Option C
  starts : T → List C
  held : P → List F
  watched : T → F → Prop
  reactor : F → Option T
  cor : F → Option C
  place : C → CorPlace F

namespace Whereabouts

/-- A woken descriptor is in one list, and watched by no one. A watched one has the thread that watches it as
its reactor, and its coroutine sleeps or is run by that thread. -/
structure Apart (w : Whereabouts T P F C) : Prop where
  awake : ∀ t co, w.running t = some co → (w.place co).Awake
  once : ∀ t t' co, w.running t = some co → w.running t' = some co → t = t'
  starts : ∀ t co, co ∈ w.starts t → w.place co = .scheduled
  startsOnce : Exclusive w.starts
  cor : ∀ fd co, w.cor fd = some co ↔ (w.place co).At fd
  held : ∀ p fd, fd ∈ w.held p → ∃ co event, w.cor fd = some co ∧ w.place co = .waiting fd event
  heldOnce : Exclusive w.held
  watched : ∀ t fd, w.watched t fd → w.reactor fd = some t ∧ ∀ p, fd ∉ w.held p
  watchedCor : ∀ t fd co, w.watched t fd → w.cor fd = some co →
    w.running t = some co ∨ ∃ event, w.place co = .waiting fd event
  resumed : ∀ t co fd event, w.running t = some co → w.place co = .resumed fd event → w.reactor fd = some t

variable {w w' : Whereabouts T P F C} {t : T} {p q : P} {fd : F} {co : C} {event : IOEvent}

/-- Fewer descriptors are watched, and some that had no reactor have one. -/
theorem Apart.quiet (h : w.Apart) (hrunning : w'.running = w.running) (hstarts : w'.starts = w.starts)
    (hheld : w'.held = w.held) (hcor : w'.cor = w.cor) (hplace : w'.place = w.place)
    (hwatched : ∀ t fd, w'.watched t fd → w.watched t fd)
    (hreactor : ∀ fd t, w.reactor fd = some t → w'.reactor fd = some t) : w'.Apart := by
  obtain ⟨running, starts, held, watched, reactor, cor, place⟩ := w'
  simp only at hrunning hstarts hheld hcor hplace hwatched hreactor
  subst hrunning hstarts hheld hcor hplace
  refine ⟨h.awake, h.once, h.starts, h.startsOnce, h.cor, h.held, h.heldOnce, fun t fd hw => ?_,
    fun t fd co hw => h.watchedCor t fd co (hwatched t fd hw), fun t co fd event hr hp => ?_⟩
  · obtain ⟨hr, hheld⟩ := h.watched t fd (hwatched t fd hw)
    exact ⟨hreactor fd t hr, hheld⟩
  · exact hreactor fd t (h.resumed t co fd event hr hp)

theorem Apart.asleep (h : w.Apart) (hplace : ¬(w.place co).Awake) (t : T) : w.running t ≠ some co :=
  fun hr => hplace (h.awake t co hr)

theorem Apart.sole (h : w.Apart) (hrun : w.running t = some co) : ∀ t', w.running t' = some co → t' = t :=
  fun t' hr => h.once t' t co hr hrun

/-! ## Scheduling -/

theorem Apart.schedule [DecidableEq T] [DecidableEq C] (h : w.Apart) (hidle : w.place co = .idle) :
    Apart { w with
      starts := Function.update w.starts t (w.starts t ++ [co])
      place := Function.update w.place co .scheduled } := by
  have hnew : ∀ t, co ∉ w.starts t := by
    intro t hm
    have hsched := h.starts t co hm
    simp [hidle] at hsched
  have hasleep : ∀ t, w.running t ≠ some co := h.asleep (by simp [hidle, CorPlace.Awake])
  refine ⟨?_, h.once, ?_, h.startsOnce.push hnew, ?_, ?_, h.heldOnce, h.watched, ?_, ?_⟩
  · intro t' co' hr
    have hold := h.awake t' co' hr
    grind
  · intro t' co' hm
    have hwas := Exclusive.mem_push hm
    have hold := h.starts t' co'
    grind
  · intro fd co'
    have hat := h.cor fd co'
    grind
  · intro q fd hm
    have hold := h.held q fd hm
    grind
  · intro t' fd co' hw hc
    have hsleeps := h.watchedCor t' fd co' hw hc
    grind
  · intro t' co' fd event hr hp
    have hold := h.resumed t' co' fd event hr
    have hne : co' ≠ co := fun he => hasleep t' (he ▸ hr)
    grind

/-- The first of the scheduled coroutines leaves the list. -/
theorem Apart.unschedule [DecidableEq T] (h : w.Apart) {rest : List C} (hstarts : w.starts t = co :: rest) :
    Apart { w with starts := Function.update w.starts t rest } :=
  ⟨h.awake, h.once, fun t' co' hm => h.starts t' co' (Exclusive.mem_take hstarts hm), (h.startsOnce.take hstarts).1,
    h.cor, h.held, h.heldOnce, h.watched, h.watchedCor, h.resumed⟩

/-! ## The way of a woken descriptor -/

theorem Apart.move [DecidableEq P] (h : w.Apart) {l r : List F} (hheld : w.held p = l ++ r) (hpq : p ≠ q) :
    Apart { w with held := Function.update (Function.update w.held p r) q (w.held q ++ l) } := by
  have hsub : ∀ q' fd, fd ∈ Function.update (Function.update w.held p r) q (w.held q ++ l) q' →
      ∃ p', fd ∈ w.held p' := by
    intro q' fd hm
    rcases Exclusive.mem_move hheld hpq hm with ⟨hm, -⟩ | ⟨-, hm⟩
    · exact ⟨q', hm⟩
    · exact ⟨p, hheld ▸ List.mem_append_left r hm⟩
  refine ⟨h.awake, h.once, h.starts, h.startsOnce, h.cor, fun q' fd hm => ?_, h.heldOnce.move hheld hpq,
    fun t fd hw => ?_, h.watchedCor, h.resumed⟩
  · obtain ⟨p', hm⟩ := hsub q' fd hm
    exact h.held p' fd hm
  · obtain ⟨hr, hnot⟩ := h.watched t fd hw
    refine ⟨hr, fun q' hm => ?_⟩
    obtain ⟨p', hm⟩ := hsub q' fd hm
    exact hnot p' hm

/-- A watched descriptor is woken and pushed. -/
theorem Apart.push [DecidableEq P] [DecidableEq F] (h : w.Apart) (hw : w.watched t fd)
    (hcor : w.cor fd = some co) (hrun : w.running t = none) {watched : T → F → Prop}
    (hsub : ∀ t fd, watched t fd → w.watched t fd) (hdel : ¬watched t fd) :
    Apart { w with
      held := Function.update w.held p (w.held p ++ [fd])
      watched := watched
      reactor := Function.update w.reactor fd none } := by
  obtain ⟨hreactor, hnot⟩ := h.watched t fd hw
  have hwait : ∃ event, w.place co = .waiting fd event :=
    (h.watchedCor t fd co hw hcor).resolve_left fun hr => by simp [hrun] at hr
  refine ⟨h.awake, h.once, h.starts, h.startsOnce, h.cor, ?_, h.heldOnce.push hnot, ?_, ?_, ?_⟩
  · intro q fd' hm
    have hwas := Exclusive.mem_push hm
    have hold := h.held q fd'
    grind
  · intro t' fd' hw'
    obtain ⟨hr, hnot'⟩ := h.watched t' fd' (hsub t' fd' hw')
    have hne : fd' ≠ fd := by
      rintro rfl
      rw [hreactor] at hr
      cases hr
      exact hdel hw'
    refine ⟨by grind, fun q hm => ?_⟩
    rcases Exclusive.mem_push hm with ⟨-, he⟩ | hm
    · exact hne he
    · exact hnot' q hm
  · exact fun t' fd' co' hw' => h.watchedCor t' fd' co' (hsub t' fd' hw')
  · intro t' co' fd' event' hr hp
    have hold := h.resumed t' co' fd' event' hr hp
    have hat := h.cor fd' co'
    grind

/-- The thread that has taken a descriptor becomes its reactor. -/
theorem Apart.take [DecidableEq P] [DecidableEq F] (h : w.Apart) {rest : List F} (hheld : w.held p = fd :: rest) :
    Apart { w with
      held := Function.update w.held p rest
      reactor := Function.update w.reactor fd (some t) } := by
  have hmem : fd ∈ w.held p := hheld ▸ List.mem_cons_self
  obtain ⟨co, event, hcor, hplace⟩ := h.held p fd hmem
  refine ⟨h.awake, h.once, h.starts, h.startsOnce, h.cor, fun q fd' hm => ?_, (h.heldOnce.take hheld).1,
    fun t' fd' hw => ?_, h.watchedCor, fun t' co' fd' event' hr hp => ?_⟩
  · exact h.held q fd' (Exclusive.mem_take hheld hm)
  · obtain ⟨hr, hnot⟩ := h.watched t' fd' hw
    have hne : fd' ≠ fd := fun he => hnot p (he ▸ hmem)
    exact ⟨(Function.update_of_ne hne _ _).trans hr, fun q hm => hnot q (Exclusive.mem_take hheld hm)⟩
  · have hat : w.cor fd' = some co' ↔ (CorPlace.resumed fd' event').At fd' := hp ▸ h.cor fd' co'
    have hne : fd' ≠ fd := by
      rintro rfl
      cases hcor.symm.trans (hat.mpr rfl)
      cases hplace.symm.trans hp
    exact (Function.update_of_ne hne _ _).trans (h.resumed t' co' fd' event' hr hp)

/-! ## Resuming -/

/-- A coroutine that sleeps, and is in none of the lists, is run by the reactor of its descriptor. -/
theorem Apart.run [DecidableEq T] [DecidableEq C] (h : w.Apart) (place : CorPlace F) (hrun : w.running t = none)
    (hplace : ¬(w.place co).Awake) (hawake : place.Awake) (hat : ∀ fd, place.At fd ↔ (w.place co).At fd)
    (hstarts : ∀ t, co ∉ w.starts t) (hheld : ∀ p fd, fd ∈ w.held p → w.cor fd ≠ some co)
    (hreactor : ∀ fd, w.cor fd = some co → w.reactor fd = some t) :
    Apart { w with
      running := Function.update w.running t (some co)
      place := Function.update w.place co place } := by
  have hasleep := h.asleep hplace
  refine ⟨?_, ?_, ?_, h.startsOnce, ?_, ?_, h.heldOnce, h.watched, ?_, ?_⟩
  · intro t' co' hr
    have hold := h.awake t' co'
    grind
  · intro t₁ t₂ co' h₁ h₂
    have hold := h.once t₁ t₂ co'
    grind
  · intro t' co' hm
    have hold := h.starts t' co' hm
    grind
  · intro fd co'
    have hold := h.cor fd co'
    grind
  · intro q fd hm
    have hold := h.held q fd hm
    grind
  · intro t' fd co' hw hc
    have hsleeps := h.watchedCor t' fd co' hw hc
    have hself := (h.watched t' fd hw).1
    grind
  · intro t' co' fd event hr hp
    have hold := h.resumed t' co' fd event
    have hcor := h.cor fd co
    grind

/-- A scheduled coroutine starts. -/
theorem Apart.begin [DecidableEq T] [DecidableEq C] (h : w.Apart) {rest : List C}
    (hstarts : w.starts t = co :: rest) (hrun : w.running t = none) :
    w.place co = .scheduled ∧ Apart { w with
      running := Function.update w.running t (some co)
      starts := Function.update w.starts t rest
      place := Function.update w.place co .body } := by
  have hsched : w.place co = .scheduled := h.starts t co (hstarts ▸ List.mem_cons_self)
  have hnone : ∀ fd, w.cor fd ≠ some co := by
    intro fd hc
    have hat := (h.cor fd co).mp hc
    simp [hsched] at hat
  refine ⟨hsched, (h.unschedule hstarts).run .body hrun ?_ trivial ?_ (h.startsOnce.take hstarts).2 ?_ ?_⟩
  · simp [hsched, CorPlace.Awake]
  · simp [hsched]
  · exact fun p fd _ => hnone fd
  · exact fun fd hc => absurd hc (hnone fd)

/-- A waiting coroutine is resumed by the reactor of its descriptor, when that has left the lists. -/
theorem Apart.wake [DecidableEq T] [DecidableEq C] (h : w.Apart) (hrun : w.running t = none)
    (hplace : w.place co = .waiting fd event) (hreactor : w.reactor fd = some t) (hheld : ∀ p, fd ∉ w.held p) :
    Apart { w with
      running := Function.update w.running t (some co)
      place := Function.update w.place co (.resumed fd event) } := by
  have hat : ∀ fd', w.cor fd' = some co → fd = fd' := by
    intro fd' hc
    have hat := (h.cor fd' co).mp hc
    simpa [hplace] using hat
  refine h.run (.resumed fd event) hrun ?_ trivial ?_ ?_ ?_ ?_
  · simp [hplace, CorPlace.Awake]
  · simp [hplace]
  · intro t' hm
    have hsched := h.starts t' co hm
    simp [hplace] at hsched
  · exact fun p fd' hm hc => hheld p (hat fd' hc ▸ hm)
  · exact fun fd' hc => hat fd' hc ▸ hreactor

/-! ## The steps of a running coroutine -/

variable {watched : T → F → Prop} {reactor : F → Option T}

/-- In its own code, and in a hook before it is registered, a coroutine is at no descriptor. -/
theorem Apart.inside [DecidableEq C] (h : w.Apart) (place : CorPlace F) (hfrom : ∀ fd, ¬(w.place co).At fd)
    (hrun : w.running t = some co) (hawake : place.Awake) (hto : ∀ fd, ¬place.At fd) :
    Apart { w with place := Function.update w.place co place } := by
  have hwake := h.awake t co hrun
  have hwaiting : ∀ fd event, w.place co ≠ .waiting fd event := fun fd event he => hfrom fd (by simp [he])
  have hresumed : ∀ fd event, place ≠ .resumed fd event := fun fd event he => hto fd (by simp [he])
  refine ⟨?_, h.once, ?_, h.startsOnce, ?_, ?_, h.heldOnce, h.watched, ?_, ?_⟩
  · intro t' co' hr
    have hold := h.awake t' co' hr
    grind
  · intro t' co' hm
    have hold := h.starts t' co' hm
    grind [CorPlace.Awake]
  · intro fd co'
    have hat := h.cor fd co'
    grind
  · intro q fd hm
    have hold := h.held q fd hm
    grind
  · intro t' fd co' hw hc
    have hsleeps := h.watchedCor t' fd co' hw hc
    grind
  · intro t' co' fd event hr hp
    have hold := h.resumed t' co' fd event hr
    grind

/-- A coroutine registers at a descriptor that no other uses, and of its own reactor. -/
theorem Apart.register [DecidableEq F] [DecidableEq C] (h : w.Apart) (hrun : w.running t = some co)
    (hplace : w.place co = .hook fd event) (hcor : w.cor fd = none) (hown : ∀ r, w.reactor fd = some r → r = t)
    (hwatched : ∀ t' fd', watched t' fd' → w.watched t' fd' ∨ t' = t ∧ fd' = fd ∧ reactor fd = some t)
    (hreactor : ∀ fd' t', w.reactor fd' = some t' → reactor fd' = some t') :
    Apart { w with
      watched := watched
      reactor := reactor
      cor := Function.update w.cor fd (some co)
      place := Function.update w.place co (.registered fd event) } := by
  have hsole := h.sole hrun
  have hfree : ∀ co', ¬(w.place co').At fd := by
    intro co' hat
    have hat := (h.cor fd co').mpr hat
    simp [hcor] at hat
  have hheld : ∀ q, fd ∉ w.held q := by
    intro q hm
    obtain ⟨co', event', hc, -⟩ := h.held q fd hm
    simp [hcor] at hc
  refine ⟨?_, h.once, ?_, h.startsOnce, ?_, ?_, h.heldOnce, ?_, ?_, ?_⟩
  · intro t' co' hr
    have hold := h.awake t' co' hr
    grind [CorPlace.Awake]
  · intro t' co' hm
    have hold := h.starts t' co' hm
    grind
  · intro fd' co'
    have hat := h.cor fd' co'
    have hnone := hfree co'
    grind
  · intro q fd' hm
    have hold := h.held q fd' hm
    have hnot := hheld q
    grind
  · intro t' fd' hw
    rcases hwatched t' fd' hw with hw | ⟨rfl, rfl, hr⟩
    · obtain ⟨hr, hnot⟩ := h.watched t' fd' hw
      exact ⟨hreactor fd' t' hr, hnot⟩
    · exact ⟨hr, hheld⟩
  · intro t' fd' co' hw hc
    have hwas := hwatched t' fd' hw
    have hsleeps := h.watchedCor t' fd' co'
    have hself := h.watched t' fd'
    grind
  · intro t' co' fd' event' hr hp
    have hold := h.resumed t' co' fd' event' hr
    have hstays := hreactor fd' t'
    grind

/-- Behind `Yield`, the coroutine leaves the hook. -/
theorem Apart.leave [DecidableEq F] [DecidableEq C] (h : w.Apart) (hrun : w.running t = some co)
    (hplace : w.place co = .resumed fd event)
    (hwatched : ∀ t' fd', watched t' fd' → w.watched t' fd' ∨ t' = t ∧ fd' = fd)
    (hreactor : ∀ fd' t', w.reactor fd' = some t' → reactor fd' = some t') :
    Apart { w with
      watched := watched
      reactor := reactor
      cor := Function.update w.cor fd none
      place := Function.update w.place co .body } := by
  have hsole := h.sole hrun
  have hcor : w.cor fd = some co := (h.cor fd co).mpr (by simp [hplace, CorPlace.At])
  have hheld : ∀ q, fd ∉ w.held q := by
    intro q hm
    obtain ⟨co', event', hc, hp⟩ := h.held q fd hm
    rw [hcor] at hc
    cases hc
    rw [hplace] at hp
    cases hp
  refine ⟨?_, h.once, ?_, h.startsOnce, ?_, ?_, h.heldOnce, ?_, ?_, ?_⟩
  · intro t' co' hr
    have hold := h.awake t' co' hr
    grind [CorPlace.Awake]
  · intro t' co' hm
    have hold := h.starts t' co' hm
    grind
  · intro fd' co'
    have hat := h.cor fd' co'
    grind
  · intro q fd' hm
    have hold := h.held q fd' hm
    have hnot := hheld q
    grind
  · intro t' fd' hw
    rcases hwatched t' fd' hw with hw | ⟨rfl, rfl⟩
    · obtain ⟨hr, hnot⟩ := h.watched t' fd' hw
      exact ⟨hreactor fd' t' hr, hnot⟩
    · exact ⟨hreactor fd' t' (h.resumed t' co fd' event hrun hplace), hheld⟩
  · intro t' fd' co' hw hc
    have hwas := hwatched t' fd' hw
    have hsleeps := h.watchedCor t' fd' co'
    have hat := h.cor fd' co'
    grind
  · intro t' co' fd' event' hr hp
    have hold := h.resumed t' co' fd' event' hr
    have hstays := hreactor fd' t'
    grind

/-- A coroutine stops running: it waits at the descriptor where it is, or is at none. -/
theorem Apart.stop [DecidableEq T] [DecidableEq C] (h : w.Apart) (place : CorPlace F)
    (hrun : w.running t = some co) (hat : ∀ fd, place.At fd ↔ (w.place co).At fd)
    (hwaiting : ∀ fd, place.At fd → ∃ event, place = .waiting fd event) :
    Apart { w with
      running := Function.update w.running t none
      place := Function.update w.place co place } := by
  have hsole := h.sole hrun
  have hawake := h.awake t co hrun
  refine ⟨?_, ?_, ?_, h.startsOnce, ?_, ?_, h.heldOnce, h.watched, ?_, ?_⟩
  · intro t' co' hr
    have hold := h.awake t' co'
    grind
  · intro t₁ t₂ co' h₁ h₂
    have hold := h.once t₁ t₂ co'
    grind
  · intro t' co' hm
    have hold := h.starts t' co' hm
    grind [CorPlace.Awake]
  · intro fd co'
    have hold := h.cor fd co'
    grind
  · intro q fd hm
    have hold := h.held q fd hm
    grind [CorPlace.Awake]
  · intro t' fd co' hw hc
    have hsleeps := h.watchedCor t' fd co' hw hc
    have hcor := h.cor fd co'
    grind
  · intro t' co' fd event hr hp
    have hold := h.resumed t' co' fd event
    grind

theorem Apart.yield [DecidableEq T] [DecidableEq C] (h : w.Apart) (hrun : w.running t = some co)
    (hplace : w.place co = .registered fd event) :
    Apart { w with
      running := Function.update w.running t none
      place := Function.update w.place co (.waiting fd event) } := by
  refine h.stop (.waiting fd event) hrun (fun fd' => ?_) fun fd' hat => ⟨event, ?_⟩
  · simp [hplace]
  · rw [CorPlace.at_waiting.mp hat]

theorem Apart.finish [DecidableEq T] [DecidableEq C] (h : w.Apart) (hrun : w.running t = some co)
    (hplace : w.place co = .body) :
    Apart { w with
      running := Function.update w.running t none
      place := Function.update w.place co .idle } := by
  refine h.stop .idle hrun (fun fd => ?_) fun fd hat => hat.elim
  simp [hplace]

end Whereabouts

end Tirpc
