import Tirpc.Base.FdEvent

/-!
# One event for each file descriptor

A thread that finds a descriptor outside of the table may find it inside when it comes to write, as others have grown
the table. The loop then starts behind what they have made.
-/

namespace Tirpc

open Lib

variable {T : Type} {fd : Int} {p : Nat}

namespace FdEventContainer

variable {c c' c'' : FdEventContainer}

/-- The entry of a descriptor is an event that was made for it. -/
def MadeFor (c : FdEventContainer) : Prop := ∀ (i : Nat) p, c.fds[i]? = some p → c.made[p]? = some (i : Int)

/-- Events and entries are only added. -/
structure Extends (c c' : FdEventContainer) : Prop where
  made : c.made <+: c'.made
  fds : c.fds <+: c'.fds

/-- A table of at least two entries, whose size is an `int`. -/
structure Table (c : FdEventContainer) : Prop where
  two : 2 ≤ c.fds.length
  fits : c.fds.length < 2147483648
  madeFor : c.MadeFor

/-! ## Growing -/

theorem Extends.refl (c : FdEventContainer) : Extends c c := ⟨List.prefix_rfl, List.prefix_rfl⟩

theorem Extends.trans (h : Extends c c') (h' : Extends c' c'') : Extends c c'' :=
  ⟨h.made.trans h'.made, h.fds.trans h'.fds⟩

/-- What stands at a place of a list stays there when the list grows. -/
theorem getElem?_kept {α : Type} {l l' : List α} {i : Nat} {a : α} (h : l <+: l') (ha : l[i]? = some a) :
    l'[i]? = some a := by
  obtain ⟨hlt, rfl⟩ := List.getElem?_eq_some_iff.mp ha
  exact List.prefix_iff_getElem?.mp h i hlt

theorem Extends.entry (h : Extends c c') (he : c.entry fd = some p) : c'.entry fd = some p := by
  unfold FdEventContainer.entry at he ⊢
  split at he
  · rename_i hfd
    rw [if_pos hfd]
    exact getElem?_kept h.fds he
  · cases he

theorem entry_of_lt (hfd : 0 ≤ fd) (hlt : fd < c.fds.length) : ∃ p, c.entry fd = some p := by
  have hn : fd.toNat < c.fds.length := by omega
  exact ⟨c.fds[fd.toNat], by rw [entry, if_pos hfd, List.getElem?_eq_getElem hn]⟩

theorem makeShared_extends (i : Int) : Extends c (c.makeShared i) := ⟨List.prefix_append _ _, List.prefix_rfl⟩

theorem pushBack_extends (i : Int) : Extends c (c.pushBack i) := ⟨List.prefix_append _ _, List.prefix_append _ _⟩

theorem MadeFor.makeShared (h : c.MadeFor) (i : Int) : (c.makeShared i).MadeFor := fun j p hp =>
  getElem?_kept (makeShared_extends i).made (h j p hp)

theorem MadeFor.pushBack (h : c.MadeFor) : (c.pushBack c.fds.length).MadeFor := by
  intro i p hp
  rcases Nat.lt_or_ge i c.fds.length with hi | hi
  · have hold : c.fds[i]? = some p := by rwa [FdEventContainer.pushBack, List.getElem?_append_left hi] at hp
    exact getElem?_kept (pushBack_extends _).made (h i p hold)
  · -- behind the others stands the new event
    rw [FdEventContainer.pushBack, List.getElem?_append_right hi] at hp
    obtain ⟨hlt, rfl⟩ := List.getElem?_eq_some_iff.mp hp
    have hi : i = c.fds.length := by
      rw [List.length_singleton] at hlt
      omega
    subst hi
    simp [FdEventContainer.pushBack]

/-- The loop makes an event for each descriptor from the end of the table on. -/
theorem pushFrom_spec (h : c.MadeFor) (n : Nat) : (c.pushFrom c.fds.length n).MadeFor ∧
    Extends c (c.pushFrom c.fds.length n) ∧ (c.pushFrom c.fds.length n).fds.length = c.fds.length + n := by
  induction n generalizing c with
  | zero => exact ⟨h, .refl c, rfl⟩
  | succ n ih =>
      have hlen : ((c.pushBack c.fds.length).fds.length : Int) = c.fds.length + 1 := by
        rw [pushBack, List.length_append, List.length_singleton, Int.natCast_add, Int.natCast_one]
      obtain ⟨hmade, hext, hsize⟩ := ih h.pushBack
      rw [hlen] at hmade hext hsize
      refine ⟨hmade, (pushBack_extends _).trans hext, ?_⟩
      rw [pushFrom, hsize]
      omega

/-- The half of a descriptor of two on does not vanish. -/
theorem lt_enlarged (hfd : 2 ≤ fd) : fd < enlarged fd := by
  rw [enlarged, Int.tdiv_eq_ediv_of_nonneg (by omega)]
  omega

theorem new_table {made : List Int} {size : Int} (hsize : 2 ≤ size) (hint : IsInt32 size) : Table (new made size) := by
  have hnil : MadeFor { made := made } := fun i p hp => by cases hp
  obtain ⟨hmade, -, hlen⟩ := pushFrom_spec hnil size.toNat
  have hlen : (new made size).fds.length = 0 + size.toNat := hlen
  have hmax := hint.2
  exact ⟨by omega, by omega, hmade⟩

/-! ## Sections -/

namespace Table

theorem size_eq (h : Table c) : c.size = c.fds.length := by
  have hfits := h.fits
  exact wrap32_eq ⟨by omega, by omega⟩

theorem readSection (h : Table c) (hfd : 0 ≤ fd) (hlt : fd < c.size) : ∃ p, c.entry fd = some p :=
  entry_of_lt hfd (h.size_eq ▸ hlt)

theorem writeSection (h : Table c) (hfd : 0 ≤ fd) (hn : IsInt32 (enlarged fd)) :
    ∃ p grown, c.writeSection fd = some (p, grown) ∧ Table grown ∧ Extends c grown ∧ grown.entry fd = some p := by
  have htwo := h.two
  have hfits := h.fits
  obtain ⟨hmade, hext, hlen⟩ := pushFrom_spec h.madeFor (enlarged fd - c.fds.length).toNat
  have hgreater : 2 ≤ fd → fd < enlarged fd := lt_enlarged
  obtain ⟨p, hp⟩ := entry_of_lt (c := c.pushFrom c.fds.length (enlarged fd - c.fds.length).toNat) hfd (by omega)
  have hmax := hn.2
  refine ⟨p, _, ?_, ⟨by omega, by omega, hmade⟩, hext, hp⟩
  simp only [FdEventContainer.writeSection, if_pos hn, h.size_eq, hp, Option.map_some]

end Table

end FdEventContainer

open FdEventContainer

/-! ## Runs -/

/-- Calls are under way for descriptors that fit, and what has been returned is in the table. -/
structure Serving (s : FdEventThreads T) : Prop where
  table : s.container.Table
  fits : ∀ t fd, s.places t = .reading fd ∨ s.places t = .writing fd → 0 ≤ fd ∧ IsInt32 (enlarged fd)
  returned : ∀ r ∈ s.returned, ∃ p, r.event = some p ∧ s.container.entry r.fd = some p

/-- The entries are the events made for their descriptors, no entry is replaced, every access was inside of the
table, and calls for one descriptor have returned one event. -/
structure SameEvents [DecidableEq T] (s : FdEventThreads T) : Prop where
  madeFor : s.container.MadeFor
  kept : ∀ s', Reachable getFdEventNext (· = s) DescriptorsFit s' → s.container.Extends s'.container
  inRange : ∀ r ∈ s.returned, ∃ p, r.event = some p ∧ s.container.entry r.fd = some p
  same : ∀ r ∈ s.returned, ∀ r' ∈ s.returned, r.fd = r'.fd → r.event = r'.event

variable [DecidableEq T] {s s' : FdEventThreads T} {t : T}

namespace Serving

theorem goto (h : Serving s) {place : GetFdEventPlace}
    (hfits : ∀ fd, place = .reading fd ∨ place = .writing fd → 0 ≤ fd ∧ IsInt32 (enlarged fd)) :
    Serving (s.goto t place) := by
  refine ⟨h.table, fun t' fd hplace => ?_, h.returned⟩
  have hplace : Function.update s.places t place t' = .reading fd ∨ Function.update s.places t place t' = .writing fd :=
    hplace
  by_cases ht : t' = t
  · subst ht
    rw [Function.update_self] at hplace
    exact hfits fd hplace
  · rw [Function.update_of_ne ht] at hplace
    exact h.fits t' fd hplace

theorem return_ (h : Serving s) {grown : FdEventContainer} (htable : Table grown)
    (hext : s.container.Extends grown) (he : grown.entry fd = some p) :
    Serving { s.return_ t fd (some p) with container := grown } := by
  have hleft : Serving (s.goto t .outside) := h.goto (by rintro fd' (he | he) <;> cases he)
  refine ⟨htable, hleft.fits, fun r hr => ?_⟩
  rcases List.mem_append.mp hr with hr | hr
  · obtain ⟨q, hq, hentry⟩ := h.returned r hr
    exact ⟨q, hq, hext.entry hentry⟩
  · obtain rfl := List.mem_singleton.mp hr
    exact ⟨p, rfl, he⟩

theorem step (h : Serving s) {l : GetFdEventStep T} (hok : DescriptorsFit s l) (hn : getFdEventNext s l = some s') :
    Serving s' ∧ s.container.Extends s'.container := by
  cases l with
  | call t fd =>
      obtain ⟨-, hn⟩ := Option.ite_none_right_eq_some.mp hn
      cases hn
      exact ⟨h.goto (by rintro fd' (he | he) <;> cases he; exact hok), .refl _⟩
  | readSection t =>
      rw [getFdEventNext] at hn
      split at hn
      · rename_i fd hplace
        have hfits := h.fits t fd (.inl hplace)
        split at hn
        · rename_i hlt
          obtain ⟨p, hp⟩ := h.table.readSection hfits.1 hlt
          cases hn
          rw [hp]
          exact ⟨h.return_ h.table (.refl _) hp, .refl _⟩
        · cases hn
          exact ⟨h.goto (by rintro fd' (he | he) <;> cases he; exact hfits), .refl _⟩
      · cases hn
  | writeSection t =>
      rw [getFdEventNext] at hn
      split at hn
      · rename_i fd hplace
        have hfits := h.fits t fd (.inr hplace)
        obtain ⟨p, grown, hw, htable, hext, hp⟩ := h.table.writeSection hfits.1 hfits.2
        rw [hw] at hn
        cases hn
        exact ⟨h.return_ htable hext hp, hext⟩
      · cases hn
  | makeShared fd =>
      cases hn
      refine ⟨⟨⟨h.table.two, h.table.fits, h.table.madeFor.makeShared fd⟩, h.fits, h.returned⟩, makeShared_extends fd⟩

theorem of_reachable (h : Reachable getFdEventNext NewFdEvents DescriptorsFit s) : Serving s := by
  refine h.invariant (fun s hs => ?_) fun s s' l hI hok hn => (hI.step hok hn).1
  obtain ⟨⟨made, size, hsize, hint, hc⟩, hplaces, hreturned⟩ := hs
  refine ⟨hc ▸ new_table hsize hint, fun t fd hplace => ?_, fun r hr => ?_⟩
  · rw [hplaces] at hplace
    rcases hplace with he | he <;> cases he
  · rw [hreturned] at hr
    cases hr

end Serving

/-- Whatever the order of the sections, calls with one descriptor return one event. -/
theorem getFdEvent_same (h : Reachable getFdEventNext NewFdEvents DescriptorsFit s) : SameEvents s := by
  have hs := Serving.of_reachable h
  refine ⟨hs.table.madeFor, fun s' hs' => ?_, hs.returned, fun r hr r' hr' hfd => ?_⟩
  · have hfrom : ∀ s₁, s₁ = s → Serving s₁ ∧ s.container.Extends s₁.container := by
      rintro _ rfl
      exact ⟨hs, .refl _⟩
    have hboth : Serving s' ∧ s.container.Extends s'.container := by
      refine hs'.invariant hfrom fun s₁ s₂ l hI hok hn => ?_
      obtain ⟨hserving, hext⟩ := hI.1.step hok hn
      exact ⟨hserving, hI.2.trans hext⟩
    exact hboth.2
  · obtain ⟨p, hp, hentry⟩ := hs.returned r hr
    obtain ⟨q, hq, hentry'⟩ := hs.returned r' hr'
    rw [hfd, hentry'] at hentry
    rw [hp, hq, hentry]

/-- Two threads find the table too small, and both grow it. -/
theorem getFdEvent_same_both_grow : ∃ s : FdEventThreads Bool,
    s.returned = [⟨false, 5, some 5⟩, ⟨true, 3, some 3⟩, ⟨true, 8, some 9⟩, ⟨false, 8, some 9⟩] ∧ SameEvents s := by
  have hstart : Reachable getFdEventNext NewFdEvents DescriptorsFit
      ({ container := .new [] 2 } : FdEventThreads Bool) :=
    .start ⟨⟨[], 2, by decide, by decide, rfl⟩, fun _ => rfl, rfl⟩
  have hok : RunOk getFdEventNext DescriptorsFit ({ container := .new [] 2 } : FdEventThreads Bool)
      [.call false 5, .call true 3, .readSection true, .readSection false, .writeSection false, .makeShared 9,
        .writeSection true, .call true 8, .call false 8, .readSection true, .readSection false, .writeSection true,
        .writeSection false] := by decide
  obtain ⟨s, hs, hreturned⟩ : ∃ s, runLabels getFdEventNext ({ container := .new [] 2 } : FdEventThreads Bool)
      [.call false 5, .call true 3, .readSection true, .readSection false, .writeSection false, .makeShared 9,
        .writeSection true, .call true 8, .call false 8, .readSection true, .readSection false, .writeSection true,
        .writeSection false] = some s ∧
      s.returned = [⟨false, 5, some 5⟩, ⟨true, 3, some 3⟩, ⟨true, 8, some 9⟩, ⟨false, 8, some 9⟩] := ⟨_, rfl, rfl⟩
  exact ⟨s, hreturned, getFdEvent_same (hstart.of_runOk hok hs)⟩

end Tirpc
