import Tirpc.Tcp.Theorems.LoadBalance

/-!
# The cursor of the Round strategy when lists differ in size

A longer list may leave the cursor behind the end of the next one. It is taken back at the next call, so that
nothing of it shows in what the calls use.
-/

namespace Tirpc

open Lib

namespace RoundLoadBalanceStrategy

variable {A : Type} {s : RoundLoadBalanceStrategy} {calls : List (List A)} {used : List Nat} {n : Nat}

/-- Each call is served from within its own list, and `n` calls in a row with lists of `n` addresses use every
place once. -/
def Fair (s : RoundLoadBalanceStrategy) (calls : List (List A)) : Prop :=
  ∃ used, s.selects calls = some used ∧ List.Forall₂ (fun i addrs => i < addrs.length) used calls ∧
    ∀ k n, k + n ≤ calls.length → (∀ addrs ∈ (calls.drop k).take n, addrs.length = n) →
      ((used.drop k).take n).Perm (List.range n)

/-- No `n` calls in a row have lists of one size `n` that does not fit an `int`. -/
def SizesFit (calls : List (List A)) : Prop :=
  ∀ k n, k + n ≤ calls.length → (∀ addrs ∈ (calls.drop k).take n, addrs.length = n) → n < 2147483648

/-! ## One call -/

theorem place_lt (hn : 0 < n) : s.place n < n := by
  have hwrap : wrap32 n ≤ n := by simp only [wrap32]; omega
  simp only [place]
  split
  · exact hn
  · omega

/-- A list that does not fit an `int` is never served from its end. -/
theorem place_lt_of_overlong (hn : 2147483648 ≤ n) : s.place n + 1 < n := by
  have hwrap : wrap32 n < 2147483648 := (isInt32_wrap32 n).2
  simp only [place]
  split <;> omega

theorem select_eq {addrs : List A} (hne : addrs ≠ []) :
    ∃ addr, s.select addrs = some (addr, ⟨s.place addrs.length + 1⟩) := by
  have hlt : s.place addrs.length < addrs.length := place_lt (List.length_pos_of_ne_nil hne)
  exact ⟨addrs[s.place addrs.length], by rw [select, List.getElem?_eq_getElem hlt, Option.map_some]⟩

theorem selects_cons {addrs : List A} (hne : addrs ≠ []) :
    s.selects (addrs :: calls) =
      (selects ⟨s.place addrs.length + 1⟩ calls).map (s.place addrs.length :: ·) := by
  obtain ⟨addr, hsel⟩ := select_eq (s := s) hne
  rw [selects, hsel, Option.bind_some]

/-! ## Calls in a row -/

theorem selects_within (hne : ∀ addrs ∈ calls, addrs ≠ []) :
    ∃ used, s.selects calls = some used ∧ List.Forall₂ (fun i addrs => i < addrs.length) used calls := by
  induction calls generalizing s with
  | nil => exact ⟨[], rfl, .nil⟩
  | cons addrs calls ih =>
      obtain ⟨hhead, htail⟩ := List.forall_mem_cons.mp hne
      obtain ⟨used, hused, hwithin⟩ := ih (s := ⟨s.place addrs.length + 1⟩) htail
      exact ⟨_, by rw [selects_cons hhead, hused, Option.map_some],
        .cons (place_lt (List.length_pos_of_ne_nil hhead)) hwithin⟩

/-- The calls from the `k`-th on are served as calls in a row from some cursor. -/
theorem selects_drop (h : s.selects calls = some used) (k : Nat) :
    ∃ s' : RoundLoadBalanceStrategy, s'.selects (calls.drop k) = some (used.drop k) := by
  induction k generalizing s calls used with
  | zero => exact ⟨s, h⟩
  | succ k ih =>
      cases calls with
      | nil => cases h; exact ⟨s, rfl⟩
      | cons addrs calls =>
          obtain ⟨⟨addr, s₁⟩, -, h⟩ := Option.bind_eq_some_iff.mp h
          obtain ⟨rest, hrest, rfl⟩ := Option.map_eq_some_iff.mp h
          exact ih hrest

theorem selects_take (h : s.selects calls = some used) (k : Nat) :
    s.selects (calls.take k) = some (used.take k) := by
  induction k generalizing s calls used with
  | zero => rfl
  | succ k ih =>
      cases calls with
      | nil => cases h; rfl
      | cons addrs calls =>
          obtain ⟨⟨addr, s₁⟩, hsel, h⟩ := Option.bind_eq_some_iff.mp h
          obtain ⟨rest, hrest, rfl⟩ := Option.map_eq_some_iff.mp h
          rw [List.take_succ_cons, List.take_succ_cons, selects, hsel, Option.bind_some]
          exact Option.map_eq_some_iff.mpr ⟨_, ih hrest, rfl⟩

theorem selects_length (h : s.selects calls = some used) : used.length = calls.length := by
  induction calls generalizing s used with
  | nil => cases h; rfl
  | cons addrs calls ih =>
      obtain ⟨⟨addr, s₁⟩, -, h⟩ := Option.bind_eq_some_iff.mp h
      obtain ⟨rest, hrest, rfl⟩ := Option.map_eq_some_iff.mp h
      rw [List.length_cons, List.length_cons, ih hrest]

/-- Calls with lists of one size go round the places, from wherever the cursor stood. -/
theorem selects_goesRound (hn : n < 2147483648) (hsize : ∀ addrs ∈ calls, addrs.length = n)
    (h : s.selects calls = some used) : GoesRound (List.range n) (s.place n) used := by
  induction calls generalizing s used with
  | nil => cases h; exact goesRound_nil
  | cons addrs calls ih =>
      obtain ⟨hhead, htail⟩ := List.forall_mem_cons.mp hsize
      obtain ⟨⟨addr, s₁⟩, hsel, h⟩ := Option.bind_eq_some_iff.mp h
      obtain ⟨rest, hrest, rfl⟩ := Option.map_eq_some_iff.mp h
      obtain ⟨a, ha, he⟩ := Option.map_eq_some_iff.mp hsel
      cases he
      have hlt : s.place addrs.length < addrs.length := (List.getElem?_eq_some_iff.mp ha).1
      rw [hhead] at hlt hrest ⊢
      have hround := ih htail hrest
      rw [place_after hn hlt] at hround
      intro k hk
      rw [List.length_range]
      cases k with
      | zero => rw [List.getElem?_cons_zero, Nat.add_zero, Nat.mod_eq_of_lt hlt, List.getElem?_range hlt]
      | succ k =>
          rw [List.getElem?_cons_succ, hround k (Nat.lt_of_succ_lt_succ hk), List.length_range, Nat.mod_add_mod,
            Nat.add_right_comm, Nat.add_assoc]

/-- `n` calls with lists of `n` addresses use every place once, just when `n` fits an `int`. -/
theorem selects_perm_iff (hsize : ∀ addrs ∈ calls, addrs.length = n) (hlen : calls.length = n)
    (h : s.selects calls = some used) : used.Perm (List.range n) ↔ n < 2147483648 := by
  have hused : used.length = n := (selects_length h).trans hlen
  constructor
  · intro hperm
    by_contra hover
    have hlast : n - 1 ∈ used := hperm.mem_iff.mpr (List.mem_range.mpr (by omega))
    -- no cursor reaches the last address
    have hnot : ∀ i ∈ used, i + 1 < n := by
      clear hperm hlast hused hlen
      induction calls generalizing s used with
      | nil => cases h; exact fun i hi => absurd hi List.not_mem_nil
      | cons addrs calls ih =>
          obtain ⟨hhead, htail⟩ := List.forall_mem_cons.mp hsize
          obtain ⟨⟨addr, s₁⟩, -, h⟩ := Option.bind_eq_some_iff.mp h
          obtain ⟨rest, hrest, rfl⟩ := Option.map_eq_some_iff.mp h
          refine List.forall_mem_cons.mpr ⟨?_, ih htail hrest⟩
          rw [hhead]
          exact place_lt_of_overlong (by omega)
    have hlt := hnot _ hlast
    omega
  · intro hn
    have hround := selects_goesRound hn hsize h
    have hperm := hround.window_perm (k := 0) (by rw [List.length_range]; omega)
    rwa [List.drop_zero, List.length_range, List.take_of_length_le (by omega)] at hperm

/-- The lists whose size fits an `int` are served fairly, after calls of whatever sizes and from every cursor. -/
theorem select_fair_iff (s : RoundLoadBalanceStrategy) (hne : ∀ addrs ∈ calls, addrs ≠ []) :
    s.Fair calls ↔ SizesFit calls := by
  obtain ⟨used, hused, hwithin⟩ := selects_within (s := s) hne
  have hwindow : ∀ k n, k + n ≤ calls.length → (∀ addrs ∈ (calls.drop k).take n, addrs.length = n) →
      (((used.drop k).take n).Perm (List.range n) ↔ n < 2147483648) := by
    intro k n hk hsize
    obtain ⟨s', hs'⟩ := selects_drop hused k
    exact selects_perm_iff hsize (by simp; omega) (selects_take hs' n)
  constructor
  · rintro ⟨used', hused', -, honce⟩ k n hk hsize
    cases hused.symm.trans hused'
    exact (hwindow k n hk hsize).mp (honce k n hk hsize)
  · intro hfit
    exact ⟨used, hused, hwithin, fun k n hk hsize => (hwindow k n hk hsize).mpr (hfit k n hk hsize)⟩

/-- A list of five leaves the cursor at its end, behind the lists of two that follow. -/
theorem select_fair_after_longer : selects ⟨4⟩ [[1, 2, 3, 4, 5], [1, 2], [1, 2], [1]] = some [4, 0, 1, 0] ∧
    Fair ⟨4⟩ [[1, 2, 3, 4, 5], [1, 2], [1, 2], [1]] := by
  refine ⟨rfl, (select_fair_iff ⟨4⟩ (by decide)).mpr fun k n hk _ => ?_⟩
  simp only [List.length_cons, List.length_nil] at hk
  omega

/-- The size of a list of 2147483648 addresses is negative as an `int`, and every call begins at the front. -/
theorem select_unfair_overlong : ¬Fair {} (List.replicate 2147483648 (List.replicate 2147483648 ())) := by
  rintro ⟨used, hused, -, honce⟩
  have hsize : ∀ addrs ∈ List.replicate 2147483648 (List.replicate 2147483648 ()), addrs.length = 2147483648 := by
    intro addrs haddrs
    rw [List.eq_of_mem_replicate haddrs, List.length_replicate]
  have hperm := honce 0 2147483648 (by rw [List.length_replicate]) fun addrs haddrs =>
    hsize addrs (List.mem_of_mem_take haddrs)
  rw [List.drop_zero, List.take_of_length_le (by rw [selects_length hused, List.length_replicate])] at hperm
  exact absurd ((selects_perm_iff hsize List.length_replicate hused).mp hperm) (Nat.lt_irrefl _)

end RoundLoadBalanceStrategy

end Tirpc
