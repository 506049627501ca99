import Tirpc.Lib.Rotation
import Tirpc.Tcp.LoadBalance

/-!
# Turns of channels that share a cursor

The cursor counts the calls of all channels together. A channel goes round its addresses as long as it finds
the cursor where it left it.
-/

namespace Tirpc

open Lib

variable {C A : Type} {channels : C → BalancedChannel A} {s s' : RoundRun C A} {c : C}

/-- The calls of the other channels do not show: what a channel uses follows from the place where it begins, and in
any `n` calls in a row a channel with `n` addresses uses each of them once. -/
structure FairTurns (channels : C → BalancedChannel A) (s : RoundRun C A) : Prop where
  own : ∀ c, ∃ i, GoesRound (channels c).addrs i (s.used c)
  once : ∀ c k, k + (channels c).addrs.length ≤ (s.used c).length →
    (((s.used c).drop k).take (channels c).addrs.length).Perm (channels c).addrs

/-- The addresses fit an `int`; and the list is served from the same place as if the cursor still stood where the
last call of the channel left it. -/
structure KeepsTurn (channels : C → BalancedChannel A) (s : RoundRun C A) (c : C) : Prop where
  fits : (channels c).addrs.length < 2147483648
  undisturbed : ∀ i ∈ s.cursorLeft c,
    s.strategy.place (channels c).addrs.length = RoundLoadBalanceStrategy.place ⟨i⟩ (channels c).addrs.length

instance (channels : C → BalancedChannel A) (s : RoundRun C A) (c : C) : Decidable (KeepsTurn channels s c) :=
  decidable_of_iff ((channels c).addrs.length < 2147483648 ∧ ∀ i ∈ s.cursorLeft c,
    s.strategy.place (channels c).addrs.length = RoundLoadBalanceStrategy.place ⟨i⟩ (channels c).addrs.length)
    ⟨fun h => ⟨h.1, h.2⟩, fun h => ⟨h.fits, h.undisturbed⟩⟩

theorem place_eq {strategy : RoundLoadBalanceStrategy} {n : Nat} (hn : n < 2147483648) :
    strategy.place n = if n ≤ strategy.index then 0 else strategy.index := by
  have hwrap : wrap32 n = n := wrap32_eq ⟨by omega, by omega⟩
  simp only [RoundLoadBalanceStrategy.place, hwrap, Int.ofNat_le]

/-- The channel goes round its addresses, and left the cursor behind the last one that it used. -/
def GoesItsTurn (channels : C → BalancedChannel A) (s : RoundRun C A) (c : C) : Prop :=
  ∃ i, GoesRound (channels c).addrs i (s.used c) ∧
    (s.used c ≠ [] → ∃ j, s.cursorLeft c = some j ∧
      RoundLoadBalanceStrategy.place ⟨j⟩ (channels c).addrs.length = (i + (s.used c).length) % (channels c).addrs.length)

variable [DecidableEq C]

/-- What a call that uses the strategy does. -/
theorem roundNext_cases (h : roundNext channels s c = some s') :
    s' = s ∨ ∃ addr, (channels c).addrs[s.strategy.place (channels c).addrs.length]? = some addr ∧
      s'.used = Function.update s.used c (s.used c ++ [addr]) ∧
      s'.cursorLeft = Function.update s.cursorLeft c (some (s.strategy.place (channels c).addrs.length + 1)) := by
  unfold roundNext at h
  split at h
  · simp only [RoundLoadBalanceStrategy.select, Option.map_map, Option.map_eq_some_iff] at h
    obtain ⟨addr, haddr, rfl⟩ := h
    exact .inr ⟨addr, haddr, rfl, rfl⟩
  · cases h
    exact .inl rfl

/-- Behind the place that has been served comes the next one, or the first again. -/
theorem place_after {n i : Nat} (hn : n < 2147483648) (hi : i < n) :
    RoundLoadBalanceStrategy.place ⟨i + 1⟩ n = (i + 1) % n := by
  rw [place_eq hn]
  dsimp only
  rcases Nat.eq_or_lt_of_le (Nat.succ_le_of_lt hi) with rfl | hlt
  · rw [if_pos (Nat.le_refl _), Nat.mod_self]
  · rw [if_neg (by omega), Nat.mod_eq_of_lt hlt]

theorem goesItsTurn_step {b : C} (h : ∀ c, GoesItsTurn channels s c) (hok : KeepsTurn channels s b)
    (hn : roundNext channels s b = some s') : ∀ c, GoesItsTurn channels s' c := by
  intro c
  rcases roundNext_cases hn with rfl | ⟨addr, haddr, hused, hleft⟩
  · exact h c
  · by_cases hc : c = b
    · subst hc
      have hplace : s.strategy.place (channels c).addrs.length < (channels c).addrs.length :=
        (List.getElem?_eq_some_iff.mp haddr).1
      obtain ⟨i, hround, hlast⟩ := h c
      obtain ⟨i, hround, hi⟩ : ∃ i, GoesRound (channels c).addrs i (s.used c) ∧
          (i + (s.used c).length) % (channels c).addrs.length = s.strategy.place (channels c).addrs.length := by
        by_cases hnil : s.used c = []
        · refine ⟨s.strategy.place (channels c).addrs.length, hnil ▸ goesRound_nil, ?_⟩
          rw [hnil, List.length_nil, Nat.add_zero, Nat.mod_eq_of_lt hplace]
        · obtain ⟨j, hj, hjp⟩ := hlast hnil
          exact ⟨i, hround, by rw [← hjp, hok.undisturbed j hj]⟩
      refine ⟨i, ?_, fun _ => ⟨_, by rw [hleft, Function.update_self], ?_⟩⟩
      · rw [hused, Function.update_self]
        exact hround.concat (hi ▸ haddr)
      · rw [place_after hok.fits hplace, hused, Function.update_self, List.length_append, List.length_singleton,
          ← Nat.add_assoc, Nat.add_mod (i + _), hi, ← hi]
        simp
    · obtain ⟨i, hround, hlast⟩ := h c
      refine ⟨i, ?_, ?_⟩
      · rw [hused, Function.update_of_ne hc]
        exact hround
      · rw [hused, hleft, Function.update_of_ne hc, Function.update_of_ne hc]
        exact hlast

/-- In every run in which each call finds the cursor where the last call of its channel left it, every channel
goes round its own addresses. -/
theorem turns_fair (channels : C → BalancedChannel A)
    (h : Reachable (roundNext channels) RoundStart (KeepsTurn channels) s) : FairTurns channels s := by
  have hinv : ∀ c, GoesItsTurn channels s c := by
    refine h.invariant (fun s hs => ?_) fun s s' b hI hok hn => goesItsTurn_step hI hok hn
    subst hs
    exact fun c => ⟨0, goesRound_nil, fun hne => absurd rfl hne⟩
  refine ⟨fun c => ?_, fun c k hk => ?_⟩
  · obtain ⟨i, hround, -⟩ := hinv c
    exact ⟨i, hround⟩
  · obtain ⟨i, hround, -⟩ := hinv c
    exact hround.window_perm hk

/-! ## Two channels with two addresses each -/

def twoChannels : Bool → BalancedChannel Nat := fun _ => .new [1, 2] .round

/-- Each of the two channels is always given the same one of its addresses. -/
theorem turns_mixed_up : ∃ s : RoundRun Bool Nat, Reachable (roundNext twoChannels) RoundStart anyStep s ∧
    s.used false = [1, 1] ∧ s.used true = [2, 2] ∧ ¬FairTurns twoChannels s := by
  have hstart : Reachable (roundNext twoChannels) RoundStart anyStep {} := .start rfl
  obtain ⟨s, hs, hfalse, htrue⟩ : ∃ s, runLabels (roundNext twoChannels) {} [false, true, false, true] = some s ∧
      s.used false = [1, 1] ∧ s.used true = [2, 2] := ⟨_, rfl, rfl, rfl⟩
  refine ⟨s, hstart.of_run hs, hfalse, htrue, fun h => ?_⟩
  have hperm := h.once false 0 (by rw [hfalse]; decide)
  rw [hfalse] at hperm
  exact absurd hperm (by decide)

/-- The two channels go round one after the other. -/
theorem turns_fair_in_blocks : ∃ s : RoundRun Bool Nat, s.used false = [1, 2] ∧ s.used true = [1, 2] ∧
    FairTurns twoChannels s := by
  have hstart : Reachable (roundNext twoChannels) RoundStart (KeepsTurn twoChannels) {} := .start rfl
  have hok : RunOk (roundNext twoChannels) (KeepsTurn twoChannels) {} [false, false, true, true] := by decide
  obtain ⟨s, hs, hfalse, htrue⟩ : ∃ s, runLabels (roundNext twoChannels) {} [false, false, true, true] = some s ∧
      s.used false = [1, 2] ∧ s.used true = [1, 2] := ⟨_, rfl, rfl, rfl⟩
  exact ⟨s, hfalse, htrue, turns_fair twoChannels (hstart.of_runOk hok hs)⟩

end Tirpc
