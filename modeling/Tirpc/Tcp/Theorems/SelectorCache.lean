import Tirpc.Common.Md5
import Tirpc.Tcp.Theorems.Ring

/-!
# The cache of selectors

The hash code of the list goes through an `int` before it is stored in the selector. A later call compares its own
hash code with what is left of it.
-/

namespace Tirpc

open Lib ConsistentHashLoadBalanceStrategy

variable {A : Type} {env : HashEnv A} {s s' : CacheRun A} {l : List A × TinyPbStruct}

/-- A hash code that an `int` passes on. -/
def FitsInt (h : Nat) : Prop := h < 2147483648 ∨ 18446744071562067968 ≤ h

instance (h : Nat) : Decidable (FitsInt h) := inferInstanceAs (Decidable (_ ∨ _))

/-- What the selector stores of a hash code. -/
def storedHash (h : Nat) : Nat := sizeT (wrap32 h)

/-- The selector was taken exactly when the hash codes of the two lists are the same. -/
def RightlyCached (env : HashEnv A) (c : CacheCall A) : Prop :=
  c.reused = true ↔ ∃ addrs, c.builtFrom = some addrs ∧ hashCode env addrs = hashCode env c.addrs

/-- The selector of a service is the ring of the list that it was built from. -/
def RingsOfLists (env : HashEnv A) (s : CacheRun A) : Prop :=
  ∀ service, Option.Rel
    (fun addrs selector => ConsistentHashSelector.new env addrs 160 (hashCode env addrs) = some selector)
    (s.built service) (s.strategy.selectors service)

structure CacheSound (env : HashEnv A) (s : CacheRun A) : Prop where
  rings : RingsOfLists env s
  reuse : ∀ c ∈ s.calls, RightlyCached env c
  unchanged : ∀ c ∈ s.calls, c.builtFrom = some c.addrs → c.reused = true
  fresh : ∀ c ∈ s.calls, hashCode env c.servedFrom = hashCode env c.addrs

/-- The hash code of the list that the selector was built from fits an `int`, or the list of the call has neither this
hash code nor what is left of it. -/
def KeepsHash (env : HashEnv A) (s : CacheRun A) (l : List A × TinyPbStruct) : Prop :=
  ∀ addrs ∈ s.built (calledService l.2), FitsInt (hashCode env addrs) ∨
    hashCode env l.1 ≠ hashCode env addrs ∧ hashCode env l.1 ≠ storedHash (hashCode env addrs)

theorem hashCode_lt (env : HashEnv A) (addrs : List A) : hashCode env addrs < 18446744073709551616 := by
  induction addrs using List.reverseRecOn with
  | nil =>
      rw [hashCode, List.foldl_nil]
      decide
  | append_singleton addrs item ih =>
      rw [hashCode, List.foldl_append]
      exact Nat.mod_lt _ (by decide)

theorem storedHash_eq_iff {h : Nat} (hh : h < 18446744073709551616) : storedHash h = h ↔ FitsInt h := by
  simp only [storedHash, sizeT, wrap32, FitsInt]
  omega

theorem new_identityHashCode {addrs : List A} {n : Nat} {selector : ConsistentHashSelector A}
    (h : ConsistentHashSelector.new env addrs 160 n = some selector) : selector.identityHashCode = storedHash n := by
  rw [ConsistentHashSelector.new] at h
  obtain ⟨virtualInvokers, _, he⟩ := Option.map_eq_some_iff.mp h
  rw [← he, storedHash]

/-- What a call does: it takes the selector of its service, or it builds one and puts it into the cache. -/
theorem cacheNext_cases (h : cacheNext env s l = some s') :
    (∃ selector, s.strategy.selectors (calledService l.2) = some selector ∧
      selector.identityHashCode = hashCode env l.1 ∧ s'.strategy = s.strategy ∧ s'.built = s.built ∧
      s'.calls = s.calls ++ [⟨calledService l.2, l.1, s.built (calledService l.2), true,
        (s.built (calledService l.2)).getD []⟩]) ∨
    (∀ selector, s.strategy.selectors (calledService l.2) = some selector →
        selector.identityHashCode ≠ hashCode env l.1) ∧
      ∃ selector, ConsistentHashSelector.new env l.1 160 (hashCode env l.1) = some selector ∧
        s'.strategy.selectors = Function.update s.strategy.selectors (calledService l.2) (some selector) ∧
        s'.built = Function.update s.built (calledService l.2) (some l.1) ∧
        s'.calls = s.calls ++ [⟨calledService l.2, l.1, s.built (calledService l.2), false, l.1⟩] := by
  simp only [cacheNext, ConsistentHashLoadBalanceStrategy.select, Option.map_eq_some_iff,
    Option.bind_eq_some_iff] at h
  obtain ⟨⟨addr, strategy⟩, ⟨index, hindex, hsel⟩, rfl⟩ := h
  have hname : l.2.serviceFullName.take index = calledService l.2 := by rw [calledService, hindex]; rfl
  rw [hname] at hsel
  split at hsel
  · rename_i selector hcached
    obtain ⟨hselector, hhash⟩ := Option.filter_eq_some_iff.mp hcached
    obtain ⟨_, _, he⟩ := Option.map_eq_some_iff.mp hsel
    cases he
    refine .inl ⟨selector, hselector, of_decide_eq_true hhash, rfl, ?_, ?_⟩
    · simp only [hcached, Option.isSome_some, ↓reduceIte]
    · simp only [hcached, Option.isSome_some, ↓reduceIte]
  · rename_i hcached
    obtain ⟨selector, hnew, hsel⟩ := Option.bind_eq_some_iff.mp hsel
    obtain ⟨_, _, he⟩ := Option.map_eq_some_iff.mp hsel
    cases he
    refine .inr ⟨fun selector hselector => ?_, selector, hnew, rfl, ?_, ?_⟩
    · have hno := Option.filter_eq_none_iff.mp hcached selector hselector
      exact fun hhash => hno (decide_eq_true hhash)
    · simp only [hcached, Option.isSome_none, Bool.false_eq_true, ↓reduceIte]
    · simp only [hcached, Option.isSome_none, Bool.false_eq_true, ↓reduceIte, Function.update_self, Option.getD_some]

theorem ringsOfLists_step (h : RingsOfLists env s) (hn : cacheNext env s l = some s') : RingsOfLists env s' := by
  intro service
  rcases cacheNext_cases hn with ⟨_, -, -, hstrategy, hbuilt, -⟩ | ⟨-, selector, hnew, hselectors, hbuilt, -⟩
  · rw [hstrategy, hbuilt]
    exact h service
  · rw [hselectors, hbuilt]
    by_cases hservice : service = calledService l.2
    · rw [hservice, Function.update_self, Function.update_self]
      exact .some hnew
    · rw [Function.update_of_ne hservice, Function.update_of_ne hservice]
      exact h service

theorem ringsOfLists_of_reachable {ok : CacheRun A → List A × TinyPbStruct → Prop}
    (h : Reachable (cacheNext env) CacheStart ok s) : RingsOfLists env s := by
  refine h.invariant (fun s hs => ?_) fun s s' l hI _ hn => ringsOfLists_step hI hn
  subst hs
  exact fun _ => .none

/-- The call of a step, with the hash code that it compares its own with. -/
theorem cacheNext_call (h : RingsOfLists env s) (hn : cacheNext env s l = some s') :
    ∃ c, s'.calls = s.calls ++ [c] ∧ c.addrs = l.1 ∧ c.builtFrom = s.built (calledService l.2) ∧
      (c.reused = true ↔ ∃ addrs, c.builtFrom = some addrs ∧ storedHash (hashCode env addrs) = hashCode env c.addrs) ∧
      (c.reused = true → c.builtFrom = some c.servedFrom) ∧ (c.reused = false → c.servedFrom = c.addrs) := by
  have hring := h (calledService l.2)
  rcases cacheNext_cases hn with ⟨selector, hselector, hhash, -, -, hcalls⟩ | ⟨hother, _, -, -, -, hcalls⟩
  · rw [hselector] at hring
    cases hbuilt : s.built (calledService l.2) with
    | none =>
        rw [hbuilt] at hring
        cases hring
    | some addrs =>
        rw [hbuilt] at hring hcalls
        cases hring with
        | some hnew =>
            rw [new_identityHashCode hnew] at hhash
            exact ⟨_, hcalls, rfl, rfl, iff_of_true rfl ⟨addrs, rfl, hhash⟩, fun _ => rfl,
              fun hfalse => absurd hfalse Bool.false_ne_true.symm⟩
  · refine ⟨_, hcalls, rfl, rfl, iff_of_false Bool.false_ne_true ?_,
      fun htrue => absurd htrue Bool.false_ne_true, fun _ => rfl⟩
    rintro ⟨addrs, hbuilt, hhash⟩
    dsimp only at hbuilt
    rw [hbuilt] at hring
    cases hselector : s.strategy.selectors (calledService l.2) with
    | none =>
        rw [hselector] at hring
        cases hring
    | some selector =>
        rw [hselector] at hring
        cases hring with
        | some hnew => exact hother selector hselector ((new_identityHashCode hnew).trans hhash)

/-- A call is right if and only if its step keeps the hash code. -/
theorem rightlyCached_iff (h : RingsOfLists env s) (hn : cacheNext env s l = some s') {c : CacheCall A}
    (hc : s'.calls = s.calls ++ [c]) : RightlyCached env c ↔ KeepsHash env s l := by
  obtain ⟨c', hc', haddrs, hbuilt, hreused, -, -⟩ := cacheNext_call h hn
  cases List.append_cancel_left (hc.symm.trans hc')
  rw [RightlyCached, hreused, KeepsHash, hbuilt, haddrs]
  cases s.built (calledService l.2) with
  | none => simp
  | some addrs =>
      have hfits := storedHash_eq_iff (hashCode_lt env addrs)
      simp only [Option.some.injEq, exists_eq_left', Option.mem_def, forall_eq', ← hfits]
      constructor
      · intro hsame
        by_cases hkept : storedHash (hashCode env addrs) = hashCode env addrs
        · exact .inl hkept
        · refine .inr ⟨fun he => ?_, fun he => ?_⟩
          · exact hkept ((hsame.mpr he.symm).trans he)
          · exact hkept (he.symm.trans (hsame.mp he.symm).symm)
      · rintro (hkept | ⟨hne, hne'⟩)
        · rw [hkept]
        · exact iff_of_false (Ne.symm hne') (Ne.symm hne)

/-- Of the calls that have returned: each was right, and it was served from the list that its selector was built
from. -/
def CallsRight (env : HashEnv A) (s : CacheRun A) : Prop :=
  ∀ c ∈ s.calls, RightlyCached env c ∧ (c.reused = true → c.builtFrom = some c.servedFrom) ∧
    (c.reused = false → c.servedFrom = c.addrs)

theorem callsRight_step (hr : RingsOfLists env s) (h : CallsRight env s) (hok : KeepsHash env s l)
    (hn : cacheNext env s l = some s') : CallsRight env s' := by
  obtain ⟨c, hcalls, -, -, -, htaken, hbuilt⟩ := cacheNext_call hr hn
  intro b hb
  rw [hcalls, List.mem_append, List.mem_singleton] at hb
  rcases hb with hb | rfl
  · exact h b hb
  · exact ⟨(rightlyCached_iff hr hn hcalls).mpr hok, htaken, hbuilt⟩

theorem CallsRight.sound (hr : RingsOfLists env s) (h : CallsRight env s) : CacheSound env s where
  rings := hr
  reuse c hc := (h c hc).1
  unchanged c hc hsame := (h c hc).1.mpr ⟨c.addrs, hsame, rfl⟩
  fresh c hc := by
    obtain ⟨hright, htaken, hbuilt⟩ := h c hc
    cases hreused : c.reused with
    | false => rw [hbuilt hreused]
    | true =>
        obtain ⟨addrs, haddrs, hhash⟩ := hright.mp hreused
        cases haddrs.symm.trans (htaken hreused)
        exact hhash

/-- Calls whose own lists have hash codes that fit an `int` keep the hash codes. -/
theorem keepsHash_of_fits (h : Reachable (cacheNext env) CacheStart (fun _ l => FitsInt (hashCode env l.1)) s) :
    Reachable (cacheNext env) CacheStart (KeepsHash env) s := by
  suffices hboth : Reachable (cacheNext env) CacheStart (KeepsHash env) s ∧
      ∀ service addrs, s.built service = some addrs → FitsInt (hashCode env addrs) from hboth.1
  induction h with
  | @start s hs =>
      refine ⟨.start hs, fun service addrs hbuilt => ?_⟩
      subst hs
      cases hbuilt
  | @step s s' _ l hfits hn ih =>
      refine ⟨.step ih.1 l (fun addrs hbuilt => .inl (ih.2 _ addrs hbuilt)) hn, fun service addrs hbuilt => ?_⟩
      rcases cacheNext_cases hn with ⟨_, -, -, -, hsame, -⟩ | ⟨-, _, -, -, hnew, -⟩
      · rw [hsame] at hbuilt
        exact ih.2 service addrs hbuilt
      · rw [hnew] at hbuilt
        by_cases hservice : service = calledService l.2
        · rw [hservice, Function.update_self] at hbuilt
          cases hbuilt
          exact hfits
        · rw [Function.update_of_ne hservice] at hbuilt
          exact ih.2 service addrs hbuilt

/-- In every run whose calls keep the hash codes, a selector is taken exactly when the hash codes are the same. In
every run whatever, the calls that do not keep the hash code are those for which this is not so. -/
theorem selector_cache_sound (env : HashEnv A) (s : CacheRun A) :
    (Reachable (cacheNext env) CacheStart (KeepsHash env) s → CacheSound env s) ∧
    (Reachable (cacheNext env) CacheStart anyStep s → ∀ l s' c, cacheNext env s l = some s' →
      s'.calls = s.calls ++ [c] → (RightlyCached env c ↔ KeepsHash env s l)) := by
  refine ⟨fun h => ?_, fun h l s' c hn hc => rightlyCached_iff (ringsOfLists_of_reachable h) hn hc⟩
  have hinv : RingsOfLists env s ∧ CallsRight env s := by
    refine h.invariant (I := fun s => RingsOfLists env s ∧ CallsRight env s) (fun s hs => ?_)
      fun s s' l hI hok hn => ⟨ringsOfLists_step hI.1 hn, callsRight_step hI.1 hI.2 hok hn⟩
    subst hs
    exact ⟨fun _ => .none, fun c hc => absurd hc List.not_mem_nil⟩
  exact hinv.2.sound hinv.1

/-! ## Two equal calls -/

/-- What a call needs to go through: a dot in the name, an address, and digests of sixteen bytes. -/
structure Callable (env : HashEnv A) (l : List A × TinyPbStruct) : Prop where
  name : (find (text ".") l.2.serviceFullName).isSome
  addrs : l.1 ≠ []
  full : FullDigests env l.1
  key : ∀ index ∈ find (text ".") l.2.serviceFullName,
    (env.md5 (l.2.serviceFullName.drop index ++ l.2.pbData)).length = 16

theorem Callable.select (h : Callable env l) {index : Nat} (hindex : find (text ".") l.2.serviceFullName = some index)
    {n : Nat} {selector : ConsistentHashSelector A}
    (hnew : ConsistentHashSelector.new env l.1 160 n = some selector) :
    ∃ addr, selector.select env (l.2.serviceFullName.drop index ++ l.2.pbData) = some addr := by
  obtain ⟨invoker, hmem⟩ := List.exists_mem_of_ne_nil l.1 h.addrs
  obtain ⟨k, hk⟩ := hash_isSome (h.key index hindex) (h := 0) (by decide)
  obtain ⟨selector', _, addr, hnew', haddr, -⟩ := selectForKey_eq h.full hmem n k
  cases hnew.symm.trans hnew'
  exact ⟨addr, by rw [ConsistentHashSelector.select, hk, Option.bind_some, haddr]⟩

/-- A call goes through where the selector of its service, if there is one, is that of its own list. -/
theorem Callable.next (h : Callable env l) (hr : RingsOfLists env s)
    (hbuilt : ∀ addrs ∈ s.built (calledService l.2), addrs = l.1) : ∃ s', cacheNext env s l = some s' := by
  obtain ⟨index, hindex⟩ := Option.isSome_iff_exists.mp h.name
  have hname : l.2.serviceFullName.take index = calledService l.2 := by rw [calledService, hindex]; rfl
  simp only [cacheNext, ConsistentHashLoadBalanceStrategy.select, hindex, Option.bind_some, hname]
  cases hcached : s.strategy.cached env l.1 (calledService l.2) with
  | some selector =>
      obtain ⟨hselector, -⟩ := Option.filter_eq_some_iff.mp hcached
      have hring := hr (calledService l.2)
      rw [hselector] at hring
      cases hb : s.built (calledService l.2) with
      | none =>
          rw [hb] at hring
          cases hring
      | some addrs =>
          rw [hb] at hring
          cases hring with
          | some hnew =>
              obtain rfl := hbuilt addrs hb
              obtain ⟨addr, haddr⟩ := h.select hindex hnew
              dsimp only
              rw [haddr]
              exact ⟨_, rfl⟩
  | none =>
      have hnew := selector_new_eq h.full (hashCode env l.1)
      obtain ⟨addr, haddr⟩ := h.select hindex hnew
      dsimp only
      rw [hnew, Option.bind_some, haddr]
      exact ⟨_, rfl⟩

/-- A call that is made twice takes the first selector again if and only if the hash code of the list fits an `int`. -/
theorem called_twice (h : Callable env l) : ∃ s, runLabels (cacheNext env) {} [l, l] = some s ∧
    s.calls.map (fun c => (c.addrs, c.builtFrom, c.reused)) =
      [(l.1, none, false), (l.1, some l.1, decide (FitsInt (hashCode env l.1)))] := by
  have hr : RingsOfLists env {} := fun _ => .none
  obtain ⟨s₁, hs₁⟩ := h.next hr (fun addrs hb => by cases hb)
  obtain ⟨-, selector, -, -, hbuilt₁, hcalls₁⟩ := (cacheNext_cases hs₁).resolve_left (by
    rintro ⟨_, hselector, -⟩
    cases hselector)
  have hr₁ := ringsOfLists_step hr hs₁
  have hb₁ : s₁.built (calledService l.2) = some l.1 := by rw [hbuilt₁, Function.update_self]
  obtain ⟨s₂, hs₂⟩ := h.next hr₁ (fun addrs hb => Option.some.inj (hb.symm.trans hb₁))
  obtain ⟨c, hcalls₂, haddrs, hbuilt₂, hreused, -⟩ := cacheNext_call hr₁ hs₂
  have hsecond : c.reused = decide (FitsInt (hashCode env l.1)) := by
    rw [Bool.eq_iff_iff, hreused, hbuilt₂, hb₁, haddrs, decide_eq_true_iff, ← storedHash_eq_iff (hashCode_lt env l.1)]
    simp
  refine ⟨s₂, by rw [runLabels, hs₁, Option.bind_some, runLabels, hs₂]; rfl, ?_⟩
  rw [hcalls₂, hcalls₁, List.map_append, List.map_append, List.map_singleton, List.map_singleton, haddrs, hbuilt₂, hb₁,
    hsecond]
  rfl

/-- Addresses as texts, with the digests of the MD5 class and what `std::hash` gives for two addresses. -/
def hostEnv : HashEnv Bytes where
  toString addr := addr
  md5 s := (MD5.digest s).getD []
  stdHash s :=
    if s = text "127.0.0.1:9000" then 16067264151966542095
    else if s = text "10.93.77.117:8022" then 754071392
    else 0

/-- A call of one service, with one address in the list. -/
def queryCall (addr : Bytes) : List Bytes × TinyPbStruct := ([addr], { serviceFullName := text "QueryService.query" })

/-- The digest of a virtual node, read as from its tens and its ones. -/
def FullDigest (addr : Bytes) (tens ones : Nat) : Prop :=
  (hostEnv.md5 (addr ++ decimal (10 * tens + ones : Nat))).length = 16

instance (addr : Bytes) (tens ones : Nat) : Decidable (FullDigest addr tens ones) :=
  inferInstanceAs (Decidable (_ = _))

/-- Forty digests for the virtual nodes, which are computed ten at a time, and one for the method. -/
theorem queryCall_callable {addr : Bytes} (h0 : ∀ i < 10, FullDigest addr 0 i) (h1 : ∀ i < 10, FullDigest addr 1 i)
    (h2 : ∀ i < 10, FullDigest addr 2 i) (h3 : ∀ i < 10, FullDigest addr 3 i) : Callable hostEnv (queryCall addr) where
  name := (by decide : (find (text ".") (text "QueryService.query")).isSome)
  addrs := List.cons_ne_nil _ _
  full a ha := by
    rw [List.mem_singleton.mp ha]
    intro i hi
    have hall : ∀ tens < 4, ∀ ones < 10, FullDigest addr tens ones := by
      intro tens ht
      match tens, ht with
      | 0, _ => exact h0
      | 1, _ => exact h1
      | 2, _ => exact h2
      | 3, _ => exact h3
    have hdigest := hall (i / 10) (by omega) (i % 10) (by omega)
    rwa [FullDigest, Nat.div_add_mod] at hdigest
  key := (by decide +kernel : ∀ index ∈ find (text ".") (text "QueryService.query"),
    (hostEnv.md5 ((text "QueryService.query").drop index ++ [])).length = 16)

/-- The hash code 754071423 fits an `int`, and the second call takes the ring of the first one. -/
theorem selector_reused : ∃ s, CacheSound hostEnv s ∧ s.calls.map CacheCall.reused = [false, true] := by
  have hcall : Callable hostEnv (queryCall (text "10.93.77.117:8022")) := queryCall_callable (by decide +kernel)
    (by decide +kernel) (by decide +kernel) (by decide +kernel)
  obtain ⟨s, hs, hcalls⟩ := called_twice hcall
  have hfits : FitsInt (hashCode hostEnv (queryCall (text "10.93.77.117:8022")).1) := by decide
  have hok : RunOk (cacheNext hostEnv) (fun _ l => FitsInt (hashCode hostEnv l.1)) {} [_, _] :=
    ⟨hfits, fun _ _ => ⟨hfits, fun _ _ => trivial⟩⟩
  have hreach := keepsHash_of_fits (Reachable.of_runOk (.start rfl) hok hs)
  have hreused := congrArg (List.map fun t => t.2.2) hcalls
  rw [List.map_map] at hreused
  refine ⟨s, (selector_cache_sound hostEnv s).1 hreach, hreused.trans ?_⟩
  rw [List.map_cons, List.map_singleton, decide_eq_true hfits]

/-- The hash code 16067264151966542126 does not fit an `int`, and the second call builds the ring again. -/
theorem selector_rebuilt : ∃ s, Reachable (cacheNext hostEnv) CacheStart anyStep s ∧
    ∃ c ∈ s.calls, c.builtFrom = some c.addrs ∧ c.reused = false ∧ ¬RightlyCached hostEnv c := by
  let addrs := [text "127.0.0.1:9000"]
  have hcall : Callable hostEnv (queryCall (text "127.0.0.1:9000")) := queryCall_callable (by decide +kernel)
    (by decide +kernel) (by decide +kernel) (by decide +kernel)
  obtain ⟨s, hs, hcalls⟩ := called_twice hcall
  have hlong : ¬FitsInt (hashCode hostEnv addrs) := by decide
  have hmem : (addrs, some addrs, decide (FitsInt (hashCode hostEnv addrs))) ∈
      s.calls.map fun c => (c.addrs, c.builtFrom, c.reused) := by
    rw [hcalls]
    exact List.mem_cons_of_mem _ List.mem_cons_self
  obtain ⟨c, hc, he⟩ := List.mem_map.mp hmem
  have haddrs : c.addrs = addrs := congrArg Prod.fst he
  have hbuilt : c.builtFrom = some c.addrs := haddrs ▸ congrArg (fun t => t.2.1) he
  have hreused : c.reused = false := (congrArg (fun t => t.2.2) he).trans (decide_eq_false hlong)
  refine ⟨s, Reachable.of_run (.start rfl) hs, c, hc, hbuilt, hreused, fun hright => ?_⟩
  exact Bool.false_ne_true (hreused.symm.trans (hright.mpr ⟨c.addrs, hbuilt, rfl⟩))

end Tirpc
