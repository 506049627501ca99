import Tirpc.Tcp.ConsistentHash

/-!
# The ring of virtual nodes

For digests of sixteen bytes and nothing else about them: virtual nodes may fall together, and then the one that was
inserted last has the place.
-/

namespace Tirpc

open Lib SortedMap ConsistentHashSelector

variable {A : Type} {env : HashEnv A} {addrs : List A}

/-- The place of virtual node `h` in group `i` of an address. -/
def virtualPoint (env : HashEnv A) (invoker : A) (i h : Nat) : Option Nat :=
  ConsistentHashSelector.hash (env.md5 (env.toString invoker ++ decimal i)) h

/-- The virtual nodes in the order in which they are inserted. -/
def virtualPoints (env : HashEnv A) (addrs : List A) : List (Nat × A) :=
  addrs.flatMap fun invoker =>
    (List.range 40).flatMap fun i =>
      (List.range 4).filterMap fun h =>
        (virtualPoint env invoker i h).map fun p => (p, invoker)

def IsVirtualPoint (env : HashEnv A) (addrs : List A) (p : Nat) : Prop :=
  ∃ invoker ∈ addrs, ∃ i < 40, ∃ h < 4, virtualPoint env invoker i h = some p

/-- The address whose virtual node was put on this place last. -/
def OwnsPoint (env : HashEnv A) (addrs : List A) (p : Nat) (addr : A) : Prop :=
  lastValue p (virtualPoints env addrs) = some addr

theorem mem_virtualPoints {p : Nat} {addr : A} : (p, addr) ∈ virtualPoints env addrs ↔
    addr ∈ addrs ∧ ∃ i < 40, ∃ h < 4, virtualPoint env addr i h = some p := by
  simp only [virtualPoints, List.mem_flatMap, List.mem_range, List.mem_filterMap, Option.map_eq_some_iff]
  constructor
  · rintro ⟨invoker, hmem, i, hi, h, hh, q, hq, he⟩
    cases he
    exact ⟨hmem, i, hi, h, hh, hq⟩
  · rintro ⟨hmem, i, hi, h, hh, hp⟩
    exact ⟨addr, hmem, i, hi, h, hh, p, hp, rfl⟩

theorem isVirtualPoint_iff {p : Nat} : IsVirtualPoint env addrs p ↔ ∃ addr, OwnsPoint env addrs p addr := by
  constructor
  · rintro ⟨invoker, hmem, i, hi, h, hh, hp⟩
    have hin : (p, invoker) ∈ virtualPoints env addrs := mem_virtualPoints.mpr ⟨hmem, i, hi, h, hh, hp⟩
    exact Option.isSome_iff_exists.mp (lastValue_isSome.mpr ⟨_, hin, rfl⟩)
  · rintro ⟨addr, haddr⟩
    obtain ⟨hmem, hp⟩ := mem_virtualPoints.mp (lastValue_mem haddr)
    exact ⟨addr, hmem, hp⟩

/-! ## Building the ring -/

theorem hash_isSome {digest : Bytes} (hlen : digest.length = 16) {h : Nat} (hh : h < 4) :
    ∃ p, ConsistentHashSelector.hash digest h = some p := by
  simp only [ConsistentHashSelector.hash]
  rw [List.getElem?_eq_getElem (by omega), Option.bind_some, List.getElem?_eq_getElem (by omega), Option.bind_some,
    List.getElem?_eq_getElem (by omega), Option.bind_some, List.getElem?_eq_getElem (by omega)]
  exact ⟨_, rfl⟩

/-- A loop each of whose turns inserts some pairs. -/
theorem foldlM_insertAll {β : Type} {f : SortedMap Nat A → β → Option (SortedMap Nat A)} {g : β → List (Nat × A)}
    (xs : List β) (h : ∀ x ∈ xs, ∀ m, f m x = some (insertAll m (g x))) (m : SortedMap Nat A) :
    xs.foldlM f m = some (insertAll m (xs.flatMap g)) := by
  induction xs generalizing m with
  | nil => rfl
  | cons x xs ih =>
      have hrest := ih (fun y hy => h y (List.mem_cons_of_mem x hy)) (insertAll m (g x))
      rw [List.foldlM_cons, h x List.mem_cons_self, Option.bind_eq_bind, Option.bind_some, hrest, List.flatMap_cons,
        insertAll, insertAll, insertAll, List.foldl_append]

/-- The digests of the virtual nodes have sixteen bytes. -/
def FullDigests (env : HashEnv A) (addrs : List A) : Prop :=
  ∀ addr ∈ addrs, ∀ i < 40, (env.md5 (env.toString addr ++ decimal (i : Nat))).length = 16

section Full

variable (hfull : FullDigests env addrs)

include hfull

theorem selector_new_eq (identityHashCode : Int) :
    ConsistentHashSelector.new env addrs 160 identityHashCode =
      some { virtualInvokers := insertAll .empty (virtualPoints env addrs),
             identityHashCode := sizeT (wrap32 identityHashCode) } := by
  have hgroup : ∀ invoker ∈ addrs, ∀ i ∈ List.range 40, ∀ m : SortedMap Nat A,
      insertGroup (env.md5 (env.toString invoker ++ decimal (i : Nat))) invoker m =
        some (insertAll m ((List.range 4).filterMap fun h =>
          (virtualPoint env invoker i h).map fun p => (p, invoker))) := by
    intro invoker hmem i hi m
    rw [insertGroup, List.filterMap_eq_flatMap_toList]
    refine foldlM_insertAll _ (fun h hh m => ?_) m
    obtain ⟨p, hp⟩ := hash_isSome (hfull invoker hmem i (List.mem_range.mp hi)) (List.mem_range.mp hh)
    rw [virtualPoint, hp]
    rfl
  have hinvoker := fun (invoker : A) (hmem : invoker ∈ addrs) (m : SortedMap Nat A) =>
    foldlM_insertAll (List.range (160 / 4)) (hgroup invoker hmem) m
  have hall := foldlM_insertAll addrs hinvoker .empty
  rw [ConsistentHashSelector.new, show addrs.foldlM (insertInvoker env 160) .empty = _ from hall]
  rfl

theorem virtualPoint_of_mem {invoker : A} (hmem : invoker ∈ addrs) : ∃ p, IsVirtualPoint env addrs p := by
  obtain ⟨p, hp⟩ := hash_isSome (hfull invoker hmem 0 (by decide)) (h := 0) (by decide)
  exact ⟨p, invoker, hmem, 0, by decide, 0, by decide, hp⟩

/-- A key is served by the owner of the virtual node that comes next. -/
theorem selectForKey_eq {invoker : A} (hmem : invoker ∈ addrs) (identityHashCode : Int) (key : Nat) :
    ∃ sel p addr, ConsistentHashSelector.new env addrs 160 identityHashCode = some sel ∧
      sel.selectForKey key = some addr ∧ sel.virtualInvokers.successor key = some (p, addr) ∧
      ComesNext (IsVirtualPoint env addrs) key p ∧ OwnsPoint env addrs p addr := by
  obtain ⟨q, hq⟩ := virtualPoint_of_mem hfull hmem
  have hkey := isKey_insertAll.mpr (isVirtualPoint_iff.mp hq)
  obtain ⟨p, addr, hsucc⟩ := successor_isSome hkey key
  obtain ⟨hentry, hnext⟩ := successor_spec hsucc
  have hsame : (insertAll .empty (virtualPoints env addrs)).IsKey = IsVirtualPoint env addrs :=
    funext fun p => propext (isKey_insertAll.trans isVirtualPoint_iff.symm)
  rw [hsame] at hnext
  refine ⟨_, p, addr, selector_new_eq hfull identityHashCode, ?_, hsucc, hnext, mem_insertAll.mp hentry⟩
  rw [selectForKey, hsucc]
  rfl

end Full

/-! ## Removing an address -/

theorem virtualPoints_filter (keep : A → Bool) (addrs : List A) :
    virtualPoints env (addrs.filter keep) = (virtualPoints env addrs).filter fun e => keep e.2 := by
  induction addrs with
  | nil => rfl
  | cons invoker addrs ih =>
      let group : List (Nat × A) := virtualPoints env [invoker]
      have hcons : ∀ rest, virtualPoints env (invoker :: rest) = group ++ virtualPoints env rest := by
        intro rest
        simp only [group, virtualPoints, List.flatMap_cons, List.flatMap_nil, List.append_nil]
      have howner : ∀ e ∈ group, e.2 = invoker := by
        rintro ⟨p, addr⟩ he
        exact List.mem_singleton.mp (mem_virtualPoints.mp he).1
      rw [hcons, List.filter_append, ← ih]
      by_cases hkeep : keep invoker = true
      · have hall : group.filter (fun e => keep e.2) = group :=
          List.filter_eq_self.mpr fun e he => by rw [howner e he, hkeep]
        rw [List.filter_cons_of_pos hkeep, hcons, hall]
      · have hnone : group.filter (fun e => keep e.2) = [] := by
          refine List.filter_eq_nil_iff.mpr fun e he => ?_
          rw [howner e he]
          exact hkeep
        rw [List.filter_cons_of_neg hkeep, hnone, List.nil_append]

/-- For every list of addresses, every digest function and every key: the ring gives the owner of the virtual node that
comes next, and without one of the addresses it gives the same, unless it was that address. -/
theorem ring_moves_only [DecidableEq A] (hmd5 : ∀ s, (env.md5 s).length = 16) {a : A}
    (hother : ∃ b ∈ addrs, b ≠ a) (identityHashCode identityHashCode' : Int) (key : Nat) :
    ∃ sel addr sel' addr',
      ConsistentHashSelector.new env addrs 160 identityHashCode = some sel ∧ sel.selectForKey key = some addr ∧
      addr ∈ addrs ∧ (∃ p, ComesNext (IsVirtualPoint env addrs) key p ∧ OwnsPoint env addrs p addr) ∧
      ConsistentHashSelector.new env (addrs.filter (· ≠ a)) 160 identityHashCode' = some sel' ∧
      sel'.selectForKey key = some addr' ∧ (addr ≠ a → addr' = addr) := by
  obtain ⟨b, hb, hba⟩ := hother
  have hb' : b ∈ addrs.filter (· ≠ a) := List.mem_filter.mpr ⟨hb, decide_eq_true hba⟩
  have hfull : ∀ addrs, FullDigests env addrs := fun _ _ _ _ _ => hmd5 _
  obtain ⟨sel, p, addr, hnew, hsel, hsucc, hnext, howns⟩ := selectForKey_eq (hfull addrs) hb identityHashCode key
  obtain ⟨sel', p', addr', hnew', hsel', hsucc', -, -⟩ := selectForKey_eq (hfull _) hb' identityHashCode' key
  have hmem : addr ∈ addrs := (mem_virtualPoints.mp (lastValue_mem howns)).1
  refine ⟨sel, addr, sel', addr', hnew, hsel, hmem, ⟨p, hnext, howns⟩, hnew', hsel', fun hne => ?_⟩
  rw [selector_new_eq (hfull _), Option.some.injEq] at hnew hnew'
  subst hnew hnew'
  have hkept := successor_filter (fun c => decide (c ≠ a)) hsucc (decide_eq_true hne)
  rw [← virtualPoints_filter (fun c => decide (c ≠ a))] at hkept
  cases hsucc'.symm.trans hkept
  rfl

/-- Two addresses, and the first sixteen bytes of a text as its digest. -/
def paddedEnv : HashEnv Bool where
  toString addr := if addr then text "127.0.0.1:8081" else text "127.0.0.1:8080"
  md5 s := (s ++ List.replicate 16 0).take 16
  stdHash s := s.length

theorem md5_paddedEnv (s : Bytes) : (paddedEnv.md5 s).length = 16 := by
  simp only [paddedEnv, List.length_take, List.length_append, List.length_replicate]
  omega

/-- Of two addresses one is removed. -/
theorem ring_moves_only_padded :
    ∃ sel addr sel' addr',
      ConsistentHashSelector.new paddedEnv [false, true] 160 7 = some sel ∧ sel.selectForKey 5 = some addr ∧
      addr ∈ [false, true] ∧
      (∃ p, ComesNext (IsVirtualPoint paddedEnv [false, true]) 5 p ∧ OwnsPoint paddedEnv [false, true] p addr) ∧
      ConsistentHashSelector.new paddedEnv ([false, true].filter (· ≠ true)) 160 9 = some sel' ∧
      sel'.selectForKey 5 = some addr' ∧ (addr ≠ true → addr' = addr) :=
  ring_moves_only md5_paddedEnv ⟨false, List.mem_cons_self, Bool.false_ne_true⟩ 7 9 5

end Tirpc
