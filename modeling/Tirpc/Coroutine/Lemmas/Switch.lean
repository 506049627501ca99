import Tirpc.Coroutine.Switch
import Tirpc.Coroutine.Theorems.CoctxSwap

/-!
# Contexts in memory

What a store leaves of a context, what `SetCallBack` writes to one, and what a switch does to all of them.
-/

namespace Tirpc

open Lib Lib.X86

variable {C : Type} {L : CoLayout C} {s s' : Machine} {m m' : X86.Memory} {a x v returns : Word} {c : C}
  {o source target : Option C} {cpu : Cpu} {i j : Nat} {r : Reg}

/-! ## The words of a context -/

theorem ctxWord_store_apart (h : Apart x 8 a 112) (hi : i < 14) : ctxWord (store m x v) a i = ctxWord m a i := by
  have hpart := h.symm.part (i := 8 * i) (x := 8) (j := 0) (y := 8) (by omega) (by decide) (by decide) (by decide)
  rw [BitVec.add_zero] at hpart
  exact load_store_apart hpart

theorem ctxWord_storeWords_apart {ws : List Word} (h : Apart a 112 x (8 * ws.length)) (hws : 0 < ws.length)
    (hi : i < 14) : ctxWord (storeWords m x ws) a i = ctxWord m a i := by
  have hpart := h.part (i := 8 * i) (x := 8) (j := 0) (y := 8 * ws.length) (by omega) (by omega) (by decide) (by omega)
  rw [BitVec.add_zero] at hpart
  exact load_storeWords_apart hpart

theorem ctxWord_store (hi : i < 14) (hj : j < 14) :
    ctxWord (store m (a + BitVec.ofNat 64 (8 * j)) v) a i = if i = j then v else ctxWord m a i := by
  split
  case isTrue h =>
    subst h
    exact load_store m _ v
  case isFalse h =>
    refine load_store_apart ?_
    obtain hlt | hlt := Nat.lt_or_gt_of_ne h
    · exact apart_parts a (by omega) (by omega) (by decide) (by decide)
    · exact (apart_parts a (by omega) (by omega) (by decide) (by decide)).symm

/-- The registers that a switch loads depend on the words of the context alone. -/
theorem loadedReg_congr {w w' : Nat → Word} (hr : Kept r) (h : ∀ i < 14, w i = w' i) :
    loadedReg s w r = loadedReg s' w' r := by
  obtain ⟨hrax, hr10, hr11⟩ := hr
  cases r
  case rax => exact absurd rfl hrax
  case r10 => exact absurd rfl hr10
  case r11 => exact absurd rfl hr11
  case rsp => exact congrArg (· + 8) (h 13 (by decide))
  all_goals exact h _ (by decide)

theorem CoLayout.Holds.congr (h : L.Holds s o cpu)
    (hw : ∀ i < 14, ctxWord s'.mem (L.coctx o) i = ctxWord s.mem (L.coctx o) i) : L.Holds s' o cpu where
  rip := (hw kRETAddr (by decide)).trans h.rip
  regs r hr := (loadedReg_congr hr hw).trans (h.regs r hr)
  slot o' := by
    rw [hw kRSP (by decide)]
    exact h.slot o'

theorem CoControl.Live.of_hasCallback {control control' : CoControl C} (h : control.Live o)
    (hcallback : control.hasCallback = control'.hasCallback) : control'.Live o := by
  cases o with
  | none => trivial
  | some c => exact (congrFun hcallback c).symm.trans h

/-! ## `SetCallBack` -/

/-- The words of a fresh context. -/
def CoLayout.startWord (L : CoLayout C) (c : C) (i : Nat) : Word :=
  if i = kRDI then L.this c
  else if i = kRETAddr then L.coFunction
  else if i = kRBP then L.top c
  else if i = kRSP then L.top c
  else 0

theorem writeStart_self (hi : i < 14) : ctxWord (L.writeStart c m) (L.coctx (some c)) i = L.startWord c i := by
  have hzero : ctxWord (storeWords m (L.coctx (some c)) (List.replicate 14 0)) (L.coctx (some c)) i = 0 := by
    rw [ctxWord, load_storeWords (by decide) (by simpa using hi), List.getElem_replicate]
  simp only [CoLayout.writeStart, CoLayout.startWord]
  rw [ctxWord_store hi (by decide), ctxWord_store hi (by decide), ctxWord_store hi (by decide),
    ctxWord_store hi (by decide), hzero]

theorem writeStart_other (h : Apart (L.coctx o) 112 (L.coctx (some c)) 112) (hi : i < 14) :
    ctxWord (L.writeStart c m) (L.coctx o) i = ctxWord m (L.coctx o) i := by
  have hpart : ∀ j < 14, Apart (L.coctx (some c) + BitVec.ofNat 64 (8 * j)) 8 (L.coctx o) 112 := fun j hj => by
    have hpart := h.symm.part (i := 8 * j) (x := 8) (j := 0) (y := 112) (by omega) (by decide) (by decide) (by decide)
    rwa [BitVec.add_zero] at hpart
  calc ctxWord (L.writeStart c m) (L.coctx o) i
    _ = _ := ctxWord_store_apart (hpart kRDI (by decide)) hi
    _ = _ := ctxWord_store_apart (hpart kRETAddr (by decide)) hi
    _ = _ := ctxWord_store_apart (hpart kRBP (by decide)) hi
    _ = _ := ctxWord_store_apart (hpart kRSP (by decide)) hi
    _ = _ := ctxWord_storeWords_apart h (by decide) hi

/-- A fresh context is that of a coroutine about to enter `CoFunction`. -/
theorem writeStart_holds (h : L.WellPlaced) : L.Holds { s with mem := L.writeStart c m } (some c) (L.startCpu c) where
  rip := writeStart_self (by decide)
  regs r hr := by
    have hw : ∀ i < 14, ctxWord (L.writeStart c m) (L.coctx (some c)) i = L.startWord c i := fun i hi =>
      writeStart_self hi
    refine (loadedReg_congr hr hw).trans (b := loadedReg s (L.startWord c) r) ?_
    obtain ⟨hrax, hr10, hr11⟩ := hr
    cases r
    case rax => exact absurd rfl hrax
    case r10 => exact absurd rfl hr10
    case r11 => exact absurd rfl hr11
    all_goals rfl
  slot o' := by
    rw [writeStart_self (by decide)]
    exact h.tops c o'

/-! ## A switch -/

/-- The machine at the first instruction of `coctx_swap`. -/
def CoLayout.called (L : CoLayout C) (source target : Option C) (returns : Word) (s : Machine) : Machine :=
  ((s.setReg .rdi (L.coctx source)).setReg .rsi (L.coctx target)).call L.coctxSwap returns

theorem called_word (h : L.Room s) (hi : i < 14) :
    ctxWord (L.called source target returns s).mem (L.coctx o) i = ctxWord s.mem (L.coctx o) i :=
  ctxWord_store_apart (h o) hi

theorem called_apart (h : L.WellPlaced) (hroom : L.Room s) (hst : source ≠ target)
    (hslot : ∀ o, Apart (ctxWord s.mem (L.coctx target) kRSP) 8 (L.coctx o) 112) :
    SwapApart (L.called source target returns s) where
  returns := hroom source
  contexts := h.contexts target source hst.symm
  slot := by
    have hword : ctxWord (L.called source target returns s).mem (L.coctx target) kRSP =
        ctxWord s.mem (L.coctx target) kRSP := called_word hroom (by decide)
    exact hword.symm ▸ hslot target

/-- What the other context says is what the machine goes on with. -/
theorem swap_spec (h : L.WellPlaced) (hroom : L.Room s) (hst : source ≠ target)
    (hslot : ∀ o, Apart (ctxWord s.mem (L.coctx target) kRSP) 8 (L.coctx o) 112) :
    (L.swap source target returns s).rip = ctxWord s.mem (L.coctx target) kRETAddr ∧
    ∀ r, Kept r → (L.swap source target returns s).regs r = loadedReg s (ctxWord s.mem (L.coctx target)) r := by
  have hapart : SwapApart (L.called source target returns s) := called_apart h hroom hst hslot
  have hswap : L.swap source target returns s = (L.called source target returns s).run coctxSwap := rfl
  rw [hswap, coctxSwap_spec hapart]
  exact ⟨called_word hroom (by decide), fun r hr => loadedReg_congr hr fun i hi => called_word hroom hi⟩

theorem swap_mem (h : L.WellPlaced) (hroom : L.Room s) (hst : source ≠ target)
    (hslot : ∀ o, Apart (ctxWord s.mem (L.coctx target) kRSP) 8 (L.coctx o) 112) :
    let called := L.called source target returns s
    (L.swap source target returns s).mem =
      store (storeWords called.mem (L.coctx source) (savedRegs called)) (ctxWord s.mem (L.coctx target) kRSP)
        (ctxWord s.mem (L.coctx target) kRETAddr) := by
  have hapart : SwapApart (L.called source target returns s) := called_apart h hroom hst hslot
  have hswap : L.swap source target returns s = (L.called source target returns s).run coctxSwap := rfl
  have hword : ∀ {i}, i < 14 → ctxWord (L.called source target returns s).mem (L.coctx target) i =
      ctxWord s.mem (L.coctx target) i := fun hi => called_word hroom hi
  intro called
  rw [hswap, coctxSwap_spec hapart, ← hword (by decide : kRSP < 14), ← hword (by decide : kRETAddr < 14)]
  rfl

/-- The return address of the other context is on its stack again. -/
theorem swap_slot (h : L.WellPlaced) (hroom : L.Room s) (hst : source ≠ target)
    (hslot : ∀ o, Apart (ctxWord s.mem (L.coctx target) kRSP) 8 (L.coctx o) 112) :
    load (L.swap source target returns s).mem (ctxWord s.mem (L.coctx target) kRSP) =
      ctxWord s.mem (L.coctx target) kRETAddr := by
  rw [swap_mem h hroom hst hslot]
  exact load_store _ _ _

theorem swap_other (h : L.WellPlaced) (hroom : L.Room s) (hst : source ≠ target)
    (hslot : ∀ o, Apart (ctxWord s.mem (L.coctx target) kRSP) 8 (L.coctx o) 112) (ho : o ≠ source) (hi : i < 14) :
    ctxWord (L.swap source target returns s).mem (L.coctx o) i = ctxWord s.mem (L.coctx o) i := by
  have hlen : 0 < (savedRegs (L.called source target returns s)).length := Nat.succ_pos 13
  rw [swap_mem h hroom hst hslot, ctxWord_store_apart (hslot o) hi,
    ctxWord_storeWords_apart (h.contexts o source ho) hlen hi, called_word hroom hi]

theorem swap_source (h : L.WellPlaced) (hroom : L.Room s) (hst : source ≠ target)
    (hslot : ∀ o, Apart (ctxWord s.mem (L.coctx target) kRSP) 8 (L.coctx o) 112) (hi : i < 14) :
    ctxWord (L.swap source target returns s).mem (L.coctx source) i =
      (savedRegs (L.called source target returns s)).getD i 0 := by
  have hlen : 8 * (savedRegs (L.called source target returns s)).length ≤ 18446744073709551616 :=
    (by decide : 8 * 14 ≤ 18446744073709551616)
  rw [swap_mem h hroom hst hslot, ctxWord_store_apart (hslot source) hi, ctxWord, load_storeWords hlen hi,
    List.getD_eq_getElem?_getD, List.getElem?_eq_getElem hi, Option.getD_some]

/-- The coroutine that is left has its registers in its context, and stands behind the call. -/
theorem swap_holds (h : L.WellPlaced) (hroom : L.Room s) (hst : source ≠ target)
    (hslot : ∀ o, Apart (ctxWord s.mem (L.coctx target) kRSP) 8 (L.coctx o) 112)
    (hcpu : ∀ r, Kept r → s.regs r = cpu.regs r) :
    L.Holds (L.swap source target returns s) source (L.behindSwap source target returns cpu) := by
  let called := L.called source target returns s
  have hsource : ∀ {i}, i < 14 → ctxWord (L.swap source target returns s).mem (L.coctx source) i =
      (savedRegs called).getD i 0 := fun hi => swap_source h hroom hst hslot hi
  refine ⟨?_, fun r hr => ?_, fun o' => ?_⟩
  · calc ctxWord (L.swap source target returns s).mem (L.coctx source) kRETAddr
      _ = load (store s.mem (s.regs .rsp - 8) returns) (s.regs .rsp - 8) := hsource (by decide)
      _ = returns := load_store _ _ _
  · have hrsp : s.regs .rsp - 8 + 8 = s.regs .rsp := BitVec.sub_add_cancel _ _
    refine (loadedReg_congr hr fun i hi => hsource hi).trans (b := loadedReg s ((savedRegs called).getD · 0) r) ?_
    have hreg := hcpu r hr
    obtain ⟨hrax, hr10, hr11⟩ := hr
    cases r
    case rax => exact absurd rfl hrax
    case r10 => exact absurd rfl hr10
    case r11 => exact absurd rfl hr11
    case rsp => exact hrsp.trans hreg
    case rdi => rfl
    case rsi => rfl
    all_goals exact hreg
  · rw [hsource (by decide)]
    exact hroom o'

/-! ## Representation -/

section Representation

variable {s : SwitchThread C} {t : Coroutines C} {control : CoControl C}

/-- Fields that no context depends on. -/
theorem CoLayout.Represents.setControl (hrep : L.Represents s t) (hcur : control.current = t.control.current)
    (hcallback : control.hasCallback = t.control.hasCallback) :
    L.Represents { s with control := control } { t with control := control } where
  control := rfl
  rip := hcur ▸ hrep.rip
  regs := hcur ▸ hrep.regs
  holds o ho hlive := hrep.holds o (hcur ▸ ho) (hlive.of_hasCallback hcallback)

theorem ownStart_represents (hs : SwitchStart s) : L.Represents s (L.ownStart s) where
  control := hs
  rip := rfl
  regs _ _ := rfl
  holds o ho hlive := by
    cases o with
    | none => exact absurd rfl ho
    | some c => exact absurd hlive Bool.false_ne_true

end Representation

end Tirpc
