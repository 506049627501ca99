import Tirpc.Coroutine.Lemmas.Switch

/-!
# A processor of its own for each coroutine

The thread with its one set of registers behaves as if each coroutine kept its own, over any run.
-/

namespace Tirpc

open Lib Lib.X86

variable {C : Type} [DecidableEq C] {L : CoLayout C} {s s' s₁ s₂ : SwitchThread C} {t : Coroutines C} {c : C}
  {control : CoControl C} {target : Option C} {ret k : Word} {ls : List (SwitchStep C)} {l : SwitchStep C}

/-! ## One step -/

/-- A switch from the coroutine that runs to another one that has something to go on with. -/
theorem CoLayout.Represents.swap (h : L.WellPlaced) (hrep : L.Represents s t) (hst : t.control.current ≠ target)
    (hlive : t.control.Live target) (hroom : L.Room s.machine) (hcur : control.current = target)
    (hcallback : control.hasCallback = t.control.hasCallback) :
    let o := t.control.current
    L.Represents ⟨control, L.swap o target ret s.machine⟩
      { t.setCpu o (L.behindSwap o target ret (t.cpus o)) with control := control } := by
  intro o
  have htarget := hrep.holds target hst.symm hlive
  have hkept : (Function.update t.cpus o (L.behindSwap o target ret (t.cpus o))) target = t.cpus target :=
    Function.update_of_ne hst.symm _ _
  obtain ⟨hrip, hregs⟩ := swap_spec (L := L) h hroom hst htarget.slot
  have hcpu : (({ t.setCpu o (L.behindSwap o target ret (t.cpus o)) with control := control } : Coroutines C).cpus
      control.current) = t.cpus target := by
    rw [hcur]
    exact hkept
  refine ⟨rfl, ?_, fun r hr => ?_, fun o' ho' hlive' => ?_⟩
  · rw [hcpu]
    exact hrip.trans htarget.rip
  · rw [hcpu]
    exact (hregs r hr).trans (htarget.regs r hr)
  · by_cases hsource : o' = o
    · subst hsource
      show L.Holds _ o (Function.update t.cpus o _ o)
      rw [Function.update_self]
      exact swap_holds h hroom hst htarget.slot hrep.regs
    · show L.Holds _ o' (Function.update t.cpus o _ o')
      rw [Function.update_of_ne hsource]
      have hheld : L.Holds s.machine o' (t.cpus o') := hrep.holds o' hsource (hlive'.of_hasCallback hcallback)
      exact hheld.congr fun i hi => swap_other h hroom hst htarget.slot hsource hi

theorem CoLayout.Represents.code {machine : Machine} (hrep : L.Represents s t)
    (hkeeps : L.Keeps s (.code machine)) :
    L.Represents { s with machine := machine } (t.setCpu t.control.current ⟨machine.regs, machine.rip⟩) where
  control := hrep.control
  rip := by
    show machine.rip = (Function.update t.cpus t.control.current _ t.control.current).rip
    rw [Function.update_self]
  regs r _ := by
    show machine.regs r = (Function.update t.cpus t.control.current _ t.control.current).regs r
    rw [Function.update_self]
  holds o ho hlive := by
    have hne : o ≠ t.control.current := ho
    show L.Holds machine o (Function.update t.cpus t.control.current _ o)
    rw [Function.update_of_ne hne]
    exact (hrep.holds o ho hlive).congr (hkeeps o (hrep.control ▸ ho))

theorem CoLayout.Represents.setCallBack (h : L.WellPlaced) (hrep : L.Represents s t)
    (hc : t.control.current ≠ some c) :
    L.Represents { control := t.control.setCallBack c, machine := { s.machine with mem := L.writeStart c s.machine.mem } }
      { t.setCpu (some c) (L.startCpu c) with control := t.control.setCallBack c } where
  control := rfl
  rip := by
    show s.machine.rip = (Function.update t.cpus (some c) _ t.control.current).rip
    rw [Function.update_of_ne hc]
    exact hrep.rip
  regs r hr := by
    show s.machine.regs r = (Function.update t.cpus (some c) _ t.control.current).regs r
    rw [Function.update_of_ne hc]
    exact hrep.regs r hr
  holds o ho hlive := by
    show L.Holds _ o (Function.update t.cpus (some c) _ o)
    by_cases hoc : o = some c
    · subst hoc
      rw [Function.update_self]
      exact writeStart_holds h
    · rw [Function.update_of_ne hoc]
      have hheld : L.Holds s.machine o (t.cpus o) := by
        refine hrep.holds o ho ?_
        cases o with
        | none => trivial
        | some c' =>
            have hne : c' ≠ c := fun heq => hoc (congrArg some heq)
            exact (Function.update_of_ne hne _ _).symm.trans hlive
      exact hheld.congr fun i hi => writeStart_other (h.contexts o (some c) hoc) hi

theorem switch_refines (h : L.WellPlaced) : Refines L.next L.ownNext L.Represents L.Keeps := by
  intro s t l hrep hkeeps
  have hcontrol := hrep.control
  cases l with
  | code machine => exact ⟨_, _, rfl, rfl, hrep.code hkeeps⟩
  | setIsInCoFunc v =>
      refine ⟨_, _, rfl, rfl, ?_⟩
      rw [hcontrol]
      apply hrep.setControl <;> unfold CoControl.setIsInCoFunc <;> split <;> rfl
  | setCanResume c v =>
      refine ⟨_, _, rfl, rfl, ?_⟩
      rw [hcontrol]
      exact hrep.setControl rfl rfl
  | setCurrentRuntime =>
      refine ⟨_, _, rfl, rfl, ?_⟩
      rw [hcontrol]
      exact hrep.setControl rfl rfl
  | setCallBack cor =>
      cases cor with
      | none => exact ⟨s, t, rfl, rfl, hrep⟩
      | some c =>
          simp only [CoLayout.next, CoLayout.ownNext, hcontrol]
          by_cases htakes : t.control.takesCallBack c = true
          · rw [if_pos htakes, if_pos htakes]
            refine ⟨_, _, rfl, rfl, hrep.setCallBack h fun hc => ?_⟩
            have hin : s.control.isInCofunc c = true := hkeeps (hcontrol ▸ hc)
            rw [CoControl.takesCallBack, ← hcontrol, hin] at htakes
            exact absurd htakes (by decide)
          · rw [if_neg htakes, if_neg htakes]
            exact ⟨s, t, rfl, rfl, hrep⟩
  | resume cor returns =>
      simp only [CoLayout.next, CoLayout.ownNext, hcontrol]
      by_cases hres : t.control.resumes cor = true
      · rw [if_pos hres, if_pos hres]
        cases cor with
        | none => exact absurd hres (by simp [CoControl.resumes])
        | some c =>
            obtain ⟨hlive, hroom⟩ := hkeeps
            have hcur : t.control.current = none := by
              simpa [CoControl.resumes] using (Bool.and_eq_true_iff.mp hres).1
            refine ⟨_, _, rfl, rfl, ?_⟩
            have hswap : L.Represents
                ⟨t.control.resume (some c), L.swap t.control.current (some c) returns s.machine⟩ _ :=
              hrep.swap h (hcur ▸ (Option.some_ne_none c).symm) (hcontrol ▸ hlive) hroom rfl rfl
            simp only [hcur] at hswap
            exact hswap
      · rw [if_neg hres, if_neg hres]
        exact ⟨s, t, rfl, rfl, hrep⟩
  | yield returns =>
      simp only [CoLayout.next, CoLayout.ownNext, hcontrol]
      by_cases hmain : t.control.current.isNone = true
      · rw [if_pos hmain, if_pos hmain]
        exact ⟨s, t, rfl, rfl, hrep⟩
      · rw [if_neg hmain, if_neg hmain]
        have hcur : t.control.current ≠ none := fun hc => hmain (by rw [hc]; rfl)
        exact ⟨_, _, rfl, rfl, hrep.swap h hcur trivial hkeeps rfl rfl⟩

/-! ## Runs -/

/-- In every run the registers of the machine are those that the coroutine that runs has for its own. -/
theorem switch_run (h : L.WellPlaced) (hs : SwitchStart s) (hok : RunOk L.next L.Keeps s ls) :
    ∃ s' t', runLabels L.next s ls = some s' ∧ runLabels L.ownNext (L.ownStart s) ls = some t' ∧ L.Represents s' t' :=
  (switch_refines h).run (ownStart_represents hs) hok

/-- One coroutine with four kibibytes of stack. -/
def oneCoroutine : CoLayout Unit where
  coFunction := 0x401000
  coctxSwap := 0x402000
  this _ := 0x10000
  coctx
    | none => 0x20008
    | some _ => 0x10008
  stackSp _ := 0x30000
  stackSize _ := 4096

def mainThread : SwitchThread Unit where
  machine := { regs := fun r => if r = .rsp then 0x80000 else 1, mem := fun _ => 0, rip := 0x400000 }

theorem oneCoroutine_wellPlaced : oneCoroutine.WellPlaced where
  contexts
    | none, none, h => absurd rfl h
    | none, some (), _ => by decide
    | some (), none, _ => by decide
    | some (), some (), h => absurd rfl h
  tops
    | (), none => by decide
    | (), some () => by decide

theorem switch_run_one :
    let ls : List (SwitchStep Unit) := [.setCallBack (some ()), .resume (some ()) 0x400100, .yield 0x401234]
    ∃ s' t', runLabels oneCoroutine.next mainThread ls = some s' ∧
      runLabels oneCoroutine.ownNext (oneCoroutine.ownStart mainThread) ls = some t' ∧
      oneCoroutine.Represents s' t' :=
  switch_run oneCoroutine_wellPlaced rfl (by decide +kernel)

theorem reachable_represents (h : L.WellPlaced) (hs : Reachable L.next SwitchStart L.Keeps s) :
    ∃ t, L.Represents s t := by
  refine hs.invariant (I := fun s => ∃ t, L.Represents s t) (fun s hs => ⟨_, ownStart_represents hs⟩)
    fun s s' l hrep hok hn => ?_
  obtain ⟨t, hrep⟩ := hrep
  obtain ⟨s'', t', hn', -, hrep'⟩ := switch_refines h s t l hrep hok
  obtain rfl : s'' = s' := Option.some.inj (hn'.symm.trans hn)
  exact ⟨t', hrep'⟩

/-! ## A coroutine that waits -/

/-- A coroutine that does not run, with what it will go on with. -/
structure Waits (t : Coroutines C) (c : C) (inCofunc : Bool) (cpu : Cpu) : Prop where
  current : t.control.current ≠ some c
  inCofunc : t.control.isInCofunc c = inCofunc
  cpu : t.cpus (some c) = cpu

/-- The step neither resumes the coroutine nor gives it another callback. Inside of its callback it keeps that. -/
def Lets (c : C) (inCofunc : Bool) (l : SwitchStep C) : Prop :=
  (∀ k, l ≠ .resume (some c) k) ∧ (inCofunc = false → l ≠ .setCallBack (some c))

theorem setIsInCoFunc_other (hc : control.current ≠ some c) (v : Bool) :
    (control.setIsInCoFunc v).current = control.current ∧
      (control.setIsInCoFunc v).isInCofunc c = control.isInCofunc c := by
  unfold CoControl.setIsInCoFunc
  split
  case h_1 => exact ⟨rfl, rfl⟩
  case h_2 c' hc' =>
    have hne : c ≠ c' := fun heq => hc (heq ▸ hc')
    exact ⟨rfl, Function.update_of_ne hne _ _⟩

theorem Waits.step {b : Bool} {cpu : Cpu} {t' : Coroutines C} (h : Waits t c b cpu) (hl : Lets c b l)
    (hn : L.ownNext t l = some t') : Waits t' c b cpu := by
  obtain ⟨hcur, hin, hcpu⟩ := h
  obtain ⟨hresume, hset⟩ := hl
  have hother : ∀ {o : Option C} (cpu' : Cpu), o ≠ some c → (t.setCpu o cpu').cpus (some c) = cpu := fun _ ho =>
    (Function.update_of_ne ho.symm _ _).trans hcpu
  cases l with
  | code machine =>
      obtain rfl := Option.some.inj hn
      exact ⟨hcur, hin, hother _ hcur⟩
  | setIsInCoFunc v =>
      obtain rfl := Option.some.inj hn
      obtain ⟨hcur', hin'⟩ := setIsInCoFunc_other hcur v
      exact ⟨hcur' ▸ hcur, hin'.trans hin, hcpu⟩
  | setCanResume c' v =>
      obtain rfl := Option.some.inj hn
      exact ⟨hcur, hin, hcpu⟩
  | setCurrentRuntime =>
      obtain rfl := Option.some.inj hn
      exact ⟨hcur, hin, hcpu⟩
  | setCallBack cor =>
      cases cor with
      | none =>
          obtain rfl := Option.some.inj hn
          exact ⟨hcur, hin, hcpu⟩
      | some c' =>
          simp only [CoLayout.ownNext] at hn
          by_cases htakes : t.control.takesCallBack c' = true
          · rw [if_pos htakes] at hn
            obtain rfl := Option.some.inj hn
            have hne : some c' ≠ some c := fun heq => by
              obtain rfl := Option.some.inj heq
              rw [CoControl.takesCallBack, hin] at htakes
              exact hset (by simpa using htakes) rfl
            exact ⟨hcur, hin, hother _ hne⟩
          · rw [if_neg htakes] at hn
            obtain rfl := Option.some.inj hn
            exact ⟨hcur, hin, hcpu⟩
  | resume cor returns =>
      simp only [CoLayout.ownNext] at hn
      split at hn
      · obtain rfl := Option.some.inj hn
        have hne : cor ≠ some c := fun heq => hresume returns (congrArg (SwitchStep.resume · returns) heq)
        exact ⟨hne, hin, hother (L.behindSwap none cor returns (t.cpus none)) (Option.some_ne_none c).symm⟩
      · obtain rfl := Option.some.inj hn
        exact ⟨hcur, hin, hcpu⟩
  | yield returns =>
      simp only [CoLayout.ownNext] at hn
      split at hn
      · obtain rfl := Option.some.inj hn
        exact ⟨hcur, hin, hcpu⟩
      · obtain rfl := Option.some.inj hn
        exact ⟨(Option.some_ne_none c).symm, hin, hother _ hcur⟩

theorem Waits.run {b : Bool} {cpu : Cpu} {t' : Coroutines C} (h : Waits t c b cpu) (hls : ∀ l ∈ ls, Lets c b l)
    (hn : runLabels L.ownNext t ls = some t') : Waits t' c b cpu := by
  induction ls generalizing t with
  | nil => exact Option.some.inj hn ▸ h
  | cons l ls ih =>
      obtain ⟨hl, hls⟩ := List.forall_mem_cons.mp hls
      rw [runLabels, Option.bind_eq_some_iff] at hn
      obtain ⟨t₁, hn₁, hn⟩ := hn
      exact ih (h.step hl hn₁) hls hn

/-- From where a coroutine waits, over a run of the others, to its `Resume`. -/
theorem Waits.resume {b : Bool} {cpu : Cpu} (h : L.WellPlaced) (hrep : L.Represents s t) (hw : Waits t c b cpu)
    (hok : RunOk L.next L.Keeps s (ls ++ [.resume (some c) k])) (hls : ∀ l ∈ ls, Lets c b l)
    (hrun : runLabels L.next s ls = some s₁) (hres : s₁.control.resumes (some c) = true) :
    ∃ s₂, L.next s₁ (.resume (some c) k) = some s₂ ∧ s₂.control.current = some c ∧ s₂.machine.rip = cpu.rip ∧
      (∀ r, Kept r → s₂.machine.regs r = cpu.regs r) ∧ load s₂.machine.mem (cpu.regs .rsp - 8) = cpu.rip := by
  obtain ⟨hrunok, hlast⟩ := hok.of_append
  obtain ⟨s₁', t₁, hrun', hrunt, hrep₁⟩ := (switch_refines h).run hrep hrunok
  obtain rfl : s₁' = s₁ := Option.some.inj (hrun'.symm.trans hrun)
  obtain ⟨hcur₁, -, hcpu₁⟩ := hw.run hls hrunt
  have hkeeps := (hlast s₁' hrun').1
  obtain ⟨s₂, t₂, hs₂, ht₂, hrep₂⟩ := switch_refines h s₁' t₁ _ hrep₁ hkeeps
  have hres₁ : t₁.control.resumes (some c) = true := hrep₁.control ▸ hres
  simp only [CoLayout.ownNext, if_pos hres₁] at ht₂
  obtain rfl := Option.some.inj ht₂
  have hcpu₂ : Function.update t₁.cpus none (L.behindSwap none (some c) k (t₁.cpus none)) (some c) = cpu :=
    (Function.update_of_ne (Option.some_ne_none c) _ _).trans hcpu₁
  refine ⟨s₂, hs₂, congrArg CoControl.current hrep₂.control, ?_, fun r hr => ?_, ?_⟩
  · exact hrep₂.rip.trans (congrArg Cpu.rip hcpu₂)
  · exact (hrep₂.regs r hr).trans (congrArg (Cpu.regs · r) hcpu₂)
  · have hheld : L.Holds s₁'.machine (some c) cpu :=
      hcpu₁ ▸ hrep₁.holds (some c) hcur₁.symm (hrep₁.control ▸ hkeeps.1)
    have hrsp : ctxWord s₁'.machine.mem (L.coctx (some c)) kRSP = cpu.regs .rsp - 8 := by
      rw [← hheld.regs .rsp (by decide)]
      exact (BitVec.add_sub_cancel _ _).symm
    simp only [CoLayout.next, if_pos hres] at hs₂
    obtain rfl := Option.some.inj hs₂
    rw [← hrsp, ← hheld.rip]
    exact swap_slot h hkeeps.2 (Option.some_ne_none c).symm hheld.slot

/-- A coroutine that yields in its callback goes on behind its `Yield` when it is resumed, with its stack pointer and
the other registers of the context, whatever the thread has done meanwhile. -/
theorem resume_behind_yield (h : L.WellPlaced) (hs : Reachable L.next SwitchStart L.Keeps s)
    (hcur : s.control.current = some c) (hin : s.control.isInCofunc c = true)
    (hok : RunOk L.next L.Keeps s (.yield ret :: ls ++ [.resume (some c) k]))
    (hls : ∀ l ∈ ls, ∀ k, l ≠ .resume (some c) k) (hrun : runLabels L.next s (.yield ret :: ls) = some s₁)
    (hres : s₁.control.resumes (some c) = true) :
    ∃ s₂, L.next s₁ (.resume (some c) k) = some s₂ ∧ s₂.control.current = some c ∧ s₂.machine.rip = ret ∧
      ∀ r, Kept r → r ≠ .rdi → r ≠ .rsi → s₂.machine.regs r = s.machine.regs r := by
  obtain ⟨t, hrep⟩ := reachable_represents h hs
  have hcurt : t.control.current = some c := hrep.control ▸ hcur
  let cpu := L.behindSwap (some c) none ret (t.cpus (some c))
  obtain ⟨hkeeps, hrest⟩ := hok
  obtain ⟨s₀, t₀, hs₀, ht₀, hrep₀⟩ := switch_refines h s t _ hrep hkeeps
  have hwaits : Waits t₀ c true cpu := by
    simp only [CoLayout.ownNext, hcurt, Option.isNone_some, Bool.false_eq_true, if_false] at ht₀
    obtain rfl := Option.some.inj ht₀
    exact ⟨(Option.some_ne_none c).symm, hrep.control ▸ hin, Function.update_self _ _ _⟩
  rw [runLabels, hs₀, Option.bind_some] at hrun
  have hlets : ∀ l ∈ ls, Lets c true l := fun l hl => ⟨hls l hl, fun hfalse => absurd hfalse (by decide)⟩
  obtain ⟨s₂, hs₂, hcur₂, hrip, hregs, -⟩ := hwaits.resume h hrep₀ (hrest s₀ hs₀) hlets hrun hres
  refine ⟨s₂, hs₂, hcur₂, hrip, fun r hr hrdi hrsi => ?_⟩
  calc s₂.machine.regs r
    _ = Function.update (Function.update (t.cpus (some c)).regs .rdi _) .rsi _ r := hregs r hr
    _ = (t.cpus (some c)).regs r := by rw [Function.update_of_ne hrsi, Function.update_of_ne hrdi]
    _ = (t.cpus t.control.current).regs r := by rw [hcurt]
    _ = s.machine.regs r := (hrep.regs r hr).symm

/-- Two coroutines with four kibibytes of stack each. -/
def twoCoroutines : CoLayout Bool where
  coFunction := 0x401000
  coctxSwap := 0x402000
  this c := if c then 0x11000 else 0x10000
  coctx
    | none => 0x20008
    | some c => if c then 0x11008 else 0x10008
  stackSp c := if c then 0x32000 else 0x30000
  stackSize _ := 4096

theorem twoCoroutines_wellPlaced : twoCoroutines.WellPlaced where
  contexts := by decide
  tops := by decide

def twoThread : SwitchThread Bool := { machine := mainThread.machine }

/-- The first coroutine is in its callback. -/
def firstRuns : List (SwitchStep Bool) := [.setCallBack (some false), .resume (some false) 0x400100, .setIsInCoFunc true]

/-- It has yielded; a callback for it is refused, and the second one is started. -/
def secondStarts : List (SwitchStep Bool) :=
  [.setCallBack (some false), .setCallBack (some true), .resume (some true) 0x400200, .setIsInCoFunc true]

/-- The second one has overwritten its registers, and pushed a word on its stack. -/
def secondWorks : Machine :=
  match runLabels twoCoroutines.next twoThread (firstRuns ++ .yield 0x401234 :: secondStarts) with
  | some s => { s.machine with
      regs := fun r => if r = .rsp then 0x32ff0 else 7
      mem := store s.machine.mem 0x32ff0 0xdead }
  | none => twoThread.machine

def whileItWaits : List (SwitchStep Bool) :=
  secondStarts ++ [.code secondWorks, .yield 0x405678, .setCurrentRuntime]

theorem resume_behind_yield_second :
    ∃ s s₁ s₂, runLabels twoCoroutines.next twoThread firstRuns = some s ∧
      runLabels twoCoroutines.next s (.yield 0x401234 :: whileItWaits) = some s₁ ∧
      twoCoroutines.next s₁ (.resume (some false) 0x400300) = some s₂ ∧ s₂.machine.rip = 0x401234 ∧
      s₂.machine.regs .rsp = s.machine.regs .rsp := by
  have hok : RunOk twoCoroutines.next twoCoroutines.Keeps twoThread
      (firstRuns ++ (.yield 0x401234 :: whileItWaits ++ [.resume (some false) 0x400300])) := by decide +kernel
  obtain ⟨hfirst, hrest⟩ := hok.of_append
  have hstart : SwitchStart twoThread := rfl
  have hcontrol : ((runLabels twoCoroutines.next twoThread firstRuns).bind fun s =>
      (runLabels twoCoroutines.next s (.yield 0x401234 :: whileItWaits)).map fun s₁ =>
        (s.control.current, s.control.isInCofunc false, s₁.control.resumes (some false))) =
          some (some false, true, true) := by
    decide +kernel
  obtain ⟨s, hs, hcontrol⟩ := Option.bind_eq_some_iff.mp hcontrol
  obtain ⟨s₁, hs₁, hcontrol⟩ := Option.map_eq_some_iff.mp hcontrol
  simp only [Prod.mk.injEq] at hcontrol
  obtain ⟨hcur, hin, hresumes⟩ := hcontrol
  have hreach : Reachable twoCoroutines.next SwitchStart twoCoroutines.Keeps s :=
    (Reachable.start hstart).of_runOk hfirst hs
  obtain ⟨s₂, hs₂, -, hrip, hregs⟩ := resume_behind_yield twoCoroutines_wellPlaced hreach hcur hin (hrest s hs)
    (by simp [whileItWaits, secondStarts]) hs₁ hresumes
  exact ⟨s, s₁, s₂, hs, hs₁, hs₂, hrip, hregs .rsp (by decide) (by decide) (by decide)⟩

/-! ## The first time -/

/-- A coroutine with a fresh callback enters `CoFunction` with itself as the argument when it is resumed. The address
of `CoFunction` is written to the eight bytes at the top of its stack. -/
theorem first_resume (h : L.WellPlaced) (hs : Reachable L.next SwitchStart L.Keeps s)
    (htakes : s.control.takesCallBack c = true)
    (hok : RunOk L.next L.Keeps s (.setCallBack (some c) :: ls ++ [.resume (some c) k]))
    (hls : ∀ l ∈ ls, Lets c false l) (hrun : runLabels L.next s (.setCallBack (some c) :: ls) = some s₁)
    (hres : s₁.control.resumes (some c) = true) :
    ∃ s₂, L.next s₁ (.resume (some c) k) = some s₂ ∧ s₂.control.current = some c ∧
      s₂.machine.rip = L.coFunction ∧ s₂.machine.regs .rdi = L.this c ∧ s₂.machine.regs .rsp = L.top c + 8 ∧
      load s₂.machine.mem (L.top c) = L.coFunction := by
  obtain ⟨t, hrep⟩ := reachable_represents h hs
  obtain ⟨hkeeps, hrest⟩ := hok
  have hin : s.control.isInCofunc c = false := by simpa [CoControl.takesCallBack] using htakes
  have hcur : s.control.current ≠ some c := fun hc => absurd (hin.symm.trans (hkeeps hc)) (by decide)
  obtain ⟨s₀, t₀, hs₀, ht₀, hrep₀⟩ := switch_refines h s t _ hrep hkeeps
  have htakest : t.control.takesCallBack c = true := hrep.control ▸ htakes
  have hwaits : Waits t₀ c false (L.startCpu c) := by
    simp only [CoLayout.ownNext, if_pos htakest] at ht₀
    obtain rfl := Option.some.inj ht₀
    exact ⟨hrep.control ▸ hcur, hrep.control ▸ hin, Function.update_self _ _ _⟩
  rw [runLabels, hs₀, Option.bind_some] at hrun
  obtain ⟨s₂, hs₂, hcur₂, hrip, hregs, hslot⟩ := hwaits.resume h hrep₀ (hrest s₀ hs₀) hls hrun hres
  have htop : (L.startCpu c).regs .rsp - 8 = L.top c := BitVec.add_sub_cancel _ _
  exact ⟨s₂, hs₂, hcur₂, hrip, hregs .rdi (by decide), hregs .rsp (by decide), htop ▸ hslot⟩

end Tirpc
