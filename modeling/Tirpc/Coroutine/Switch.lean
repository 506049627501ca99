import Mathlib.Data.Fintype.Option
import Tirpc.Coroutine.CoctxSwap
import Tirpc.Lib.Transition

/-!
# Coroutines on one processor (`coroutine.cpp`)

A thread with its main coroutine (`none`) and others, down to the registers. What the code of a coroutine does
between two calls into `coroutine.cpp` is one step, with any machine that it leaves.
-/

namespace Tirpc

open Lib Lib.X86

/-- The fields that decide about a switch. `currentRuntime` names the coroutine whose runtime it is. -/
structure CoControl (C : Type) where
  current : Option C := none
  currentRuntime : Option (Option C) := none
  isInCofunc : C → Bool := fun _ => false
  canResume : C → Bool := fun _ => true
  /-- Whether there is a `callback_`. -/
  hasCallback : C → Bool := fun _ => false

/-- Where the objects lie, and the stacks. -/
structure CoLayout (C : Type) where
  coFunction : Word
  coctxSwap : Word
  this : C → Word
  /-- Where the `coctx_` of a coroutine is. -/
  coctx : Option C → Word
  stackSp : C → Word
  stackSize : C → Nat

inductive SwitchStep (C : Type) where
  /-- The coroutine that runs leaves the machine like this. -/
  | code (machine : Machine)
  /-- In `CoFunction`, around the callback. -/
  | setIsInCoFunc (v : Bool)
  | setCanResume (cor : C) (v : Bool)
  | setCallBack (cor : Option C)
  /-- In a dispatcher, to the runtime of the coroutine that runs. -/
  | setCurrentRuntime
  /-- `returns` is the place behind the call of `CoctxSwap`. -/
  | resume (cor : Option C) (returns : Word)
  | yield (returns : Word)

namespace CoControl

variable {C : Type} [DecidableEq C]

def setIsInCoFunc (s : CoControl C) (v : Bool) : CoControl C :=
  match s.current with
  | none => s
  | some c => { s with isInCofunc := Function.update s.isInCofunc c v }

/-- Whether `SetCallBack` takes the callback. -/
def takesCallBack (s : CoControl C) (c : C) : Bool := !s.isInCofunc c

def setCallBack (s : CoControl C) (c : C) : CoControl C :=
  { s with hasCallback := Function.update s.hasCallback c true, canResume := Function.update s.canResume c true }

/-- Whether `Resume` gets to the switch. The main coroutine is the current one where it could be resumed. -/
def resumes (s : CoControl C) : Option C → Bool
  | none => false
  | some c => s.current.isNone && s.canResume c

def resume (s : CoControl C) (cor : Option C) : CoControl C :=
  { s with current := cor, currentRuntime := some cor }

def yield (s : CoControl C) : CoControl C := { s with current := none, currentRuntime := none }

end CoControl

namespace CoLayout

variable {C : Type}

def top (L : CoLayout C) (c : C) : Word := (L.stackSp c + BitVec.ofNat 64 (L.stackSize c)) &&& -16

/-- `SetCallBack`: the context with which the coroutine will start. -/
def writeStart (L : CoLayout C) (c : C) (m : X86.Memory) : X86.Memory :=
  let set (m : X86.Memory) (i : Nat) (v : Word) := store m (L.coctx (some c) + BitVec.ofNat 64 (8 * i)) v
  let m := storeWords m (L.coctx (some c)) (List.replicate 14 0)
  let m := set m kRSP (L.top c)
  let m := set m kRBP (L.top c)
  let m := set m kRETAddr L.coFunction
  set m kRDI (L.this c)

/-- The call of `CoctxSwap`, and what it does. -/
def swap (L : CoLayout C) (source target : Option C) (returns : Word) (s : Machine) : Machine :=
  (((s.setReg .rdi (L.coctx source)).setReg .rsi (L.coctx target)).call L.coctxSwap returns).run Tirpc.coctxSwap

end CoLayout

structure SwitchThread (C : Type) where
  control : CoControl C := {}
  machine : Machine

variable {C : Type} [DecidableEq C]

def CoLayout.next (L : CoLayout C) (s : SwitchThread C) : SwitchStep C → Option (SwitchThread C)
  | .code machine => some { s with machine := machine }
  | .setIsInCoFunc v => some { s with control := s.control.setIsInCoFunc v }
  | .setCanResume c v =>
      some { s with control := { s.control with canResume := Function.update s.control.canResume c v } }
  | .setCallBack none => some s
  | .setCallBack (some c) =>
      if s.control.takesCallBack c then
        some { control := s.control.setCallBack c, machine := { s.machine with mem := L.writeStart c s.machine.mem } }
      else some s
  | .setCurrentRuntime => some { s with control := { s.control with currentRuntime := some s.control.current } }
  | .resume cor returns =>
      if s.control.resumes cor then
        some { control := s.control.resume cor, machine := L.swap none cor returns s.machine }
      else some s
  | .yield returns =>
      if s.control.current.isNone then some s
      else some { control := s.control.yield, machine := L.swap s.control.current none returns s.machine }

/-! ## Each coroutine with registers of its own -/

/-- What a coroutine finds when it goes on. -/
structure Cpu where
  regs : Reg → Word
  rip : Word

/-- No coroutine touches the registers of another. -/
structure Coroutines (C : Type) where
  control : CoControl C := {}
  cpus : Option C → Cpu

/-- Where a coroutine starts. The stack is as after a call with nothing pushed. -/
def CoLayout.startCpu (L : CoLayout C) (c : C) : Cpu where
  regs
    | .rdi => L.this c
    | .rbp => L.top c
    | .rsp => L.top c + 8
    | _ => 0
  rip := L.coFunction

/-- Behind its call of `CoctxSwap`, whose arguments it still has. -/
def CoLayout.behindSwap (L : CoLayout C) (source target : Option C) (returns : Word) (cpu : Cpu) : Cpu where
  regs := Function.update (Function.update cpu.regs .rdi (L.coctx source)) .rsi (L.coctx target)
  rip := returns

def Coroutines.setCpu (t : Coroutines C) (o : Option C) (cpu : Cpu) : Coroutines C :=
  { t with cpus := Function.update t.cpus o cpu }

def CoLayout.ownNext (L : CoLayout C) (t : Coroutines C) : SwitchStep C → Option (Coroutines C)
  | .code machine => some (t.setCpu t.control.current ⟨machine.regs, machine.rip⟩)
  | .setIsInCoFunc v => some { t with control := t.control.setIsInCoFunc v }
  | .setCanResume c v =>
      some { t with control := { t.control with canResume := Function.update t.control.canResume c v } }
  | .setCallBack none => some t
  | .setCallBack (some c) =>
      if t.control.takesCallBack c then
        some { t.setCpu (some c) (L.startCpu c) with control := t.control.setCallBack c }
      else some t
  | .setCurrentRuntime => some { t with control := { t.control with currentRuntime := some t.control.current } }
  | .resume cor returns =>
      if t.control.resumes cor then
        some { t.setCpu none (L.behindSwap none cor returns (t.cpus none)) with control := t.control.resume cor }
      else some t
  | .yield returns =>
      if t.control.current.isNone then some t
      else
        let o := t.control.current
        some { t.setCpu o (L.behindSwap o none returns (t.cpus o)) with control := t.control.yield }

/-! ## The registers of a coroutine, and where they are -/

/-- The registers that a context has a word for. -/
def Kept (r : Reg) : Prop := r ≠ .rax ∧ r ≠ .r10 ∧ r ≠ .r11

instance (r : Reg) : Decidable (Kept r) := inferInstanceAs (Decidable (_ ∧ _))

/-- No two contexts overlap, and the eight bytes at the top of a stack are in none of them. -/
structure CoLayout.WellPlaced (L : CoLayout C) : Prop where
  contexts : ∀ o o', o ≠ o' → Apart (L.coctx o) 112 (L.coctx o') 112
  tops : ∀ c o, Apart (L.top c) 8 (L.coctx o) 112

/-- The context of a coroutine that does not run holds its registers, and eight bytes for its return address. -/
structure CoLayout.Holds (L : CoLayout C) (s : Machine) (o : Option C) (cpu : Cpu) : Prop where
  rip : ctxWord s.mem (L.coctx o) kRETAddr = cpu.rip
  regs : ∀ r, Kept r → loadedReg s (ctxWord s.mem (L.coctx o)) r = cpu.regs r
  slot : ∀ o', Apart (ctxWord s.mem (L.coctx o) kRSP) 8 (L.coctx o') 112

/-- Whether a coroutine has ever had something to run. -/
def CoControl.Live (s : CoControl C) : Option C → Prop
  | none => True
  | some c => s.hasCallback c = true

structure CoLayout.Represents (L : CoLayout C) (s : SwitchThread C) (t : Coroutines C) : Prop where
  control : s.control = t.control
  rip : s.machine.rip = (t.cpus t.control.current).rip
  regs : ∀ r, Kept r → s.machine.regs r = (t.cpus t.control.current).regs r
  holds : ∀ o, o ≠ t.control.current → t.control.Live o → L.Holds s.machine o (t.cpus o)

/-- The call of `CoctxSwap` has room on the stack that is in no context. -/
def CoLayout.Room (L : CoLayout C) (s : Machine) : Prop := ∀ o, Apart (s.regs .rsp - 8) 8 (L.coctx o) 112

/-- What the code of the process keeps to: the contexts are private, a coroutine calls `SetCallBack` only inside of
its callback, and those that are resumed have one. -/
def CoLayout.Keeps (L : CoLayout C) (s : SwitchThread C) : SwitchStep C → Prop
  | .code machine => ∀ o, o ≠ s.control.current →
      ∀ i < 14, ctxWord machine.mem (L.coctx o) i = ctxWord s.machine.mem (L.coctx o) i
  | .setCallBack (some c) => s.control.current = some c → s.control.isInCofunc c = true
  | .resume (some c) _ => s.control.hasCallback c = true ∧ L.Room s.machine
  | .yield _ => L.Room s.machine
  | _ => True

instance [Fintype C] (L : CoLayout C) (s : Machine) : Decidable (L.Room s) := Fintype.decidableForallFintype

instance [Fintype C] (L : CoLayout C) (s : SwitchThread C) : (l : SwitchStep C) → Decidable (L.Keeps s l)
  | .code machine =>
      have : DecidablePred fun o => o ≠ s.control.current →
          ∀ i < 14, ctxWord machine.mem (L.coctx o) i = ctxWord s.machine.mem (L.coctx o) i := fun _ => inferInstance
      Fintype.decidableForallFintype
  | .setIsInCoFunc _ => inferInstanceAs (Decidable True)
  | .setCanResume _ _ => inferInstanceAs (Decidable True)
  | .setCallBack none => inferInstanceAs (Decidable True)
  | .setCallBack (some c) => inferInstanceAs (Decidable (s.control.current = some c → s.control.isInCofunc c = true))
  | .setCurrentRuntime => inferInstanceAs (Decidable True)
  | .resume none _ => inferInstanceAs (Decidable True)
  | .resume (some c) _ => inferInstanceAs (Decidable (s.control.hasCallback c = true ∧ L.Room s.machine))
  | .yield _ => inferInstanceAs (Decidable (L.Room s.machine))

/-- A thread that runs its main coroutine, before any callback is set. -/
def SwitchStart (s : SwitchThread C) : Prop := s.control = {}

/-- The start, where the coroutines without a callback have nothing to go on with. -/
def CoLayout.ownStart (L : CoLayout C) (s : SwitchThread C) : Coroutines C where
  cpus
    | none => ⟨s.machine.regs, s.machine.rip⟩
    | some c => L.startCpu c

end Tirpc
