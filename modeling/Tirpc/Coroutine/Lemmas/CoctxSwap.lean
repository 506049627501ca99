import Tirpc.Coroutine.CoctxSwap

/-!
# The three parts of `coctx_swap`

Saving writes the words of one context in a row, as soon as the return address is read from what the stores left of
the stack. Loading takes the registers from the other context, and leaving pushes its return address and returns.
-/

namespace Tirpc

open Lib Lib.X86

variable {s : Machine}

/-- The return address is read behind the first four stores. -/
theorem load_returns (h : Apart (s.regs .rsp) 8 (s.regs .rdi) 112) (v₁ v₂ v₃ v₄ : Word) :
    load (store (store (store (store s.mem (s.regs .rdi + 104) v₁) (s.regs .rdi + 96) v₂) (s.regs .rdi + 88) v₃)
      (s.regs .rdi + 80) v₄) (s.regs .rsp) = load s.mem (s.regs .rsp) := by
  have hpart : ∀ i, i + 8 ≤ 112 → Apart (s.regs .rsp) 8 (s.regs .rdi + BitVec.ofNat 64 i) 8 := fun i hi => by
    have hpart := h.part (i := 0) (x := 8) (j := i) (y := 8) (by decide) hi (by decide) (by decide)
    rwa [BitVec.add_zero] at hpart
  calc
    _ = _ := load_store_apart (hpart 80 (by decide))
    _ = _ := load_store_apart (hpart 88 (by decide))
    _ = _ := load_store_apart (hpart 96 (by decide))
    _ = _ := load_store_apart (hpart 104 (by decide))

theorem saves_mem (h : Apart (s.regs .rsp) 8 (s.regs .rdi) 112) :
    (s.run coctxSwapSaves).mem = storeWords s.mem (s.regs .rdi) (savedRegs s) := by
  have hzero : ∀ a : Word, a + 0 = a := BitVec.add_zero
  have hret := load_returns h (s.regs .rsp) (s.regs .rbx) (s.regs .rcx) (s.regs .rdx)
  calc (s.run coctxSwapSaves).mem
    _ = storeWords s.mem (s.regs .rdi) [
          s.regs .r15, s.regs .r14, s.regs .r13, s.regs .r12, s.regs .r9, s.regs .r8, s.regs .rbp, s.regs .rdi,
          s.regs .rsi, load (store (store (store (store s.mem (s.regs .rdi + 104) (s.regs .rsp)) (s.regs .rdi + 96)
            (s.regs .rbx)) (s.regs .rdi + 88) (s.regs .rcx)) (s.regs .rdi + 80) (s.regs .rdx)) (s.regs .rsp),
          s.regs .rdx, s.regs .rcx, s.regs .rbx, s.regs .rsp] := by
        simp only [storeWords, BitVec.add_assoc, BitVec.reduceAdd]
        simp only [coctxSwapSaves, Machine.run, List.foldl_cons, List.foldl_nil, Machine.exec, Machine.setReg,
          Function.update_self, ne_eq, reduceCtorEq, not_false_eq_true, Function.update_of_ne, hzero]
        rfl
    _ = _ := by rw [hret]; rfl

theorem saves_regs (s : Machine) (r : Reg) :
    (s.run coctxSwapSaves).regs r = if r = .rax then 0 else s.regs r := by
  cases r
  case rax => exact BitVec.xor_self
  all_goals rfl

theorem loads_mem (s : Machine) : (s.run coctxSwapLoads).mem = s.mem := rfl

/-- The registers after the loads. `rsi` still leads to the context. -/
theorem loads_regs (s : Machine) (r : Reg) : (s.run coctxSwapLoads).regs r =
    match r with
    | .rax => s.regs .rax
    | .rsi => s.regs .rsi
    | .rsp => ctxWord s.mem (s.regs .rsi) kRSP
    | r => loadedReg s (ctxWord s.mem (s.regs .rsi)) r := by
  cases r <;> rfl

theorem leaves_mem (s : Machine) : (s.run coctxSwapLeaves).mem =
    store s.mem (s.regs .rsp) (ctxWord s.mem (s.regs .rsi) kRETAddr) := by
  have hsub : s.regs .rsp + 8 - 8 = s.regs .rsp := BitVec.add_sub_cancel _ _
  calc (s.run coctxSwapLeaves).mem
    _ = store s.mem (s.regs .rsp + 8 - 8) (load s.mem (s.regs .rsi + 72)) := rfl
    _ = _ := by rw [hsub]; rfl

theorem leaves_rip (s : Machine) : (s.run coctxSwapLeaves).rip = ctxWord s.mem (s.regs .rsi) kRETAddr := by
  calc (s.run coctxSwapLeaves).rip
    _ = load (store s.mem (s.regs .rsp + 8 - 8) (load s.mem (s.regs .rsi + 72))) (s.regs .rsp + 8 - 8) := rfl
    _ = load s.mem (s.regs .rsi + 72) := load_store _ _ _

theorem leaves_regs (s : Machine) (h : Apart (s.regs .rsp) 8 (s.regs .rsi) 112) (r : Reg) :
    (s.run coctxSwapLeaves).regs r =
      match r with
      | .rsp => s.regs .rsp + 8
      | .rsi => ctxWord s.mem (s.regs .rsi) kRSI
      | r => s.regs r := by
  have hsub : s.regs .rsp + 8 - 8 = s.regs .rsp := BitVec.add_sub_cancel _ _
  cases r
  case rsp =>
    calc (s.run coctxSwapLeaves).regs .rsp
      _ = s.regs .rsp + 8 - 8 + 8 := rfl
      _ = _ := by rw [hsub]
  case rsi =>
    have hpart := h.symm.part (i := 64) (x := 8) (j := 0) (y := 8) (by decide) (by decide) (by decide) (by decide)
    rw [BitVec.add_zero] at hpart
    calc (s.run coctxSwapLeaves).regs .rsi
      _ = load (store s.mem (s.regs .rsp + 8 - 8) (load s.mem (s.regs .rsi + 72))) (s.regs .rsi + 64) := rfl
      _ = load s.mem (s.regs .rsi + 64) := by
          rw [hsub]
          exact load_store_apart hpart
  all_goals rfl

end Tirpc
