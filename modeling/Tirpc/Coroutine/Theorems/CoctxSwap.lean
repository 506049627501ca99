import Tirpc.Coroutine.Lemmas.CoctxSwap

/-!
# What a switch of contexts does
-/

namespace Tirpc

open Lib Lib.X86

variable {s : Machine} {i : Nat}

/-- Words of the context that is not written. -/
theorem ctxWord_saved (h : Apart (s.regs .rsi) 112 (s.regs .rdi) 112) (hi : i < 14) :
    ctxWord (storeWords s.mem (s.regs .rdi) (savedRegs s)) (s.regs .rsi) i = ctxWord s.mem (s.regs .rsi) i := by
  have hpart := h.part (i := 8 * i) (x := 8) (j := 0) (y := 112) (by omega) (by decide) (by decide) (by decide)
  rw [BitVec.add_zero] at hpart
  exact load_storeWords_apart hpart

/-- The function saves the one context, and goes on with the other as if that had returned from its own call. -/
theorem coctxSwap_spec (h : SwapApart s) :
    s.run coctxSwap = {
      regs := loadedReg s (ctxWord s.mem (s.regs .rsi))
      mem := store (storeWords s.mem (s.regs .rdi) (savedRegs s)) (ctxWord s.mem (s.regs .rsi) kRSP)
        (ctxWord s.mem (s.regs .rsi) kRETAddr)
      rip := ctxWord s.mem (s.regs .rsi) kRETAddr } := by
  obtain ⟨hreturns, hcontexts, hslot⟩ := h
  let saved := s.run coctxSwapSaves
  let loaded := saved.run coctxSwapLoads
  have hrun : s.run coctxSwap = loaded.run coctxSwapLeaves := by
    rw [coctxSwap, Machine.run_append, Machine.run_append]
  have hrsi : loaded.regs .rsi = s.regs .rsi := (loads_regs saved .rsi).trans (saves_regs s .rsi)
  have hrsi' : saved.regs .rsi = s.regs .rsi := saves_regs s .rsi
  have hmem : loaded.mem = storeWords s.mem (s.regs .rdi) (savedRegs s) := (loads_mem saved).trans (saves_mem hreturns)
  have hword : ∀ {i}, i < 14 → ctxWord loaded.mem (s.regs .rsi) i = ctxWord s.mem (s.regs .rsi) i := fun hi => by
    rw [hmem, ctxWord_saved hcontexts hi]
  have hword' : ∀ {i}, i < 14 → ctxWord saved.mem (saved.regs .rsi) i = ctxWord s.mem (s.regs .rsi) i := fun hi => by
    rw [hrsi', ← hword hi]; rfl
  have hrsp : loaded.regs .rsp = ctxWord s.mem (s.regs .rsi) kRSP :=
    (loads_regs saved .rsp).trans (hword' (by decide))
  have hregs : (loaded.run coctxSwapLeaves).regs = loadedReg s (ctxWord s.mem (s.regs .rsi)) := by
    funext r
    rw [leaves_regs loaded (by rwa [hrsp, hrsi]) r]
    cases r
    case rsp => exact congrArg (· + 8) hrsp
    case rsi =>
      show ctxWord loaded.mem (loaded.regs .rsi) kRSI = _
      rw [hrsi, hword (by decide)]; rfl
    case rax => exact saves_regs s .rax
    case r10 => exact saves_regs s .r10
    case r11 => exact saves_regs s .r11
    all_goals exact (loads_regs saved _).trans (hword' (by decide))
  have hleft : (loaded.run coctxSwapLeaves).mem = store (storeWords s.mem (s.regs .rdi) (savedRegs s))
      (ctxWord s.mem (s.regs .rsi) kRSP) (ctxWord s.mem (s.regs .rsi) kRETAddr) := by
    rw [leaves_mem, hrsp, hrsi, hword (by decide), hmem]
  have hrip : (loaded.run coctxSwapLeaves).rip = ctxWord s.mem (s.regs .rsi) kRETAddr := by
    rw [leaves_rip, hrsi, hword (by decide)]
  rw [hrun, ← hregs, ← hleft, ← hrip]

theorem coctxSwap_spec_one :
    let s : Machine := {
      regs := fun r => if r = .rdi then 0x10008 else if r = .rsi then 0x20008 else 0x80000
      mem := store (fun _ => 0) 0x20070 0x90000
      rip := 0x402000 }
    (s.run coctxSwap).regs .rsp = 0x90008 ∧ (s.run coctxSwap).rip = 0 := by
  intro s
  have hspec := coctxSwap_spec (⟨by decide, by decide, by decide⟩ : SwapApart s)
  rw [hspec]
  exact ⟨by decide, by decide⟩

end Tirpc
