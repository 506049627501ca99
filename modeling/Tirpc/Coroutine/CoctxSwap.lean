import Tirpc.Lib.X86

/-!
# The switch of contexts (`coctx_swap.s`, `coctx.hpp`)

The instructions as they stand in the source. They are called with the address of the context to save to in `rdi`,
and of the one to go on with in `rsi`.
-/

namespace Tirpc

open Lib Lib.X86

def kRBP : Nat := 6

def kRDI : Nat := 7

def kRSI : Nat := 8

def kRETAddr : Nat := 9

def kRSP : Nat := 13

/-- The instructions that save, those that load, and those that leave for the other context. -/
def coctxSwapSaves : List Instr := [
  .lea 0 .rsp .rax,
  .store .rax 104 .rdi,
  .store .rbx 96 .rdi,
  .store .rcx 88 .rdi,
  .store .rdx 80 .rdi,
  .load 0 .rax .rax,
  .store .rax 72 .rdi,
  .store .rsi 64 .rdi,
  .store .rdi 56 .rdi,
  .store .rbp 48 .rdi,
  .store .r8 40 .rdi,
  .store .r9 32 .rdi,
  .store .r12 24 .rdi,
  .store .r13 16 .rdi,
  .store .r14 8 .rdi,
  .store .r15 0 .rdi,
  .xor .rax .rax]

def coctxSwapLoads : List Instr := [
  .load 48 .rsi .rbp,
  .load 104 .rsi .rsp,
  .load 0 .rsi .r15,
  .load 8 .rsi .r14,
  .load 16 .rsi .r13,
  .load 24 .rsi .r12,
  .load 32 .rsi .r9,
  .load 40 .rsi .r8,
  .load 56 .rsi .rdi,
  .load 80 .rsi .rdx,
  .load 88 .rsi .rcx,
  .load 96 .rsi .rbx]

def coctxSwapLeaves : List Instr := [
  .lea 8 .rsp .rsp,
  .push 72 .rsi,
  .load 64 .rsi .rsi,
  .ret]

def coctxSwap : List Instr := coctxSwapSaves ++ coctxSwapLoads ++ coctxSwapLeaves

/-- `regs_[i]` of the context at `a`. -/
def ctxWord (m : X86.Memory) (a : Word) (i : Nat) : Word := load m (a + BitVec.ofNat 64 (8 * i))

/-- What `coctx_swap` writes to the `regs_` of the context it leaves. -/
def savedRegs (s : Machine) : List Word := [
  s.regs .r15, s.regs .r14, s.regs .r13, s.regs .r12, s.regs .r9, s.regs .r8, s.regs .rbp, s.regs .rdi, s.regs .rsi,
  load s.mem (s.regs .rsp), s.regs .rdx, s.regs .rcx, s.regs .rbx, s.regs .rsp]

/-- The registers with which the context `c` goes on. -/
def loadedReg (s : Machine) (c : Nat → Word) : Reg → Word
  | .rax => 0
  | .rbx => c 12
  | .rcx => c 11
  | .rdx => c 10
  | .rsi => c kRSI
  | .rdi => c kRDI
  | .rbp => c kRBP
  | .rsp => c kRSP + 8
  | .r8 => c 5
  | .r9 => c 4
  | .r10 => s.regs .r10
  | .r11 => s.regs .r11
  | .r12 => c 3
  | .r13 => c 2
  | .r14 => c 1
  | .r15 => c 0

/-- The areas that a switch reads and writes do not get into each other's way. -/
structure SwapApart (s : Machine) : Prop where
  returns : Apart (s.regs .rsp) 8 (s.regs .rdi) 112
  contexts : Apart (s.regs .rsi) 112 (s.regs .rdi) 112
  slot : Apart (ctxWord s.mem (s.regs .rsi) kRSP) 8 (s.regs .rsi) 112

end Tirpc
