import Mathlib.Algebra.Group.Nat.Defs
import Mathlib.Logic.Function.Basic

/-!
# A part of the x86-64 instruction set

Registers, memory of bytes, and the instructions that move whole words between them. Flags are left out. Programs
run straight through, up to a `ret` at the end.
-/

namespace Lib

namespace X86

abbrev Word := BitVec 64

abbrev Memory := Word → UInt8

variable {m m' : Memory} {a b v : Word} {n k i : Nat} {ws : List Word}

/-! ## Memory -/

/-- Byte `i` of a word, the low one first. -/
def byteOf (v : Word) (i : Nat) : UInt8 := UInt8.ofNat (v.toNat / 256 ^ i)

def load (m : Memory) (a : Word) : Word :=
  BitVec.ofNat 64 ((List.range 8).foldr (fun i n => (m (a + BitVec.ofNat 64 i)).toNat + 256 * n) 0)

def store (m : Memory) (a v : Word) : Memory := fun x => if (x - a).toNat < 8 then byteOf v (x - a).toNat else m x

/-- The words `ws` at `a` and the places behind it. The last one is stored first. -/
def storeWords (m : Memory) (a : Word) : List Word → Memory
  | [] => m
  | w :: ws => store (storeWords m (a + 8) ws) a w

/-- The `n` bytes at `a` and the `k` bytes at `b` have none in common. -/
structure Apart (a : Word) (n : Nat) (b : Word) (k : Nat) : Prop where
  before : n ≤ (b - a).toNat
  behind : k ≤ (a - b).toNat

instance (a : Word) (n : Nat) (b : Word) (k : Nat) : Decidable (Apart a n b k) :=
  decidable_of_iff (n ≤ (b - a).toNat ∧ k ≤ (a - b).toNat) ⟨fun h => ⟨h.1, h.2⟩, fun h => ⟨h.1, h.2⟩⟩

theorem Apart.symm (h : Apart a n b k) : Apart b k a n := ⟨h.behind, h.before⟩

/-- Parts of two areas, each given by its distance from the beginning. -/
theorem Apart.part (h : Apart a n b k) {i j x y : Nat} (hx : i + x ≤ n) (hy : j + y ≤ k) (hpos : 0 < x) (hpos' : 0 < y) :
    Apart (a + BitVec.ofNat 64 i) x (b + BitVec.ofNat 64 j) y := by
  obtain ⟨h1, h2⟩ := h
  constructor <;> bv_omega

/-- Parts of one area. -/
theorem apart_parts {i j : Nat} (a : Word) (h : i + n ≤ j) (hj : j + k ≤ 18446744073709551616) (hk : 0 < k) (hn : 0 < n) :
    Apart (a + BitVec.ofNat 64 i) n (a + BitVec.ofNat 64 j) k := by
  constructor <;> bv_omega

theorem store_outside {x : Word} (h : 8 ≤ (x - a).toNat) : store m a v x = m x := if_neg (Nat.not_lt.mpr h)

theorem storeWords_outside {x : Word} (h : 8 * ws.length ≤ (x - a).toNat) : storeWords m a ws x = m x := by
  induction ws generalizing a with
  | nil => rfl
  | cons w ws ih =>
      rw [List.length_cons] at h
      rw [storeWords, store_outside (by omega)]
      exact ih (by bv_omega)

theorem load_congr (h : ∀ i < 8, m (a + BitVec.ofNat 64 i) = m' (a + BitVec.ofNat 64 i)) : load m a = load m' a := by
  unfold load
  refine congrArg (BitVec.ofNat 64) ?_
  have hfold : ∀ l : List Nat, (∀ i ∈ l, i < 8) →
      l.foldr (fun i n => (m (a + BitVec.ofNat 64 i)).toNat + 256 * n) 0 =
        l.foldr (fun i n => (m' (a + BitVec.ofNat 64 i)).toNat + 256 * n) 0 := by
    intro l hl
    induction l with
    | nil => rfl
    | cons i l ih =>
        obtain ⟨hi, hl⟩ := List.forall_mem_cons.mp hl
        rw [List.foldr_cons, List.foldr_cons, ih hl, h i hi]
  exact hfold _ fun i hi => List.mem_range.mp hi

theorem load_storeWords_apart (h : Apart b 8 a (8 * ws.length)) : load (storeWords m a ws) b = load m b := by
  obtain ⟨h1, h2⟩ := h
  refine load_congr fun i hi => storeWords_outside ?_
  bv_omega

theorem load_store_apart (h : Apart b 8 a 8) : load (store m a v) b = load m b :=
  (load_storeWords_apart h : load (storeWords m a [v]) b = load m b)

@[simp] theorem load_store (m : Memory) (a v : Word) : load (store m a v) a = v := by
  have hbyte : ∀ i < 8, (store m a v (a + BitVec.ofNat 64 i)).toNat = v.toNat / 256 ^ i % 256 := by
    intro i hi
    have hoff : (a + BitVec.ofNat 64 i - a).toNat = i := by bv_omega
    rw [store, hoff, if_pos hi, byteOf, UInt8.toNat_ofNat']
  have hv := v.isLt
  apply BitVec.eq_of_toNat_eq
  rw [load, BitVec.toNat_ofNat]
  simp only [List.range, List.range.loop, List.foldr, hbyte 0 (by decide), hbyte 1 (by decide), hbyte 2 (by decide),
    hbyte 3 (by decide), hbyte 4 (by decide), hbyte 5 (by decide), hbyte 6 (by decide), hbyte 7 (by decide)]
  omega

theorem load_storeWords (hlen : 8 * ws.length ≤ 18446744073709551616) (hi : i < ws.length) :
    load (storeWords m a ws) (a + BitVec.ofNat 64 (8 * i)) = ws[i] := by
  induction ws generalizing a i with
  | nil => exact absurd hi (Nat.not_lt_zero i)
  | cons w ws ih =>
      rw [List.length_cons] at hlen hi
      cases i with
      | zero => rw [Nat.mul_zero, BitVec.add_zero, storeWords, load_store, List.getElem_cons_zero]
      | succ i =>
          have hnext : a + BitVec.ofNat 64 (8 * (i + 1)) = a + 8 + BitVec.ofNat 64 (8 * i) := by bv_omega
          rw [storeWords, load_store_apart (by constructor <;> bv_omega), hnext, ih (by omega) (by omega),
            List.getElem_cons_succ]

theorem and_neg_sixteen (h : a.toNat % 16 = 0) : a &&& -16 = a := by
  have hmask : ∀ i < 64, (-16 : Word).getLsbD i = decide (4 ≤ i) := by decide
  apply BitVec.eq_of_getLsbD_eq
  intro i hi
  rw [BitVec.getLsbD_and, hmask i hi]
  by_cases h4 : 4 ≤ i
  · simp [h4]
  · have hbit := Nat.testBit_mod_two_pow a.toNat 4 i
    rw [h, Nat.zero_testBit, decide_eq_true (Nat.lt_of_not_le h4), Bool.true_and] at hbit
    rw [BitVec.getLsbD, ← hbit, Bool.false_and]

/-! ## Instructions -/

inductive Reg where
  | rax | rbx | rcx | rdx | rsi | rdi | rbp | rsp
  | r8 | r9 | r10 | r11 | r12 | r13 | r14 | r15
  deriving DecidableEq, Repr

structure Machine where
  regs : Reg → Word
  mem : Memory
  rip : Word

/-- Operands stand in the order of the AT&T syntax, the source first. -/
inductive Instr where
  /-- `leaq disp(base), dst` -/
  | lea (disp : Word) (base dst : Reg)
  /-- `movq disp(base), dst` -/
  | load (disp : Word) (base dst : Reg)
  /-- `movq src, disp(base)` -/
  | store (src : Reg) (disp : Word) (base : Reg)
  | xor (src dst : Reg)
  /-- `pushq disp(base)` -/
  | push (disp : Word) (base : Reg)
  | ret
  deriving DecidableEq, Repr

namespace Machine

def setReg (s : Machine) (r : Reg) (v : Word) : Machine := { s with regs := Function.update s.regs r v }

def exec (s : Machine) : Instr → Machine
  | .lea disp base dst => s.setReg dst (s.regs base + disp)
  | .load disp base dst => s.setReg dst (X86.load s.mem (s.regs base + disp))
  | .store src disp base => { s with mem := X86.store s.mem (s.regs base + disp) (s.regs src) }
  | .xor src dst => s.setReg dst (s.regs dst ^^^ s.regs src)
  | .push disp base =>
      let v := X86.load s.mem (s.regs base + disp)
      { s.setReg .rsp (s.regs .rsp - 8) with mem := X86.store s.mem (s.regs .rsp - 8) v }
  | .ret => { s.setReg .rsp (s.regs .rsp + 8) with rip := X86.load s.mem (s.regs .rsp) }

def run (s : Machine) (program : List Instr) : Machine := program.foldl exec s

/-- `call` of a function, from a place of the program that it returns to. -/
def call (s : Machine) (function returns : Word) : Machine :=
  { s.setReg .rsp (s.regs .rsp - 8) with mem := X86.store s.mem (s.regs .rsp - 8) returns, rip := function }

@[simp] theorem setReg_mem (s : Machine) (r : Reg) (v : Word) : (s.setReg r v).mem = s.mem := rfl

@[simp] theorem setReg_rip (s : Machine) (r : Reg) (v : Word) : (s.setReg r v).rip = s.rip := rfl

@[simp] theorem setReg_regs_self (s : Machine) (r : Reg) (v : Word) : (s.setReg r v).regs r = v := by
  simp only [setReg, Function.update_self]

@[simp] theorem setReg_regs_of_ne (s : Machine) {r r' : Reg} (h : r' ≠ r) (v : Word) :
    (s.setReg r v).regs r' = s.regs r' := by
  simp only [setReg, Function.update_of_ne h]

theorem run_append (s : Machine) (l l' : List Instr) : s.run (l ++ l') = (s.run l).run l' := List.foldl_append

end Machine

end X86

end Lib
