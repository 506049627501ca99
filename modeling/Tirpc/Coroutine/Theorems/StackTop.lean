import Tirpc.Coroutine.Theorems.Pool
import Tirpc.Coroutine.Theorems.Switch

/-!
# The top of a stack of the pool

A stack begins right behind its block: `SetCallBack` does not leave room for the return address that the first switch
puts there.
-/

namespace Tirpc

open Lib Lib.X86

variable {poolSize stackSize i : Nat} {p : CoroutineRun} {C : Type} {L : CoLayout C}
  {s s₁ : SwitchThread C} {c : C} {k : Word} {ls : List (SwitchStep C)}

theorem reachable_stacksKept (hcount : 1 ≤ poolSize) (hsize : 1 ≤ stackSize)
    (h : Reachable coroutineNext (CoroutineStart poolSize stackSize) anyStep p) :
    ∃ m₀ ms, StacksKept poolSize stackSize m₀ ms p := by
  refine h.invariant (fun _ h0 => stacksKept_start h0) fun s s' l hI _ hn => ?_
  obtain ⟨m₀, ms, hI⟩ := hI
  exact ⟨m₀, coroutineStep_kept hI hsize hcount hn⟩

/-- What `malloc` returns, on this machine. -/
def Memory.Aligned (m : Memory) : Prop := m.start % 16 = 0 ∧ m.start + m.size < 18446744073709551616

instance (m : Memory) : Decidable m.Aligned := inferInstanceAs (Decidable (_ ∧ _))

theorem top_of_block {m : Memory} {t : Nat} (hm : m.Aligned) (hsize : m.blockSize % 16 = 0) (ht : t < m.blockCount)
    (hsp : L.stackSp c = BitVec.ofNat 64 (blockStart m.start m.blockSize t)) (hss : L.stackSize c = m.blockSize) :
    L.top c = BitVec.ofNat 64 (blockStart m.start m.blockSize (t + 1)) := by
  have hle : (t + 1) * m.blockSize ≤ m.size := by
    rw [Memory.size, Nat.mul_comm]
    exact Nat.mul_le_mul_left _ ht
  have hsum : L.stackSp c + BitVec.ofNat 64 (L.stackSize c) =
      BitVec.ofNat 64 (blockStart m.start m.blockSize (t + 1)) := by
    rw [hsp, hss, ← BitVec.ofNat_add, blockStart, blockStart, Nat.succ_mul, Nat.add_assoc]
  have hmod : blockStart m.start m.blockSize (t + 1) % 16 = 0 := by
    rw [blockStart, Nat.add_mod, hm.1, Nat.mul_mod, hsize, Nat.mul_zero]
  have hlt : blockStart m.start m.blockSize (t + 1) < 18446744073709551616 :=
    Nat.lt_of_le_of_lt (Nat.add_le_add_left hle _) hm.2
  rw [CoLayout.top, hsum]
  exact and_neg_sixteen (by rw [BitVec.toNat_ofNat, Nat.mod_eq_of_lt hlt, hmod])

variable [DecidableEq C]

/-- The first switch to a coroutine that the pool has handed out writes the address of `CoFunction` to the eight bytes
behind its block, which are the next block's or lie behind the memory. -/
theorem first_resume_behind_block (hcount : 1 ≤ poolSize) (hsize : 1 ≤ stackSize) (hsize16 : stackSize % 16 = 0)
    (hp : Reachable coroutineNext (CoroutineStart poolSize stackSize) anyStep p) (hout : i ∈ p.out)
    (haligned : ∀ m ∈ p.pool.memoryPool, m.Aligned) (hsp : L.stackSp c = BitVec.ofNat 64 (p.pool.cor i).stackPtr)
    (hss : L.stackSize c = stackSize) (h : L.WellPlaced) (hs : Reachable L.next SwitchStart L.Keeps s)
    (htakes : s.control.takesCallBack c = true)
    (hok : RunOk L.next L.Keeps s (.setCallBack (some c) :: ls ++ [.resume (some c) k]))
    (hls : ∀ l ∈ ls, Lets c false l) (hrun : runLabels L.next s (.setCallBack (some c) :: ls) = some s₁)
    (hres : s₁.control.resumes (some c) = true) :
    ∃ s₂, L.next s₁ (.resume (some c) k) = some s₂ ∧ ∃ m ∈ p.pool.memoryPool, ∃ t < m.blockCount,
      p.pool.stack i = block m.blockSize (blockStart m.start m.blockSize t) ∧
      load s₂.machine.mem (BitVec.ofNat 64 (blockStart m.start m.blockSize (t + 1))) = L.coFunction := by
  obtain ⟨m₀, ms, hkept⟩ := reachable_stacksKept hcount hsize hp
  obtain ⟨m, hm, t, ht, hptr⟩ := hkept.used (.inr hout)
  have hcut := hkept.laid.cut m hm
  have hmem : m ∈ p.pool.memoryPool := hkept.memory_eq ▸ hm
  have hlt : t < m.blockCount := hcut.blockCount_eq ▸ hcut.lt ht
  have htop : L.top c = BitVec.ofNat 64 (blockStart m.start m.blockSize (t + 1)) :=
    top_of_block (haligned m hmem) (hcut.blockSize_eq ▸ hsize16) hlt (hptr ▸ hsp) (hss.trans hcut.blockSize_eq.symm)
  obtain ⟨s₂, hs₂, -, -, -, -, hload⟩ := first_resume h hs htakes hok hls hrun hres
  refine ⟨s₂, hs₂, m, hmem, t, hlt, ?_, htop ▸ hload⟩
  rw [CoroutinePool.stack, hkept.stackSize_eq, hcut.blockSize_eq, hptr, hcut.blockSize_eq]

theorem first_resume_behind_block_one :
    ∃ s₂, oneCoroutine.next ⟨({} : CoControl Unit).setCallBack (), { mainThread.machine with
        mem := oneCoroutine.writeStart () mainThread.machine.mem }⟩ (.resume (some ()) 0x400100) = some s₂ ∧
      ∃ n, load s₂.machine.mem (BitVec.ofNat 64 n) = 0x401000 := by
  let p : CoroutineRun := { pool := poolBehind 1 4096 196608 1 }
  have hnew : CoroutineStart 1 4096 p := ⟨rfl, 196608, by decide, new_eq (by decide)⟩
  have hfirst : (runLabels coroutineNext p [.getCoroutineInstanse 8192]).map (fun p =>
      (decide (0 ∈ p.out), (p.pool.cor 0).stackPtr, decide (∀ m ∈ p.pool.memoryPool, m.Aligned))) =
        some (true, 196608, true) := by decide
  obtain ⟨p', hp', hfirst⟩ := Option.map_eq_some_iff.mp hfirst
  simp only [Prod.mk.injEq, decide_eq_true_eq] at hfirst
  obtain ⟨hout, hptr, haligned⟩ := hfirst
  have hstart : SwitchStart mainThread := rfl
  obtain ⟨s₂, hs₂, m, -, t, -, -, hload⟩ := first_resume_behind_block (by decide) (by decide) (by decide)
    ((Reachable.start hnew).of_run hp') hout haligned (L := oneCoroutine) (c := ()) (by rw [hptr]; rfl) rfl
    oneCoroutine_wellPlaced (.start hstart) rfl
    (by decide : RunOk oneCoroutine.next oneCoroutine.Keeps mainThread
      (.setCallBack (some ()) :: [] ++ [.resume (some ()) 0x400100])) (List.forall_mem_nil _) rfl rfl
  exact ⟨s₂, hs₂, _, hload⟩

end Tirpc
