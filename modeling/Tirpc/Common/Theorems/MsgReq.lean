import Tirpc.Common.MsgReq
import Tirpc.Rpc.Controller

/-!
# Message numbers count up

From its seed on, a thread's message numbers count up in digits of one width, until they have reached the largest
number of that width.
-/

namespace Tirpc

open Lib

namespace MsgReqUtil

variable {s s' : MsgReqUtil} {nu seed : Bytes} {n i j k : Nat} {calls : List (Int × Option Bytes)} {tMsgReqLen : Int}
  {res : Option Bytes}

/-- The largest number of a width. -/
def nines (n : Nat) : Bytes := List.replicate n 57

/-- A run of `m` calls that follow the one with which `run` begins: as long as the largest number has not been
returned, each returns the next number, without a new seed; and no two numbers are the same. -/
structure CountsUp (n m : Nat) (run : List (Bool × Bytes)) : Prop where
  next : ∀ k < m, (∀ i ≤ k, run[i]?.map Prod.snd ≠ some (nines n)) → ∃ nu nu', run[k]?.map Prod.snd = some nu ∧
    run[k + 1]? = some (false, nu') ∧ IsNumeral n nu' ∧ numeral nu' = numeral nu + 1
  distinct : ∀ k ≤ m, (∀ i < k, run[i]?.map Prod.snd ≠ some (nines n)) →
    ∀ i < k, run[i]?.map Prod.snd ≠ run[k]?.map Prod.snd

/-! ## The increment -/

theorem lastNotNine_some (h : lastNotNine nu k = some i) (hk : k ≤ nu.length) :
    i < k ∧ nu[i]? ≠ some 57 ∧ nu.take k = nu.take (i + 1) ++ List.replicate (k - (i + 1)) 57 := by
  induction k with
  | zero => cases h
  | succ k ih =>
      simp only [lastNotNine] at h
      split at h
      · rename_i hnine
        obtain ⟨hi, hne, htake⟩ := ih h (by omega)
        have hwidth : k + 1 - (i + 1) = k - (i + 1) + 1 := by omega
        rw [hwidth, List.replicate_succ', ← List.append_assoc, ← htake, List.take_add_one, hnine]
        exact ⟨by omega, hne, rfl⟩
      · cases h
        exact ⟨by omega, ‹_›, by rw [Nat.sub_self, List.replicate_zero, List.append_nil]⟩

theorem lastNotNine_none (h : lastNotNine nu k = none) (hk : k ≤ nu.length) : nu.take k = nines k := by
  induction k with
  | zero => rfl
  | succ k ih =>
      simp only [lastNotNine] at h
      split at h
      · rename_i hnine
        rw [List.take_add_one, ih h (by omega), hnine, nines, nines, List.replicate_succ']
        rfl
      · cases h

theorem foldl_zeros (s : Bytes) (j m : Nat) (h : j + m ≤ s.length) :
    (List.range' j m).foldl (fun nu j => nu.set j 48) s = s.take j ++ List.replicate m 48 ++ s.drop (j + m) := by
  induction m generalizing s j with
  | zero => simp
  | succ m ih =>
      have hj : j < s.length := by omega
      rw [List.range'_succ, List.foldl_cons, ih _ _ (by rw [List.length_set]; omega), List.take_set, List.drop_set,
        if_pos (by omega), List.take_add_one, List.getElem?_eq_getElem hj, Option.toList_some, List.replicate_succ,
        List.set_append_right _ _ (by rw [List.length_take]; omega), List.length_take, Nat.min_eq_left (by omega),
        Nat.sub_self, List.set_cons_zero, Nat.add_right_comm, Nat.add_assoc]
      simp

/-- The digit in front of the trailing nines. -/
theorem increment_parts (hnu : nu ≠ nines nu.length) : ∃ before c m, c ≠ 57 ∧
    nu = before ++ c :: List.replicate m 57 ∧ increment nu = before ++ (c + 1) :: List.replicate m 48 := by
  cases hlast : lastNotNine nu nu.length with
  | none =>
      have htake := lastNotNine_none hlast (Nat.le_refl _)
      rw [List.take_length] at htake
      exact absurd htake hnu
  | some i =>
      obtain ⟨hi, hne, htake⟩ := lastNotNine_some hlast (Nat.le_refl _)
      rw [List.take_length, List.take_add_one, List.getElem?_eq_getElem hi, Option.toList_some, ← List.append_cons]
        at htake
      rw [List.getElem?_eq_getElem hi] at hne
      refine ⟨nu.take i, nu[i], nu.length - (i + 1), fun h => hne (congrArg some h), htake, ?_⟩
      have hmodify : (nu.modify i (· + 1)).take (i + 1) = nu.take i ++ [nu[i] + 1] := by
        rw [List.take_add_one, List.getElem?_modify_eq, List.getElem?_eq_getElem hi, List.take_modify,
          List.modify_eq_self (by rw [List.length_take]; omega)]
        rfl
      have hend : i + 1 + (nu.length - (i + 1)) = nu.length := by omega
      rw [increment, hlast]
      dsimp only
      rw [zeroFrom, List.length_modify, foldl_zeros _ _ _ (by rw [List.length_modify]; omega), hmodify, hend,
        List.drop_eq_nil_of_le (by rw [List.length_modify]), List.append_nil, List.append_assoc, List.singleton_append]

theorem increment_digits (h : ∀ c ∈ nu, isDigit c = true) : ∀ c ∈ increment nu, isDigit c = true := by
  by_cases hnu : nu = nines nu.length
  · -- nothing but nines is left as it is
    cases hlast : lastNotNine nu nu.length with
    | none => rwa [increment, hlast]
    | some i =>
        obtain ⟨hi, hne, -⟩ := lastNotNine_some hlast (Nat.le_refl _)
        rw [hnu, nines, List.getElem?_replicate, if_pos hi] at hne
        exact absurd rfl hne
  · obtain ⟨before, c, m, hc, hparts, hinc⟩ := increment_parts hnu
    rw [hparts] at h
    obtain ⟨h48, h57⟩ := isDigit_iff.mp (h c (by simp))
    have hlt : c.toNat ≠ 57 := fun he => hc (UInt8.toNat_inj.mp he)
    have hsucc : (c + 1).toNat = c.toNat + 1 := by
      rw [UInt8.toNat_add, UInt8.toNat_one]
      omega
    rw [hinc]
    intro d hd
    rcases List.mem_append.mp hd with hd | hd
    · exact h d (List.mem_append_left _ hd)
    · rcases List.mem_cons.mp hd with rfl | hd
      · exact isDigit_iff.mpr ⟨by omega, by omega⟩
      · rw [List.eq_of_mem_replicate hd]
        rfl

/-- As a number, what follows is one more. -/
theorem increment_numeral (h : IsNumeral n nu) (hne : nu ≠ nines n) :
    IsNumeral n (increment nu) ∧ numeral (increment nu) = numeral nu + 1 := by
  have hdigits := increment_digits h.digits
  obtain ⟨before, c, m, hc, hnu, hinc⟩ := increment_parts (by rw [h.length]; exact hne)
  have hlen : (increment nu).length = nu.length := by rw [hinc, hnu]; simp
  obtain ⟨h48, h57⟩ := isDigit_iff.mp (h.digits c (by simp [hnu]))
  have hlt : c.toNat < 57 := Nat.lt_of_le_of_ne h57 fun he => hc (UInt8.toNat_inj.mp he)
  refine ⟨⟨hlen.trans h.length, hdigits⟩, ?_⟩
  rw [hinc, hnu]
  exact numeral_carry hlt h48

/-! ## Calls in a row -/

theorem seed_digits (res : Bytes) : ∀ c ∈ res.map fun c => c % 10 + 48, isDigit c = true := by
  intro d hd
  obtain ⟨c, -, rfl⟩ := List.mem_map.mp hd
  have h10 : (10 : UInt8).toNat = 10 := rfl
  have h48 : (48 : UInt8).toNat = 48 := rfl
  refine isDigit_iff.mpr ?_
  rw [UInt8.toNat_add, UInt8.toNat_mod, h10, h48]
  omega

/-- What a call that draws a seed does. -/
theorem genMsgNumber_draw (hdraw : s.DrawsSeed) (h : s.genMsgNumber tMsgReqLen res = some (nu, s')) :
    nu = [] ∧ s' = s ∨ (∀ c ∈ nu, isDigit c = true) ∧ s' = ⟨nu, nines nu.length⟩ := by
  simp only [genMsgNumber] at h
  rw [if_pos hdraw] at h
  split at h
  · cases h
  · rename_i hlen
    split at h
    · cases h
      exact .inl ⟨rfl, rfl⟩
    · rename_i res' hres
      obtain ⟨-, hsize⟩ := Option.filter_eq_some_iff.mp hres
      have hwidth : tMsgReqLen.toNat = res'.length := by
        have hsize := of_decide_eq_true hsize
        omega
      cases h
      exact .inr ⟨seed_digits res', by rw [hwidth, List.length_map, nines]⟩

theorem genMsgNumber_next (h : IsNumeral n nu) (hn : 1 ≤ n) (hne : nu ≠ nines n) (tMsgReqLen : Int)
    (res : Option Bytes) : ¬DrawsSeed ⟨nu, nines n⟩ ∧
      genMsgNumber ⟨nu, nines n⟩ tMsgReqLen res = some (increment nu, ⟨increment nu, nines n⟩) := by
  have hno : ¬DrawsSeed ⟨nu, nines n⟩ := by
    rintro (hnil | hmax)
    · have hlen := h.length
      rw [show nu = [] from hnil, List.length_nil] at hlen
      omega
    · exact hne hmax
  exact ⟨hno, by rw [genMsgNumber, if_neg hno]⟩

/-- Until the largest number comes, the `k`-th number is the seed plus `k`. -/
theorem genMsgNumbers_count (h : IsNumeral n nu) (hn : 1 ≤ n) (hk : k < calls.length) (hne : nu ≠ nines n)
    (hmax : ∀ i < k, ((genMsgNumbers ⟨nu, nines n⟩ calls)[i]?).map Prod.snd ≠ some (nines n)) :
    ∃ nu', (genMsgNumbers ⟨nu, nines n⟩ calls)[k]? = some (false, nu') ∧ IsNumeral n nu' ∧
      numeral nu' = numeral nu + (k + 1) := by
  induction k generalizing nu calls with
  | zero =>
      obtain ⟨⟨tMsgReqLen, res⟩, calls, rfl⟩ := List.exists_cons_of_length_pos hk
      obtain ⟨hno, hgen⟩ := genMsgNumber_next h hn hne tMsgReqLen res
      obtain ⟨hnum, hval⟩ := increment_numeral h hne
      refine ⟨increment nu, ?_, hnum, hval⟩
      simp only [genMsgNumbers, hgen, List.getElem?_cons_zero, decide_eq_false hno]
  | succ k ih =>
      obtain ⟨⟨tMsgReqLen, res⟩, calls, rfl⟩ := List.exists_cons_of_length_pos (Nat.zero_lt_of_lt hk)
      obtain ⟨hno, hgen⟩ := genMsgNumber_next h hn hne tMsgReqLen res
      obtain ⟨hnum, hval⟩ := increment_numeral h hne
      have hrun : genMsgNumbers ⟨nu, nines n⟩ ((tMsgReqLen, res) :: calls) =
          (false, increment nu) :: genMsgNumbers ⟨increment nu, nines n⟩ calls := by
        simp only [genMsgNumbers, hgen, decide_eq_false hno]
      rw [hrun] at hmax ⊢
      have hne' : increment nu ≠ nines n := fun he => hmax 0 (Nat.succ_pos k) (congrArg some he)
      obtain ⟨nu', hnu', hnum', hval'⟩ := ih hnum (Nat.lt_of_succ_lt_succ hk) hne' fun i hi =>
        hmax (i + 1) (Nat.succ_lt_succ hi)
      exact ⟨nu', hnu', hnum', by rw [hval', hval]; omega⟩

/-- After the call that draws a seed of `n` digits, the message numbers of a thread count up from it. -/
theorem msgNumbers_count_up (hn : 1 ≤ n) (hseed : IsNumeral n seed) (hdraw : s.DrawsSeed)
    (hgen : s.genMsgNumber tMsgReqLen res = some (seed, s')) (calls : List (Int × Option Bytes)) :
    CountsUp n calls.length ((true, seed) :: s'.genMsgNumbers calls) := by
  have hne : seed ≠ [] := List.ne_nil_of_length_pos (by rw [hseed.length]; omega)
  obtain rfl : s' = ⟨seed, nines n⟩ := by
    rcases genMsgNumber_draw hdraw hgen with ⟨hnil, -⟩ | ⟨-, hs'⟩
    · exact absurd hnil hne
    · rw [hs', hseed.length]
  -- the closed form: the `k`-th number of the run
  have hcount : ∀ k ≤ calls.length, (∀ i < k, (((true, seed) :: genMsgNumbers ⟨seed, nines n⟩ calls)[i]?).map Prod.snd ≠
      some (nines n)) → ∃ nu, ((true, seed) :: genMsgNumbers ⟨seed, nines n⟩ calls)[k]? = some (decide (k = 0), nu) ∧
        IsNumeral n nu ∧ numeral nu = numeral seed + k := by
    intro k hk hmax
    cases k with
    | zero => exact ⟨seed, rfl, hseed, rfl⟩
    | succ k =>
        exact genMsgNumbers_count hseed hn hk (fun he => hmax 0 (Nat.succ_pos k) (congrArg some he)) fun i hi =>
          hmax (i + 1) (Nat.succ_lt_succ hi)
  constructor
  · intro k hk hmax
    obtain ⟨nu, hnu, -, hval⟩ := hcount k (Nat.le_of_lt hk) fun i hi => hmax i (Nat.le_of_lt hi)
    obtain ⟨nu', hnu', hnum', hval'⟩ := hcount (k + 1) hk fun i hi => hmax i (Nat.le_of_lt_succ hi)
    exact ⟨nu, nu', by rw [hnu]; rfl, hnu', hnum', by omega⟩
  · intro k hk hmax i hi he
    obtain ⟨nu, hnu, -, hval⟩ := hcount i (by omega) fun j hj => hmax j (by omega)
    obtain ⟨nu', hnu', -, hval'⟩ := hcount k hk hmax
    rw [hnu, hnu', Option.map_some, Option.map_some, Option.some.injEq] at he
    dsimp only at he
    rw [he] at hval
    omega

/-- The seed of a fresh thread is 98. Its second call returns 99, and only then another seed is drawn. -/
theorem msgNumbers_count_up_98 :
    genMsgNumbers ⟨[57, 56], nines 2⟩ [(2, none), (2, some [0, 17]), (2, none)] =
      [(false, [57, 57]), (true, [48, 55]), (false, [48, 56])] ∧
    CountsUp 2 3 ((true, [57, 56]) ::
      genMsgNumbers ⟨[57, 56], nines 2⟩ [(2, none), (2, some [0, 17]), (2, none)]) := by
  have hgen : genMsgNumber {} 2 (some [9, 8]) = some ([57, 56], ⟨[57, 56], nines 2⟩) := rfl
  have hseed : IsNumeral 2 [57, 56] := by decide
  exact ⟨by decide, msgNumbers_count_up (Nat.le_succ 1) hseed (by decide) hgen
    [(2, none), (2, some [0, 17]), (2, none)]⟩

end MsgReqUtil

end Tirpc
