import Mathlib.Algebra.Group.Nat.Defs
import Mathlib.Data.Nat.Find
import Tirpc.Common.Md5

/-!
# The rounds and the padding of the MD5 class
-/

namespace Tirpc

open Lib Md5

namespace MD5

variable {input data : Bytes} {v : Registers} {i : Nat}

/-! ## The rounds -/

theorem T_eq : T = sines := rfl

/-- The two tables of the class say for each step what the rounds say. -/
theorem tables (hi : i < 64) : S.getD i 0 = UInt32.ofNat (shift i) ∧ X.getD i 0 = index i := by
  have hall : ∀ i < 64, S.getD i 0 = UInt32.ofNat (shift i) ∧ X.getD i 0 = index i := by decide
  exact hall i hi

theorem shift_bounds (hi : i < 64) : 0 < shift i ∧ shift i < 32 := by
  have hall : ∀ i < 64, 0 < shift i ∧ shift i < 32 := by decide
  exact hall i hi

theorem index_lt (hi : i < 64) : index i < 16 := by
  have hall : ∀ i < 64, index i < 16 := by decide
  exact hall i hi

theorem rotate_eq (w : UInt32) {s : Nat} (h0 : 0 < s) (h : s < 32) :
    (w <<< UInt32.ofNat s) ||| (w >>> (32 - UInt32.ofNat s)) = rotateLeft w s := by
  have hs : (UInt32.ofNat s).toNat = s := by
    rw [UInt32.toNat_ofNat']
    omega
  have hr : (32 - UInt32.ofNat s).toNat = 32 - s := by
    rw [UInt32.toNat_sub_of_le, hs]
    · rfl
    · rw [UInt32.le_iff_toNat_le, hs]
      exact Nat.le_of_lt h
  have hleft : (UInt32.ofNat s).toBitVec.toNat % 32 = s := by rw [UInt32.toNat_toBitVec, hs, Nat.mod_eq_of_lt h]
  have hright : (32 - UInt32.ofNat s).toBitVec.toNat % 32 = 32 - s := by
    rw [UInt32.toNat_toBitVec, hr, Nat.mod_eq_of_lt (by omega)]
  apply UInt32.toBitVec_inj.mp
  rw [rotateLeft, UInt32.toBitVec_or, UInt32.toBitVec_shiftLeft, UInt32.toBitVec_shiftRight, BitVec.rotateLeft_def,
    Nat.mod_eq_of_lt h, BitVec.shiftLeft_eq', BitVec.ushiftRight_eq', BitVec.toNat_umod, BitVec.toNat_umod]
  change w.toBitVec <<< ((UInt32.ofNat s).toBitVec.toNat % 32) |||
    w.toBitVec >>> ((32 - UInt32.ofNat s).toBitVec.toNat % 32) = _
  rw [hleft, hright]

theorem operation_eq {a b c d x : UInt32} (hi : i < 64) :
    operation (mix i) a b c d x i = b + rotateLeft (a + mix i b c d + x + sine i) (shift i) := by
  obtain ⟨hS, -⟩ := tables hi
  obtain ⟨h0, h32⟩ := shift_bounds hi
  rw [operation, hS, T_eq, ← sine, rotate_eq _ h0 h32, UInt32.add_comm (mix i b c d) a]

/-- The function of a round is the one that its step belongs to. -/
theorem mix_eq (i : Nat) : mix i =
    match i / 16 with
    | 0 => F
    | 1 => G
    | 2 => H
    | _ => I := by
  funext x y z
  rw [mix]
  generalize i / 16 = r
  rcases r with _ | _ | _ | r <;> rfl

theorem wordAt_eq {i k : Nat} (hlen : 64 * i + 64 ≤ data.length) (hk : k < 16) :
    wordAt (data.drop (64 * i)) k = some (word data (16 * i + k)) := by
  rw [wordAt, readRange_some (by omega) (by omega) (by rw [List.length_drop]; omega), Option.map_some, word,
    List.drop_drop]
  congr 5
  omega

variable {op : UInt32 → UInt32 → UInt32 → UInt32 → UInt32 → Nat → UInt32} {x : Nat → UInt32}

/-- One turn makes four steps, without renaming the registers. -/
theorem roundTurn_eq (hx : ∀ k < 16, wordAt input k = some (x k)) (hi : i + 3 < 64)
    (hop : ∀ j < 4, op = operation (mix (i + j))) :
    roundTurn op input v i = some ((List.range' i 4).foldl (step x) v) := by
  have hread : ∀ j < 64, wordAt input (X.getD j 0) = some (x (index j)) := by
    intro j hj
    rw [(tables hj).2]
    exact hx _ (index_lt hj)
  have hstep : ∀ j < 4, ∀ a b c d w, op a b c d w (i + j) =
      b + rotateLeft (a + mix (i + j) b c d + w + sine (i + j)) (shift (i + j)) := by
    intro j hj a b c d w
    rw [hop j hj]
    exact operation_eq (by omega)
  have h0 := hstep 0 (by decide)
  have h1 := hstep 1 (by decide)
  have h2 := hstep 2 (by decide)
  have h3 := hstep 3 (by decide)
  rw [roundTurn, hread i (by omega), hread (i + 1) (by omega), hread (i + 2) (by omega), hread (i + 3) (by omega)]
  simp only [Nat.add_zero] at h0
  simp only [Option.bind_some, Option.map_some, h0, h1, h2, h3]
  rfl

/-- A loop whose turns each make four steps makes all of them. -/
theorem foldlM_range'_four {f : Registers → Nat → Option Registers} {g : Registers → Nat → Registers} {n s : Nat}
    (h : ∀ j < n, ∀ v, f v (s + 4 * j) = some ((List.range' (s + 4 * j) 4).foldl g v)) (v : Registers) :
    (List.range' s n 4).foldlM f v = some ((List.range' s (4 * n)).foldl g v) := by
  induction n generalizing s v with
  | zero => rfl
  | succ n ih =>
      have hfirst := h 0 (Nat.succ_pos n) v
      have hrest := ih (s := s + 4) (fun j hj v => by
        have hnext := h (j + 1) (Nat.succ_lt_succ hj) v
        rwa [Nat.mul_add, Nat.mul_one, Nat.add_comm (4 * j), ← Nat.add_assoc] at hnext)
        ((List.range' s 4).foldl g v)
      rw [Nat.mul_zero, Nat.add_zero] at hfirst
      rw [List.range'_succ, List.foldlM_cons, hfirst, Option.bind_eq_bind, Option.bind_some, hrest, Nat.mul_add,
        Nat.mul_one, Nat.add_comm (4 * n), ← List.range'_append_1, List.foldl_append]

theorem round_eq {s : Nat} (hx : ∀ k < 16, wordAt input k = some (x k)) (hs : s + 16 ≤ 64)
    (hop : ∀ i, s ≤ i → i < s + 16 → op = operation (mix i)) (v : Registers) :
    (List.range' s 4 4).foldlM (roundTurn op input) v = some ((List.range' s 16).foldl (step x) v) := by
  refine foldlM_range'_four (n := 4) (fun j hj v => ?_) v
  exact roundTurn_eq hx (by omega) fun k hk => hop _ (by omega) (by omega)

theorem calculateBlock_eq (hx : ∀ k < 16, wordAt input k = some (x k)) :
    calculateBlock v input = some (compress v x) := by
  have h1 : ∀ i, 0 ≤ i → i < 16 → FF = operation (mix i) := fun i _ h => by
    rw [mix_eq, show i / 16 = 0 by omega]
    rfl
  have h2 : ∀ i, 16 ≤ i → i < 32 → GG = operation (mix i) := fun i _ h => by
    rw [mix_eq, show i / 16 = 1 by omega]
    rfl
  have h3 : ∀ i, 32 ≤ i → i < 48 → HH = operation (mix i) := fun i _ h => by
    rw [mix_eq, show i / 16 = 2 by omega]
    rfl
  have h4 : ∀ i, 48 ≤ i → i < 64 → II = operation (mix i) := fun i _ h => by
    rw [mix_eq, show i / 16 = 3 by omega]
    rfl
  rw [calculateBlock, round_eq hx (by omega) h1, Option.bind_some, round_eq hx (by omega) h2, Option.bind_some,
    round_eq hx (by omega) h3, Option.bind_some, round_eq hx (by omega) h4, Option.map_some, ← List.foldl_append,
    ← List.foldl_append, ← List.foldl_append]
  rfl

/-! ## The loop over the blocks -/

theorem computeTurn_end : computeTurn data (data.length, v) = .exit (some v) := by
  rw [computeTurn, if_neg (not_not_intro rfl)]

theorem computeTurn_block (hi : 64 * i + 64 ≤ data.length) :
    computeTurn data (64 * i, v) = .again (64 * (i + 1), compress v fun j => word data (16 * i + j)) := by
  have hblock := calculateBlock_eq (v := v) fun k hk => wordAt_eq hi hk
  rw [computeTurn, if_pos (by dsimp only; omega)]
  dsimp only
  rw [hblock]
  rfl

/-- After `i` blocks, of which `m` are left. -/
theorem computeLoop_eq {n m : Nat} (hn : data.length = 64 * n) (hm : i + m = n) :
    runLoop (computeTurn data) (m + 1)
      (64 * i, (List.range i).foldl (fun v i => compress v fun j => word data (16 * i + j)) v) =
        some (some (compressAll v data)) := by
  induction m generalizing i with
  | zero =>
      have hi : i = n := by omega
      rw [runLoop, hi, ← hn, computeTurn_end, compressAll, hn, Nat.mul_div_cancel_left n (by decide)]
  | succ m ih =>
      rw [runLoop, computeTurn_block (by omega)]
      dsimp only
      rw [← ih (i := i + 1) (by omega), List.range_succ, List.foldl_append]
      rfl

theorem computeLoop_ends (hlen : data.length % 64 = 0) :
    runLoop (computeTurn data) (data.length + 1) (0, v) = some (some (compressAll v data)) := by
  have hn : data.length = 64 * (data.length / 64) := by omega
  have hloop := computeLoop_eq (v := v) (i := 0) hn (Nat.zero_add _)
  exact runLoop_mono hloop (by omega)

theorem compute_eq (hlen : data.length % 64 = 0) : compute v data = some (compressAll v data) := by
  rw [compute, computeLoop_ends hlen]
  rfl

/-! ## The padding -/

/-- The loop ends where the number of bits, as an `int`, is eight bytes short of whole blocks. -/
def Filled (n : Int) : Prop := (wrap32 n).tmod 512 = 448

instance (n : Int) : Decidable (Filled n) := inferInstanceAs (Decidable (_ = _))

theorem filled_iff {n : Int} : Filled n ↔ n % 512 = 448 ∧ 0 ≤ wrap32 n := by
  have hmod : wrap32 n % 512 = n % 512 := by
    simp only [wrap32]
    omega
  rw [Filled, ← hmod]
  by_cases h0 : 0 ≤ wrap32 n
  · rw [Int.tmod_eq_emod_of_nonneg h0]
    exact (and_iff_left h0).symm
  · have hneg : (wrap32 n).tmod 512 = -(-wrap32 n % 512) := by
      rw [← Int.tmod_eq_emod_of_nonneg (by omega), Int.neg_tmod, Int.neg_neg]
    rw [hneg]
    omega

theorem wrap32_add (n m : Int) : wrap32 (wrap32 n + m) = wrap32 (n + m) := by
  simp only [wrap32]
  omega

theorem zeroTurn_exit {n : Int} (h : Filled n) : zeroTurn (wrap32 n, data) = .exit data :=
  if_neg fun hne => hne h

theorem zeroTurn_again {n : Int} (h : ¬Filled n) :
    zeroTurn (wrap32 n, data) = .again (wrap32 (n + 8), data ++ [0]) := by
  rw [← wrap32_add]
  exact if_pos h

theorem zeroLoop_eq {k : Nat} {n : Int} (data : Bytes) (hbefore : ∀ j < k, ¬Filled (n + 8 * j))
    (hend : Filled (n + 8 * k)) : runLoop zeroTurn (k + 1) (wrap32 n, data) = some (data ++ List.replicate k 0) := by
  induction k generalizing n data with
  | zero =>
      rw [Int.natCast_zero, Int.mul_zero, Int.add_zero] at hend
      rw [runLoop, zeroTurn_exit hend, List.replicate_zero, List.append_nil]
  | succ k ih =>
      have hshift : ∀ j : Nat, n + 8 * (j + 1 : Nat) = n + 8 + 8 * j := fun j => by omega
      have hfirst := hbefore 0 (Nat.succ_pos k)
      rw [Int.natCast_zero, Int.mul_zero, Int.add_zero] at hfirst
      rw [runLoop, zeroTurn_again hfirst]
      dsimp only
      rw [ih _ (fun j hj => hshift j ▸ hbefore (j + 1) (Nat.succ_lt_succ hj)) (hshift k ▸ hend), List.append_assoc,
        List.singleton_append, List.replicate_succ]

/-- From every number of whole bytes the loop comes to its end. -/
theorem exists_zeros {n : Int} (hn : n % 8 = 0) :
    ∃ k : Nat, k < 536870912 ∧ (∀ j < k, ¬Filled (n + 8 * j)) ∧ Filled (n + 8 * k) := by
  obtain ⟨k, hk, hfilled⟩ : ∃ k : Nat, k < 536870912 ∧ Filled (n + 8 * k) := by
    refine ⟨((448 - n) % 4294967296 / 8).toNat, by omega, filled_iff.mpr ?_⟩
    simp only [wrap32]
    omega
  have hex : ∃ k : Nat, Filled (n + 8 * k) := ⟨k, hfilled⟩
  exact ⟨Nat.find hex, Nat.lt_of_le_of_lt (Nat.find_min' hex hfilled) hk, fun j hj => Nat.find_min hex hj,
    Nat.find_spec hex⟩

/-- What is put behind the data before its length. -/
def IsFill (n : Nat) (fill : Bytes) : Prop :=
  fill = [] ∧ Filled (8 * n) ∨ ∃ k : Nat, fill = 0x80 :: List.replicate k 0 ∧ ¬Filled (8 * n) ∧
    (∀ j < k, ¬Filled (8 * n + 8 + 8 * j)) ∧ Filled (8 * n + 8 + 8 * k)

theorem IsFill.length {n : Nat} {fill : Bytes} (h : IsFill n fill) : (n + fill.length) % 64 = 56 := by
  rcases h with ⟨rfl, hfull⟩ | ⟨k, rfl, -, -, hend⟩
  · have hmod := (filled_iff.mp hfull).1
    rw [List.length_nil]
    omega
  · have hmod := (filled_iff.mp hend).1
    rw [List.length_cons, List.length_replicate]
    omega

theorem padding_eq (data : Bytes) : ∃ fill, IsFill data.length fill ∧ padding data =
    some (data ++ (fill ++ leBytes 8 (wrap32 (8 * data.length) % 18446744073709551616).toNat)) := by
  by_cases hfull : (wrap32 (8 * data.length)).tmod 512 = 448
  · refine ⟨[], .inl ⟨rfl, hfull⟩, ?_⟩
    rw [padding, if_neg (not_not_intro hfull)]
    rfl
  · obtain ⟨k, hk, hbefore, hend⟩ := exists_zeros (n := 8 * data.length + 8) (by omega)
    refine ⟨0x80 :: List.replicate k 0, .inr ⟨k, rfl, hfull, hbefore, hend⟩, ?_⟩
    have hloop := runLoop_mono (zeroLoop_eq (data ++ [0x80]) hbefore hend) hk
    rw [padding, if_pos hfull, wrap32_add, hloop, Option.map_some, List.append_assoc, List.append_assoc]
    rfl

/-- The lengths whose padding is right: there is room left for the byte `0x80`, and no number of bits that the loop
goes through overflows. -/
def PadsRight (n : Nat) : Prop := n % 64 ≠ 56 ∧ n < 268435449

theorem IsFill.eq_iff {n : Nat} {fill : Bytes} (h : IsFill n fill) (hn : n < 268435456) :
    fill = 0x80 :: List.replicate (zeros n) 0 ↔ PadsRight n := by
  have hbits : Filled (8 * n) ↔ n % 64 = 56 := by
    rw [filled_iff, wrap32_eq ⟨by omega, by omega⟩]
    omega
  rcases h with ⟨rfl, hfull⟩ | ⟨k, rfl, hfull, hbefore, hend⟩
  · exact iff_of_false (List.cons_ne_nil _ _).symm fun hpads => hpads.1 (hbits.mp hfull)
  · rw [hbits] at hfull
    have hfit : Filled (8 * n + 8 + 8 * zeros n) ↔ n < 268435449 := by
      simp only [filled_iff, wrap32, zeros]
      omega
    constructor
    · intro he
      have hk : k = zeros n := by simpa using congrArg List.length he
      exact ⟨hfull, hfit.mp (hk ▸ hend)⟩
    · rintro ⟨-, hlt⟩
      have hge : zeros n ≤ k := by
        have hmod := (filled_iff.mp hend).1
        simp only [zeros]
        omega
      have hk : k = zeros n := by
        by_contra hne
        exact hbefore (zeros n) (by omega) (hfit.mpr hlt)
      rw [hk]

theorem padding_eq_padded_iff (hlen : data.length < 268435456) :
    padding data = some (padded data) ↔ PadsRight data.length := by
  obtain ⟨fill, hfill, hpad⟩ := padding_eq data
  have hbits : (wrap32 (8 * data.length) % 18446744073709551616).toNat = 8 * data.length := by
    rw [wrap32_eq ⟨by omega, by omega⟩]
    omega
  rw [← hfill.eq_iff hlen, hpad, hbits, padded, Option.some.injEq, ← List.cons_append, List.append_cancel_left_eq]
  exact List.append_left_inj _

/-! ## The two renderings of a word -/

theorem or_bytes {b0 b1 b2 b3 : Nat} (h1 : b1 < 256) (h2 : b2 < 256) (h3 : b3 < 256) :
    b0 <<< 24 ||| b1 <<< 16 ||| b2 <<< 8 ||| b3 = ((b0 * 256 + b1) * 256 + b2) * 256 + b3 := by
  rw [Nat.or_assoc, Nat.or_assoc, ← Nat.shiftLeft_add_eq_or_of_lt (b := b3) h3,
    ← Nat.shiftLeft_add_eq_or_of_lt (i := 16) (by rw [Nat.shiftLeft_eq]; omega),
    ← Nat.shiftLeft_add_eq_or_of_lt (i := 24) (by rw [Nat.shiftLeft_eq, Nat.shiftLeft_eq]; omega)]
  simp only [Nat.shiftLeft_eq]
  omega

theorem and_second_byte (n : Nat) : n &&& 0xFF00 = (n / 256 % 256) <<< 8 := by
  have hmask : (0xFF00 : Nat) = 255 <<< 8 := rfl
  rw [show n / 256 = n >>> 8 from (Nat.shiftRight_eq_div_pow n 8).symm, ← Nat.and_two_pow_sub_one_eq_mod _ 8, hmask]
  refine Nat.eq_of_testBit_eq fun i => ?_
  simp only [Nat.testBit_and, Nat.testBit_shiftLeft, Nat.testBit_shiftRight]
  by_cases hi : 8 ≤ i
  · simp [hi]
  · simp [hi]

theorem htonl_toNat (w : UInt32) : (htonl w).toNat = beNat (leBytes 4 w.toNat) := by
  have hw := w.toNat_lt
  have hb0 : (w.toNat &&& 0xFF) <<< 24 % 2 ^ 32 = (w.toNat % 256) <<< 24 := by
    rw [Nat.and_two_pow_sub_one_eq_mod _ 8, Nat.shiftLeft_eq]
    omega
  have hb1 : (w.toNat &&& 0xFF00) <<< 8 % 2 ^ 32 = (w.toNat / 256 % 256) <<< 16 := by
    rw [and_second_byte, Nat.shiftLeft_eq, Nat.shiftLeft_eq, Nat.shiftLeft_eq]
    omega
  have hb2 : w.toNat >>> 8 &&& 0xFF00 = (w.toNat / 65536 % 256) <<< 8 := by
    rw [and_second_byte, Nat.shiftRight_eq_div_pow, Nat.div_div_eq_div_mul]
  have hb3 : w.toNat >>> 24 = w.toNat / 16777216 := Nat.shiftRight_eq_div_pow _ 24
  have hor : (htonl w).toNat = (w.toNat &&& 0xFF) <<< 24 % 2 ^ 32 ||| (w.toNat &&& 0xFF00) <<< 8 % 2 ^ 32 |||
      (w.toNat >>> 8 &&& 0xFF00) ||| w.toNat >>> 24 := by
    simp only [htonl, UInt32.toNat_or, UInt32.toNat_shiftLeft, UInt32.toNat_shiftRight, UInt32.toNat_and]
    rfl
  rw [hor, hb0, hb1, hb2, hb3, or_bytes (by omega) (by omega) (by omega)]
  simp only [beNat, leBytes, List.foldl_cons, List.foldl_nil, UInt8.toNat_ofNat', Nat.div_div_eq_div_mul,
    Nat.reduceMul]
  omega

theorem hex8_htonl (w : UInt32) : hex8 (htonl w) = hex (leBytes 4 w.toNat) := by
  rw [hex8, htonl_toNat, ← hexDigits_beNat, leBytes_length]

theorem genResultString_eq (v : Registers) :
    genResultString v = hex (v.words.flatMap fun w => leBytes 4 w.toNat) := by
  rw [hex, List.flatMap_assoc, genResultString]
  exact List.flatMap_congr fun w _ => hex8_htonl w

theorem shiftRight_toNat (w : UInt32) : (w >>> 8).toNat = w.toNat / 256 := by
  rw [UInt32.toNat_shiftRight]
  exact Nat.shiftRight_eq_div_pow _ 8

theorem low_byte (w : UInt32) : (w &&& 0xFF).toUInt8 = UInt8.ofNat w.toNat := by
  apply UInt8.toNat_inj.mp
  rw [UInt32.toNat_toUInt8, UInt32.toNat_and, UInt8.toNat_ofNat',
    show w.toNat &&& (0xFF : UInt32).toNat = w.toNat % 2 ^ 8 from Nat.and_two_pow_sub_one_eq_mod _ 8, Nat.mod_mod]

theorem pushBytes_zero (n : Nat) : pushBytes n 0 = [] := by
  cases n with
  | zero => rfl
  | succ n => rw [pushBytes, if_neg (not_not_intro rfl)]

theorem pushBytes_succ {n : Nat} {w : UInt32} (hw : w.toNat ≠ 0) :
    pushBytes (n + 1) w = UInt8.ofNat w.toNat :: pushBytes n (w >>> 8) := by
  rw [pushBytes, if_pos fun h => hw (by rw [h]; rfl), low_byte]

theorem pow_le_shiftRight {n : Nat} {w : UInt32} : 256 ^ n ≤ (w >>> 8).toNat ↔ 256 ^ (n + 1) ≤ w.toNat := by
  rw [shiftRight_toNat, Nat.le_div_iff_mul_le (by decide), Nat.pow_succ]

/-- A word that has its highest byte is pushed whole. -/
theorem pushBytes_eq {n : Nat} {w : UInt32} (h : 256 ^ n ≤ w.toNat) :
    pushBytes (n + 1) w = leBytes (n + 1) w.toNat := by
  induction n generalizing w with
  | zero =>
      rw [pushBytes_succ (Nat.ne_of_gt h)]
      rfl
  | succ n ih =>
      have hpos : 0 < 256 ^ (n + 1) := Nat.pow_pos (by decide)
      rw [pushBytes_succ (Nat.ne_of_gt (Nat.lt_of_lt_of_le hpos h)), ih (pow_le_shiftRight.mpr h), shiftRight_toNat]
      rfl

/-- The loop ends: a word has no more bytes than it has. -/
theorem pushBytes_ends {n : Nat} {w : UInt32} (h : w.toNat < 256 ^ n) (k : Nat) :
    pushBytes (n + k) w = pushBytes n w := by
  by_cases hne : w.toNat = 0
  · rw [UInt32.toNat_inj.mp (show w.toNat = (0 : UInt32).toNat from hne), pushBytes_zero, pushBytes_zero]
  · cases n with
    | zero => exact absurd (Nat.lt_one_iff.mp h) hne
    | succ n =>
        have hlt : (w >>> 8).toNat < 256 ^ n := by
          rw [shiftRight_toNat, Nat.div_lt_iff_lt_mul (by decide), ← Nat.pow_succ]
          exact h
        rw [Nat.succ_add, pushBytes_succ hne, pushBytes_succ hne, pushBytes_ends hlt k]

theorem pushBytes_length_le (n : Nat) (w : UInt32) : (pushBytes n w).length ≤ n := by
  induction n generalizing w with
  | zero => exact Nat.le_refl 0
  | succ n ih =>
      rw [pushBytes]
      split
      · rw [List.length_cons]
        exact Nat.succ_le_succ (ih _)
      · exact Nat.zero_le _

theorem le_of_pushBytes_length {n : Nat} {w : UInt32} (h : (pushBytes (n + 1) w).length = n + 1) :
    256 ^ n ≤ w.toNat := by
  have hne : w.toNat ≠ 0 := by
    intro h0
    rw [UInt32.toNat_inj.mp (show w.toNat = (0 : UInt32).toNat from h0), pushBytes_zero] at h
    cases h
  cases n with
  | zero => exact Nat.pos_of_ne_zero hne
  | succ n =>
      rw [pushBytes_succ hne, List.length_cons, Nat.succ_inj] at h
      exact pow_le_shiftRight.mp (le_of_pushBytes_length h)

end MD5

end Tirpc
