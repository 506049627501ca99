import Mathlib.Data.List.TakeWhile
import Tirpc.Common.Util
import Tirpc.Lib.Search

/-!
# Splitting a text that consists of lines
-/

namespace Tirpc

open Lib

variable {a b c : UInt8} {l str key value : Bytes} {ls : List Bytes} {m m' : StringMap}

theorem intercalate_append_sep (sep l : Bytes) (ls : List Bytes) :
    sep.intercalate (l :: ls) ++ sep = (l :: ls).flatMap (· ++ sep) := by
  induction ls generalizing l with
  | nil => simp
  | cons l' ls ih =>
      rw [List.intercalate_cons_cons, List.append_assoc, ih]
      simp

/-- What is joined ends with the last byte of its last line. -/
theorem intercalate_last (sep : Bytes) (hls : ∀ l ∈ ls, l ≠ [] ∧ b ∉ l) (hl : ls = [] → l ≠ [] ∧ b ∉ l) :
    ∃ x c, sep.intercalate (l :: ls) = x ++ [c] ∧ c ≠ b := by
  induction ls generalizing l with
  | nil =>
      obtain ⟨hne, hb⟩ := hl rfl
      refine ⟨l.dropLast, l.getLast hne, ?_, fun he => hb (he ▸ List.getLast_mem hne)⟩
      rw [List.intercalate_singleton, List.dropLast_append_getLast]
  | cons l' ls ih =>
      obtain ⟨x, c, he, hc⟩ := ih (fun l hl => hls l (List.mem_cons_of_mem l' hl)) fun _ => hls l' List.mem_cons_self
      exact ⟨l ++ sep ++ x, c, by rw [List.intercalate_cons_cons, he, ← List.append_assoc], hc⟩

theorem substr_rest (s t : Bytes) : substr (s ++ t) s.length ((s ++ t).length - s.length) = some t := by
  rw [substr, if_pos (by simp), List.drop_left, List.length_append, Nat.add_sub_cancel_left, List.take_length]

namespace StringUtil

/-! ## The length of the rest -/

/-- The `int` holds less than the length, and still the bytes that are skipped. -/
def CutsRest (length skip : Nat) : Prop := 4294967296 ≤ length ∧ (skip : Int) ≤ wrap32 length

instance (length skip : Nat) : Decidable (CutsRest length skip) := inferInstanceAs (Decidable (_ ∧ _))

theorem restLength_whole {n k : Nat} (hk : k ≤ n) (hn : n < 9223372036854775808) (h : ¬CutsRest n k) :
    n - k ≤ restLength n k := by
  simp only [CutsRest, wrap32] at h
  simp only [restLength, wrap32]
  omega

theorem restLength_cut {n k : Nat} (h : CutsRest n k) :
    (restLength n k : Int) = wrap32 n - k ∧ restLength n k < n - k ∧ restLength n k < 2147483648 := by
  simp only [CutsRest, wrap32] at h
  simp only [restLength, wrap32]
  omega

theorem pieces_length_cons (d p : Bytes) (ps : List Bytes) :
    ((p :: ps).flatMap (· ++ d)).length = p.length + d.length + (ps.flatMap (· ++ d)).length := by
  rw [List.flatMap_cons, List.length_append, List.length_append]

/-- Of pieces with the delimiter behind each, the rest is nowhere cut short, or only by pieces that are empty. Behind a
cut the text is short. -/
def KeepsRest (d : Bytes) : List Bytes → Prop
  | [] => True
  | p :: ps =>
      let length := ((p :: ps).flatMap (· ++ d)).length
      let skip := p.length + d.length
      if CutsRest length skip then
        ∃ j ≤ ps.length, (((ps.take j).flatMap (· ++ d)).length : Int) = wrap32 length - skip ∧ ∀ q ∈ ps.drop j, q = []
      else KeepsRest d ps

theorem keepsRest_of_short {d : Bytes} {ps : List Bytes} (h : (ps.flatMap (· ++ d)).length < 4294967296) :
    KeepsRest d ps := by
  induction ps with
  | nil => trivial
  | cons p ps ih =>
      rw [KeepsRest, if_neg fun hcut => absurd hcut.1 (by omega)]
      rw [pieces_length_cons] at h
      exact ih (by omega)

/-- Where no piece is empty, nothing may be cut. -/
theorem keepsRest_iff {d : Bytes} {ps : List Bytes} (hps : ∀ p ∈ ps, p ≠ []) :
    KeepsRest d ps ↔
      ∀ q qs, q :: qs <:+ ps → ¬CutsRest ((q :: qs).flatMap (· ++ d)).length (q.length + d.length) := by
  induction ps with
  | nil => exact ⟨fun _ q qs hs => absurd (List.suffix_nil.mp hs) (List.cons_ne_nil q qs), fun _ => trivial⟩
  | cons p ps ih =>
      have ih := ih fun q hq => hps q (List.mem_cons_of_mem p hq)
      rw [KeepsRest]
      by_cases hcut : CutsRest ((p :: ps).flatMap (· ++ d)).length (p.length + d.length)
      · rw [if_pos hcut]
        refine ⟨fun ⟨j, hj, hlen, hempty⟩ => ?_, fun h => absurd hcut (h p ps List.suffix_rfl)⟩
        have hnone : ps.drop j = [] := List.eq_nil_iff_forall_not_mem.mpr fun q hq =>
          hps q (List.mem_cons_of_mem p (List.mem_of_mem_drop hq)) (hempty q hq)
        have hall : ps.take j = ps := by rw [← List.take_append_drop j ps, hnone, List.append_nil, List.take_take,
          Nat.min_self]
        have hshort := restLength_cut hcut
        have htotal := pieces_length_cons d p ps
        rw [hall] at hlen
        omega
      · rw [if_neg hcut, ih]
        constructor
        · intro h q qs hs
          rcases List.suffix_cons_iff.mp hs with he | hs
          · cases he
            exact hcut
          · exact h q qs hs
        · exact fun h q qs hs => h q qs (hs.trans (List.suffix_cons p ps))

/-! ## The loop -/

/-- One turn, at a piece without a byte of the delimiter. -/
theorem splitLoop_piece {d p : Bytes} (hd : d ≠ []) (hp : ∀ c ∈ p, c ∉ d) (n : Nat) (rest : Bytes) :
    splitLoop d (n + 1) (p ++ d ++ rest) =
      (splitLoop d n (rest.take (restLength (p ++ d ++ rest).length (p.length + d.length)))).map fun res =>
        [p].filter (· ≠ []) ++ res := by
  obtain ⟨a, t, rfl⟩ := List.exists_cons_of_ne_nil hd
  have hfind : findFirstOf (a :: t) (p ++ a :: t ++ rest) = some p.length := by
    rw [List.append_assoc, List.cons_append]
    exact findFirstOf_skip hp List.mem_cons_self (t ++ rest)
  have hskip : (p ++ a :: t ++ rest).drop (p.length + (a :: t).length) = rest := by
    rw [← List.length_append, List.drop_left]
  have htake : (p ++ a :: t ++ rest).take p.length = p := by rw [List.append_assoc, List.take_left]
  rw [splitLoop, hfind]
  dsimp only
  rw [substr, if_pos (by simp only [List.length_append]; omega), hskip, Option.bind_some, htake]
  by_cases hnil : p = []
  · simp [hnil]
  · simp [hnil]

/-- Pieces of a text that is not too long, and what follows them. -/
theorem splitLoop_short {d u : Bytes} (hd : d ≠ []) {ps : List Bytes} (hps : ∀ p ∈ ps, ∀ c ∈ p, c ∉ d) (n : Nat)
    (hlen : (ps.flatMap (· ++ d) ++ u).length < 4294967296) :
    splitLoop d (n + ps.length) (ps.flatMap (· ++ d) ++ u) =
      (splitLoop d n u).map fun res => ps.filter (· ≠ []) ++ res := by
  induction ps with
  | nil => simp
  | cons p ps ih =>
      have htext : (p :: ps).flatMap (· ++ d) ++ u = p ++ d ++ (ps.flatMap (· ++ d) ++ u) := by simp
      have hshort : (ps.flatMap (· ++ d) ++ u).length < 4294967296 := by
        rw [htext, List.length_append] at hlen
        omega
      rw [htext] at hlen
      have hrest : (ps.flatMap (· ++ d) ++ u).length ≤
          restLength (p ++ d ++ (ps.flatMap (· ++ d) ++ u)).length (p.length + d.length) := by
        have htotal : (p ++ d ++ (ps.flatMap (· ++ d) ++ u)).length =
            p.length + d.length + (ps.flatMap (· ++ d) ++ u).length := by rw [List.length_append, List.length_append]
        have hwhole := restLength_whole (n := (p ++ d ++ (ps.flatMap (· ++ d) ++ u)).length)
          (k := p.length + d.length) (by omega) (by omega) fun hcut => absurd hcut.1 (by omega)
        omega
      rw [htext, List.length_cons, ← Nat.add_assoc, splitLoop_piece hd (hps p List.mem_cons_self),
        List.take_of_length_le hrest, ih (fun q hq => hps q (List.mem_cons_of_mem p hq)) hshort, Option.map_map]
      congr 1
      funext res
      rw [Function.comp_apply, ← List.append_assoc, ← List.filter_append, List.singleton_append]

/-- A text of pieces that is cut off somewhere: the pieces in front, and the beginning of the next. -/
theorem take_pieces (d : Bytes) {c : Nat} {ps : List Bytes} (hc : c < (ps.flatMap (· ++ d)).length) :
    ∃ qs r rs k, ps = qs ++ r :: rs ∧ (ps.flatMap (· ++ d)).take c = qs.flatMap (· ++ d) ++ (r ++ d).take k ∧
      k < r.length + d.length ∧ c = (qs.flatMap (· ++ d)).length + k := by
  induction ps generalizing c with
  | nil => exact absurd hc (Nat.not_lt_zero c)
  | cons p ps ih =>
      by_cases hfirst : c < p.length + d.length
      · refine ⟨[], p, ps, c, rfl, ?_, hfirst, (Nat.zero_add c).symm⟩
        rw [List.flatMap_cons, List.take_append_of_le_length (by rw [List.length_append]; exact Nat.le_of_lt hfirst)]
        rfl
      · obtain ⟨c, rfl⟩ := Nat.exists_eq_add_of_le (Nat.not_lt.mp hfirst)
        rw [List.flatMap_cons, List.length_append, List.length_append] at hc
        obtain ⟨qs, r, rs, k, hps, htake, hk, hck⟩ := ih (c := c) (by omega)
        refine ⟨p :: qs, r, rs, k, by rw [hps, List.cons_append], ?_, hk, ?_⟩
        · rw [List.flatMap_cons, List.flatMap_cons, ← List.length_append, List.take_length_add_append, htake,
            ← List.append_assoc]
        · rw [List.flatMap_cons, List.length_append, List.length_append, hck, ← Nat.add_assoc]

/-- Behind a cut the pieces in front come out. A cut in a delimiter throws. -/
theorem splitLoop_cut {d : Bytes} (hd : d ≠ []) {n c : Nat} {ps res : List Bytes} (hps : ∀ p ∈ ps, ∀ c ∈ p, c ∉ d)
    (hn : ps.length ≤ n) (hc : c < (ps.flatMap (· ++ d)).length) (hshort : c < 4294967296)
    (h : splitLoop d n ((ps.flatMap (· ++ d)).take c) = some res) :
    ∃ qs r rs, ps = qs ++ r :: rs ∧ res = qs.filter (· ≠ []) ∧ (r = [] → c = (qs.flatMap (· ++ d)).length) := by
  obtain ⟨qs, r, rs, k, rfl, htake, hk, hck⟩ := take_pieces d hc
  obtain ⟨m, rfl⟩ : ∃ m, n = m + 1 + qs.length := ⟨n - 1 - qs.length, by
    rw [List.length_append, List.length_cons] at hn
    omega⟩
  have hlen := congrArg List.length htake
  rw [List.length_take, Nat.min_eq_left (Nat.le_of_lt hc)] at hlen
  rw [htake, splitLoop_short hd (fun q hq => hps q (List.mem_append_left _ hq)) _
    (Nat.lt_of_le_of_lt (Nat.le_of_eq hlen.symm) hshort)] at h
  obtain ⟨res', hres', rfl⟩ := Option.map_eq_some_iff.mp h
  have hr : ∀ c ∈ r, c ∉ d := hps r (List.mem_append_right qs List.mem_cons_self)
  by_cases hin : k ≤ r.length
  · have hnone : findFirstOf d (r.take k) = none := by
      rw [findFirstOf, List.findIdx?_eq_none_iff]
      exact fun c hc => decide_eq_false (hr c (List.mem_of_mem_take hc))
    rw [List.take_append_of_le_length hin, splitLoop, hnone, Option.some.injEq] at hres'
    refine ⟨qs, r, rs, rfl, by rw [← hres', List.append_nil], ?_⟩
    rintro rfl
    rw [hck, Nat.le_zero.mp hin, Nat.add_zero]
  · obtain ⟨e, rfl⟩ := Nat.exists_eq_add_of_le' (Nat.not_le.mp hin)
    obtain ⟨a, t, rfl⟩ := List.exists_cons_of_ne_nil hd
    have hcut : (r ++ a :: t).take (e + r.length.succ) = r ++ a :: t.take e := by
      rw [show e + r.length.succ = r.length + (e + 1) by omega, List.take_length_add_append, List.take_succ_cons]
    have hfind := findFirstOf_skip hr (List.mem_cons_self (a := a)) (t.take e)
    have hbehind : ¬r.length + (a :: t).length ≤ (r ++ a :: t.take e).length := by
      simp only [List.length_append, List.length_cons, List.length_take] at hk ⊢
      omega
    rw [hcut, splitLoop, hfind] at hres'
    dsimp only at hres'
    rw [substr, if_neg hbehind] at hres'
    cases hres'

theorem splitLoop_pieces_cons {d p : Bytes} (hd : d ≠ []) {ps : List Bytes} (hps : ∀ q ∈ p :: ps, ∀ c ∈ q, c ∉ d)
    (n : Nat) (hsize : ((p :: ps).flatMap (· ++ d)).length < 9223372036854775808) :
    splitLoop d (n + 1) ((p :: ps).flatMap (· ++ d)) =
      (splitLoop d n (if CutsRest ((p :: ps).flatMap (· ++ d)).length (p.length + d.length) then
        (ps.flatMap (· ++ d)).take (restLength ((p :: ps).flatMap (· ++ d)).length (p.length + d.length))
      else ps.flatMap (· ++ d))).map fun res => [p].filter (· ≠ []) ++ res := by
  have htext : (p :: ps).flatMap (· ++ d) = p ++ d ++ ps.flatMap (· ++ d) := List.flatMap_cons
  rw [htext] at hsize ⊢
  rw [splitLoop_piece hd (hps p List.mem_cons_self)]
  split
  · rfl
  · rename_i hwhole
    have hskip : (p ++ d).length = p.length + d.length := List.length_append
    have hrest := restLength_whole (by rw [List.length_append, hskip]; omega) hsize hwhole
    rw [List.take_of_length_le]
    rw [List.length_append, hskip] at hrest ⊢
    omega

/-- What comes out of a text of pieces is what comes out of some of the first of them. -/
theorem splitLoop_front {d : Bytes} (hd : d ≠ []) {n : Nat} {ps res : List Bytes} (hps : ∀ p ∈ ps, ∀ c ∈ p, c ∉ d)
    (hn : ps.length ≤ n) (hsize : (ps.flatMap (· ++ d)).length < 9223372036854775808)
    (h : splitLoop d n (ps.flatMap (· ++ d)) = some res) : ∃ j, res = (ps.take j).filter (· ≠ []) := by
  induction ps generalizing n res with
  | nil =>
      cases n with
      | zero => exact ⟨0, (Option.some.inj h).symm⟩
      | succ n => exact ⟨0, (Option.some.inj h).symm⟩
  | cons p ps ih =>
      obtain ⟨n, rfl⟩ := Nat.exists_eq_add_of_le' (Nat.le_trans (Nat.succ_le_succ (Nat.zero_le _)) hn)
      have hn := Nat.le_of_succ_le_succ hn
      have hps' : ∀ q ∈ ps, ∀ c ∈ q, c ∉ d := fun q hq => hps q (List.mem_cons_of_mem p hq)
      have htotal := pieces_length_cons d p ps
      rw [splitLoop_pieces_cons hd hps n hsize] at h
      obtain ⟨res', hres', rfl⟩ := Option.map_eq_some_iff.mp h
      obtain ⟨j, hj⟩ : ∃ j, res' = (ps.take j).filter (· ≠ []) := by
        split at hres'
        · rename_i hcut
          obtain ⟨-, hlt, hshort⟩ := restLength_cut hcut
          obtain ⟨qs, r, rs, rfl, hfront, -⟩ := splitLoop_cut hd hps' hn (by omega) (by omega) hres'
          exact ⟨qs.length, by rw [List.take_left, hfront]⟩
        · exact ih hps' hn (by omega) hres'
      exact ⟨j + 1, by rw [hj, List.take_succ_cons, ← List.filter_append, List.singleton_append]⟩

/-- Pieces without a byte of the delimiter, each with the delimiter behind it: they all come out if and only if the rest
is kept. -/
theorem splitLoop_pieces_iff {d : Bytes} (hd : d ≠ []) {n : Nat} {ps : List Bytes} (hps : ∀ p ∈ ps, ∀ c ∈ p, c ∉ d)
    (hn : ps.length ≤ n) (hsize : (ps.flatMap (· ++ d)).length < 9223372036854775808) :
    splitLoop d n (ps.flatMap (· ++ d)) = some (ps.filter (· ≠ [])) ↔ KeepsRest d ps := by
  induction ps generalizing n with
  | nil =>
      refine ⟨fun _ => trivial, fun _ => ?_⟩
      cases n with
      | zero => rfl
      | succ n => rfl
  | cons p ps ih =>
      obtain ⟨n, rfl⟩ := Nat.exists_eq_add_of_le' (Nat.le_trans (Nat.succ_le_succ (Nat.zero_le _)) hn)
      have hn := Nat.le_of_succ_le_succ hn
      have hps' : ∀ q ∈ ps, ∀ c ∈ q, c ∉ d := fun q hq => hps q (List.mem_cons_of_mem p hq)
      have htotal := pieces_length_cons d p ps
      have hmap : ∀ o : Option (List Bytes), (o.map fun res => [p].filter (· ≠ []) ++ res) =
          some ((p :: ps).filter (· ≠ [])) ↔ o = some (ps.filter (· ≠ [])) := by
        intro o
        have hsplit : (p :: ps).filter (· ≠ []) = [p].filter (· ≠ []) ++ ps.filter (· ≠ []) := by
          rw [← List.filter_append, List.singleton_append]
        rw [hsplit, Option.map_eq_some_iff]
        exact ⟨fun ⟨res, ho, he⟩ => List.append_cancel_left he ▸ ho, fun ho => ⟨_, ho, rfl⟩⟩
      rw [splitLoop_pieces_cons hd hps n hsize, hmap, KeepsRest]
      split
      · rename_i hcut
        obtain ⟨hkept, hlt, hshort⟩ := restLength_cut hcut
        constructor
        · intro h
          obtain ⟨qs, r, rs, rfl, hfront, hnil⟩ := splitLoop_cut hd hps' hn (by omega) (by omega) h
          have hempty : ∀ q ∈ r :: rs, q = [] := by
            rw [List.filter_append] at hfront
            intro q hq
            have hnone := List.filter_eq_nil_iff.mp (List.append_right_eq_self.mp hfront) q hq
            simpa using hnone
          refine ⟨qs.length, by simp, ?_, by rw [List.drop_left]; exact hempty⟩
          rw [List.take_left, ← hnil (hempty r List.mem_cons_self)]
          exact hkept
        · rintro ⟨j, hj, hlen, hempty⟩
          have hparts := List.take_append_drop j ps
          have hend : (ps.drop j).filter (· ≠ []) = [] :=
            List.filter_eq_nil_iff.mpr fun q hq => by simp [hempty q hq]
          have hfront : (ps.take j).filter (· ≠ []) = ps.filter (· ≠ []) := by
            conv_rhs => rw [← hparts, List.filter_append, hend, List.append_nil]
          have hcount : (ps.take j).length ≤ n := Nat.le_trans (List.length_take_le' j ps) hn
          have htake : (ps.flatMap (· ++ d)).take
              (restLength ((p :: ps).flatMap (· ++ d)).length (p.length + d.length)) =
                (ps.take j).flatMap (· ++ d) ++ [] := by
            have hsplit : ps.flatMap (· ++ d) = (ps.take j).flatMap (· ++ d) ++ (ps.drop j).flatMap (· ++ d) := by
              rw [← List.flatMap_append, hparts]
            rw [List.append_nil, hsplit]
            exact List.take_left' (by omega)
          rw [htake, ← Nat.sub_add_cancel hcount,
            splitLoop_short hd (fun q hq => hps' q (List.mem_of_mem_take hq)) _ (by rw [List.append_nil]; omega),
            hfront]
          cases n - (ps.take j).length with
          | zero => simp [splitLoop]
          | succ m => simp [splitLoop, findFirstOf]
      · exact ih hps' hn (by omega)

/-- The loop cuts in front of every byte of the delimiter. -/
theorem splitLoop_clean {d : Bytes} {n : Nat} {tmp : Bytes} {res : List Bytes} (h : splitLoop d n tmp = some res) :
    ∀ p ∈ res, p ≠ [] ∧ ∀ c ∈ p, c ∉ d := by
  induction n generalizing tmp res with
  | zero =>
      cases h
      exact fun p hp => absurd hp List.not_mem_nil
  | succ n ih =>
      rw [splitLoop] at h
      split at h
      · cases h
        exact fun p hp => absurd hp List.not_mem_nil
      · rename_i i hi
        obtain ⟨rest, -, h⟩ := Option.bind_eq_some_iff.mp h
        obtain ⟨res', hres', rfl⟩ := Option.map_eq_some_iff.mp h
        have hrest := ih hres'
        have hclean : ∀ c ∈ tmp.take i, c ∉ d := by
          intro c hc hmem
          obtain ⟨k, hk, rfl⟩ := List.mem_iff_getElem.mp hc
          rw [List.length_take] at hk
          have hbefore := (List.findIdx?_eq_some_iff_getElem.mp hi).2.2 k (by omega)
          rw [List.getElem_take] at hmem
          simp [hmem] at hbefore
        intro p hp
        split at hp
        · exact hrest p hp
        · rcases List.mem_cons.mp hp with rfl | hp
          · exact ⟨‹_›, hclean⟩
          · exact hrest p hp

theorem pieces_length_le {d : Bytes} (hd : d ≠ []) (ps : List Bytes) : ps.length ≤ (ps.flatMap (· ++ d)).length := by
  have hpos := List.length_pos_of_ne_nil hd
  induction ps with
  | nil => exact Nat.le_refl _
  | cons p ps ih =>
      rw [pieces_length_cons, List.length_cons]
      omega

/-- Behind a last piece that is not empty, the text does not end with the delimiter. -/
theorem no_delimiter_behind {d last : Bytes} (front : Bytes) (hd : d ≠ []) (hlast : last ≠ [])
    (hclean : ∀ c ∈ last, c ∉ d) :
    (front ++ last).drop ((front ++ last).length - d.length) ≠ d := by
  intro he
  have hend := congrArg List.getLast? he
  have hlen := congrArg List.length he
  have hpos := List.length_pos_of_ne_nil hlast
  have hpos' := List.length_pos_of_ne_nil hd
  rw [List.length_drop] at hlen
  rw [List.getLast?_drop, if_neg (by omega), List.getLast?_append_of_ne_nil _ hlast,
    List.getLast?_eq_some_getLast hlast, List.getLast?_eq_some_getLast hd, Option.some.injEq] at hend
  exact hclean _ (List.getLast_mem hlast) (hend ▸ List.getLast_mem hd)

/-- No delimiter is added behind one that is there. -/
theorem splitStrToVector_terminated {d : Bytes} (hd : d ≠ []) (ps : List Bytes) :
    splitStrToVector (ps.flatMap (· ++ d)) d = splitLoop d (ps.flatMap (· ++ d)).length (ps.flatMap (· ++ d)) := by
  rcases List.eq_nil_or_concat ps with rfl | ⟨qs, q, rfl⟩
  · rfl
  · have htext : (qs.concat q).flatMap (· ++ d) = qs.flatMap (· ++ d) ++ q ++ d := by simp
    have hpos := List.length_pos_of_ne_nil hd
    have hends : (qs.flatMap (· ++ d) ++ q ++ d).drop ((qs.flatMap (· ++ d) ++ q ++ d).length - d.length) = d := by
      rw [List.length_append, Nat.add_sub_cancel, List.drop_left]
    rw [splitStrToVector, htext, if_neg (by simp [hd]), if_neg (by rw [List.length_append]; omega)]
    dsimp only
    rw [if_neg (not_not.mpr hends)]

/-- The pieces that have a delimiter behind them when `SplitStrToVector` has added one: it adds none behind an empty
piece. -/
def endedPieces (ps : List Bytes) : List Bytes := if ps.getLast? = some [] then ps.dropLast else ps

theorem endedPieces_filter (ps : List Bytes) : (endedPieces ps).filter (· ≠ []) = ps.filter (· ≠ []) := by
  rw [endedPieces]
  split
  · rename_i hlast
    obtain ⟨qs, rfl⟩ := List.getLast?_eq_some_iff.mp hlast
    simp
  · rfl

theorem mem_of_mem_endedPieces {p : Bytes} {ps : List Bytes} (h : p ∈ endedPieces ps) : p ∈ ps := by
  rw [endedPieces] at h
  split at h
  · exact List.dropLast_subset ps h
  · exact h

theorem endedPieces_length_le {d : Bytes} {ps : List Bytes} (hps : ps ≠ []) :
    ((endedPieces ps).flatMap (· ++ d)).length ≤ (d.intercalate ps).length + d.length := by
  obtain ⟨p, ps, rfl⟩ := List.exists_cons_of_ne_nil hps
  have hflat := congrArg List.length (intercalate_append_sep d p ps)
  rw [List.length_append] at hflat
  rw [endedPieces]
  split
  · have hparts := List.dropLast_append_getLast hps
    have hsplit : ((p :: ps).flatMap (· ++ d)).length = ((p :: ps).dropLast.flatMap (· ++ d)).length +
        ([(p :: ps).getLast hps].flatMap (· ++ d)).length := by
      rw [← List.length_append, ← List.flatMap_append, hparts]
    omega
  · omega

/-- A text of clean pieces: the delimiter that is added behind the last of them ends it. -/
theorem splitStrToVector_pieces {d : Bytes} {ps : List Bytes} (hd : d ≠ []) (hps : ps ≠ [])
    (hclean : ∀ p ∈ ps, ∀ c ∈ p, c ∉ d) (hlen : d.length ≤ (d.intercalate ps).length) :
    splitStrToVector (d.intercalate ps) d =
      splitLoop d ((endedPieces ps).flatMap (· ++ d)).length ((endedPieces ps).flatMap (· ++ d)) := by
  obtain ⟨p, ps, rfl⟩ := List.exists_cons_of_ne_nil hps
  have hflat := intercalate_append_sep d p ps
  obtain ⟨qs, q, hqs⟩ : ∃ qs q, p :: ps = qs ++ [q] :=
    ⟨(p :: ps).dropLast, (p :: ps).getLast hps, (List.dropLast_append_getLast hps).symm⟩
  have hjoined : d.intercalate (p :: ps) = qs.flatMap (· ++ d) ++ q := by
    rw [hqs, List.flatMap_append, List.flatMap_singleton, ← List.append_assoc] at hflat
    exact List.append_cancel_right (hqs ▸ hflat)
  by_cases hempty : q = []
  · have hended : endedPieces (p :: ps) = qs := by simp [endedPieces, hqs, hempty]
    rw [hjoined, hempty, List.append_nil, hended]
    exact splitStrToVector_terminated hd qs
  · have hended : endedPieces (p :: ps) = p :: ps := by simp [endedPieces, hqs, hempty]
    have hq : ∀ c ∈ q, c ∉ d := hclean q (by rw [hqs]; simp)
    have hnot := no_delimiter_behind (qs.flatMap (· ++ d)) hd hempty hq
    have hpos := List.length_pos_of_ne_nil hd
    have hne : d.intercalate (p :: ps) ≠ [] := List.ne_nil_of_length_pos (by omega)
    rw [← hjoined] at hnot
    rw [splitStrToVector, if_neg (by simp [hne, hd]), if_neg (by omega)]
    dsimp only
    rw [if_pos hnot, hflat, hended]

/-- Lines that are joined by their separator. -/
theorem splitStrToVector_lines (hls : ∀ l ∈ ls, a ∉ l ∧ b ∉ l) (hne : ls ≠ [])
    (hlen : 2 ≤ ([a, b].intercalate ls).length) (hshort : ([a, b].intercalate ls).length < 4294967294) :
    splitStrToVector ([a, b].intercalate ls) [a, b] = some (ls.filter (· ≠ [])) := by
  have hclean : ∀ l ∈ ls, ∀ c ∈ l, c ∉ [a, b] := by
    intro l hl c hc hmem
    rcases List.mem_pair.mp hmem with rfl | rfl
    · exact (hls l hl).1 hc
    · exact (hls l hl).2 hc
  have hle := endedPieces_length_le (d := [a, b]) hne
  rw [show [a, b].length = 2 from rfl] at hle
  rw [splitStrToVector_pieces (List.cons_ne_nil a [b]) hne hclean hlen, ← endedPieces_filter]
  exact (splitLoop_pieces_iff (List.cons_ne_nil a [b]) (fun l hl => hclean l (mem_of_mem_endedPieces hl))
    (pieces_length_le (List.cons_ne_nil a [b]) _) (by omega)).mpr (keepsRest_of_short (by omega))

/-! ## One-byte separators -/

theorem splitLoop_isSome (n : Nat) (tmp : Bytes) : (splitLoop [c] n tmp).isSome := by
  induction n generalizing tmp with
  | zero => rfl
  | succ n ih =>
      rw [splitLoop]
      split
      · rfl
      · rename_i i hi
        have hlt := findFirstOf_lt hi
        rw [substr, if_pos (show i + [c].length ≤ tmp.length from hlt), Option.bind_some, Option.isSome_map]
        exact ih _

theorem insertPiece_isSome : (insertPiece [c] m l).isSome := by
  rw [insertPiece]
  split
  · rfl
  · rename_i j hj
    have hlt := findFirstOf_lt hj
    split
    · rfl
    · rw [Option.isSome_map, substr, if_pos (show j + [c].length ≤ l.length from hlt)]
      rfl

theorem insertPieces_isSome (ls : List Bytes) : (ls.foldlM (insertPiece [c]) m).isSome := by
  induction ls generalizing m with
  | nil => rfl
  | cons l ls ih =>
      obtain ⟨m', hm'⟩ := Option.isSome_iff_exists.mp (insertPiece_isSome (c := c) (m := m) (l := l))
      rw [List.foldlM_cons, hm']
      exact ih

theorem splitStrToMap_isSome (str : Bytes) (m : StringMap) : (splitStrToMap str [a] [b] m).isSome := by
  rw [splitStrToMap]
  split
  · rfl
  · rename_i hne
    have hstr : str ≠ [] := fun he => hne (.inl he)
    have hvec : (splitStrToVector str [a]).isSome := by
      simp only [splitStrToVector]
      rw [if_neg (by simp [hstr]), if_neg (by simpa [List.length_eq_zero_iff] using hstr)]
      exact splitLoop_isSome _ _
    obtain ⟨vec, hvec⟩ := Option.isSome_iff_exists.mp hvec
    rw [hvec, Option.bind_some]
    exact insertPieces_isSome vec

/-! ## One line -/

theorem insertPiece_line (hkey : key ≠ []) (hc : c ∉ key) (hzero : 0 ∉ key) (value : Bytes) :
    insertPiece [c] m (key ++ c :: value) = some (m.insert key value) := by
  have hset : ∀ d ∈ key, d ∉ [c] := fun d hd hmem => hc (List.mem_singleton.mp hmem ▸ hd)
  have hfind := findFirstOf_skip hset List.mem_cons_self value
  have hsub := substr_rest (key ++ [c]) value
  have hkeep : key.takeWhile (· ≠ 0) = key := by
    rw [List.takeWhile_eq_self_iff]
    intro d hd
    exact decide_eq_true fun he => hzero (he ▸ hd)
  rw [insertPiece, hfind]
  simp only [List.append_assoc, List.singleton_append, List.length_append, List.length_cons, List.length_nil,
    Nat.zero_add] at hsub ⊢
  rw [if_neg (mt List.length_eq_zero_iff.mp hkey), Nat.sub_sub, hsub, Option.map_some, List.take_left, hkeep]

/-- A line that does not begin with a key leaves its entry. -/
theorem insertPiece_other (h : insertPiece [c] m l = some m') (hkey : ¬key <+: l) : m'.get? key = m.get? key := by
  rw [insertPiece] at h
  split at h
  · cases h
    rfl
  · split at h
    · cases h
      rfl
    · obtain ⟨value, -, rfl⟩ := Option.map_eq_some_iff.mp h
      rw [StringMap.get?_insert, if_neg]
      rintro rfl
      exact hkey ((List.takeWhile_prefix _).trans (List.take_prefix _ l))

end StringUtil

end Tirpc
