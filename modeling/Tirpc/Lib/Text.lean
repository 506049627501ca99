import Tirpc.Lib.Bytes

/-!
# Byte strings as `std::string`

Search, substrings, the map from strings to strings, and `atoi`.
-/

namespace Lib

/-! ## Search -/

/-- `find`: the first position at which `pat` stands. -/
def find (pat : Bytes) : Bytes → Option Nat
  | [] => if pat = [] then some 0 else none
  | c :: cs => if pat.isPrefixOf (c :: cs) then some 0 else (find pat cs).map (· + 1)

/-- `find_first_of`: the first position of a byte of `set`. -/
def findFirstOf (set s : Bytes) : Option Nat := s.findIdx? (· ∈ set)

/-- `find_last_of`: the last position of a byte of `set`. -/
def findLastOf (set s : Bytes) : Option Nat :=
  (s.reverse.findIdx? (· ∈ set)).map fun i => s.length - 1 - i

/-- `substr`, which throws when the position is behind the end. -/
def substr (s : Bytes) (pos len : Nat) : Option Bytes :=
  if pos ≤ s.length then some ((s.drop pos).take len) else none

variable {pat s : Bytes} {i : Nat}

theorem find_le (h : find pat s = some i) : i + pat.length ≤ s.length := by
  induction s generalizing i with
  | nil =>
      simp only [find] at h
      split at h
      · rename_i hp
        cases h
        simp [hp]
      · cases h
  | cons c cs ih =>
      simp only [find] at h
      split at h
      · rename_i hp
        cases h
        have hle := (List.isPrefixOf_iff_prefix.mp hp).length_le
        omega
      · obtain ⟨j, hj, rfl⟩ := Option.map_eq_some_iff.mp h
        have hle := ih hj
        simp only [List.length_cons]
        omega

/-- What has been found stays the first occurrence when more text follows. -/
theorem find_append (t : Bytes) (h : find pat s = some i) : find pat (s ++ t) = some i := by
  induction s generalizing i with
  | nil =>
      simp only [find] at h
      split at h
      · rename_i hp
        subst hp
        cases t <;> simpa [find] using h
      · cases h
  | cons c cs ih =>
      simp only [find] at h
      simp only [List.cons_append, find]
      split at h
      · rename_i hp
        have hpre : pat <+: c :: (cs ++ t) :=
          (List.isPrefixOf_iff_prefix.mp hp).trans ((c :: cs).prefix_append t)
        rw [if_pos (List.isPrefixOf_iff_prefix.mpr hpre)]
        exact h
      · rename_i hp
        obtain ⟨j, hj, rfl⟩ := Option.map_eq_some_iff.mp h
        have hle := find_le hj
        have hno : ¬pat.isPrefixOf (c :: (cs ++ t)) := by
          intro hpre
          refine hp (List.isPrefixOf_iff_prefix.mpr ?_)
          refine List.prefix_of_prefix_length_le (List.isPrefixOf_iff_prefix.mp hpre)
            ((c :: cs).prefix_append t) ?_
          simp only [List.length_cons]
          omega
        rw [if_neg hno, ih hj]
        rfl

/-! ## Maps -/

instance irrefl_byteLt : Std.Irrefl (fun a b : UInt8 => a < b) := ⟨UInt8.lt_irrefl⟩

instance asymm_byteLt : Std.Asymm (fun a b : UInt8 => a < b) := ⟨fun _ _ => UInt8.lt_asymm⟩

instance trichotomous_byteLt : Std.Trichotomous (fun a b : UInt8 => a < b) :=
  ⟨fun _ _ h1 h2 => UInt8.le_antisymm (UInt8.not_lt.mp h2) (UInt8.not_lt.mp h1)⟩

instance trans_byteLt : Trans (fun a b : UInt8 => a < b) (fun a b : UInt8 => a < b) (fun a b : UInt8 => a < b) :=
  ⟨UInt8.lt_trans⟩

def insertEntry (k v : Bytes) : List (Bytes × Bytes) → List (Bytes × Bytes)
  | [] => [(k, v)]
  | e :: es =>
      if k < e.1 then (k, v) :: e :: es
      else if k = e.1 then (k, v) :: es
      else e :: insertEntry k v es

theorem mem_insertEntry {k v : Bytes} {es : List (Bytes × Bytes)} {e : Bytes × Bytes}
    (h : e ∈ insertEntry k v es) : e = (k, v) ∨ e ∈ es := by
  induction es with
  | nil => exact .inl (List.mem_singleton.mp h)
  | cons a es ih =>
      simp only [insertEntry] at h
      split at h
      · exact List.mem_cons.mp h
      · split at h
        · rcases List.mem_cons.mp h with rfl | h
          · exact .inl rfl
          · exact .inr (List.mem_cons_of_mem a h)
        · rcases List.mem_cons.mp h with rfl | h
          · exact .inr List.mem_cons_self
          · exact (ih h).imp id (List.mem_cons_of_mem a)

theorem sorted_insertEntry {k v : Bytes} {es : List (Bytes × Bytes)}
    (h : es.Pairwise fun a b => a.1 < b.1) : (insertEntry k v es).Pairwise fun a b => a.1 < b.1 := by
  induction es with
  | nil => exact List.pairwise_singleton _ _
  | cons a es ih =>
      obtain ⟨ha, hes⟩ := List.pairwise_cons.mp h
      simp only [insertEntry]
      split
      · rename_i hlt
        refine List.pairwise_cons.mpr ⟨?_, h⟩
        intro e he
        rcases List.mem_cons.mp he with rfl | he
        · exact hlt
        · exact List.lt_trans hlt (ha e he)
      · rename_i hlt
        split
        · rename_i heq
          exact List.pairwise_cons.mpr ⟨fun e he => heq ▸ ha e he, hes⟩
        · rename_i hne
          have hgt : a.1 < k := Decidable.byContradiction fun hno => hne (List.le_antisymm hno hlt)
          refine List.pairwise_cons.mpr ⟨?_, ih hes⟩
          intro e he
          rcases mem_insertEntry he with rfl | he
          · exact hgt
          · exact ha e he

/-- `std::map<std::string, std::string>`: entries in the order of their keys. -/
structure StringMap where
  entries : List (Bytes × Bytes)
  sorted : entries.Pairwise fun a b => a.1 < b.1
  deriving DecidableEq

namespace StringMap

def empty : StringMap := { entries := [], sorted := List.Pairwise.nil }

def insert (m : StringMap) (k v : Bytes) : StringMap :=
  { entries := insertEntry k v m.entries, sorted := sorted_insertEntry m.sorted }

def get? (m : StringMap) (k : Bytes) : Option Bytes := (m.entries.find? fun e => e.1 = k).map Prod.snd

/-- `m[k]` as an expression: a missing key is given the empty string. -/
def index (m : StringMap) (k : Bytes) : Bytes × StringMap :=
  match m.get? k with
  | some v => (v, m)
  | none => ([], m.insert k [])

end StringMap

/-! ## Numbers -/

def isSpace (c : UInt8) : Bool := c = 32 ∨ 9 ≤ c ∧ c ≤ 13

def isDigit (c : UInt8) : Bool := 48 ≤ c ∧ c ≤ 57

def toUpper (c : UInt8) : UInt8 := if 97 ≤ c ∧ c ≤ 122 then c - 32 else c

def decimalNat (s : Bytes) : Nat := (s.takeWhile isDigit).foldl (fun n c => n * 10 + (c.toNat - 48)) 0

/-- The number that a C string begins with, behind white space and a sign. -/
def decimalInt (s : Bytes) : Int :=
  match (s.takeWhile (· ≠ 0)).dropWhile isSpace with
  | [] => 0
  | c :: cs =>
      if c = 45 then -(decimalNat cs : Int)
      else if c = 43 then decimalNat cs
      else decimalNat (c :: cs)

/-- `strtol` saturates at the bounds of a 64-bit `long`; `atoi` casts the result to `int`. -/
def longToInt (n : Int) : Int := wrap32 (max (-9223372036854775808) (min 9223372036854775807 n))

def atoi (s : Bytes) : Int := longToInt (decimalInt s)

/-- `std::to_string`. -/
def decimal (n : Int) : Bytes := text (toString n)

theorem decimal_digits (n : Nat) : ∀ c ∈ decimal (n : Int), 48 ≤ c ∧ c ≤ 57 := by
  intro c hc
  obtain ⟨d, hd, rfl⟩ := List.mem_map.mp hc
  have hrepr : (toString (n : Int)).toList = Nat.toDigits 10 n := Nat.toList_repr
  rw [hrepr] at hd
  have hdigit : 48 ≤ d.toNat ∧ d.toNat ≤ 57 :=
    Char.isDigit_iff_toNat.mp (Nat.isDigit_of_mem_toDigits (by decide) (by decide) hd)
  have h0 : (48 : UInt8).toNat = 48 := rfl
  have h9 : (57 : UInt8).toNat = 57 := rfl
  rw [UInt8.le_iff_toNat_le, UInt8.le_iff_toNat_le, UInt8.toNat_ofNat', h0, h9]
  omega

theorem longToInt_eq {n : Int} (h : IsInt32 n) : longToInt n = n := by
  simp only [IsInt32] at h
  simp only [longToInt]
  rw [show max (-9223372036854775808) (min 9223372036854775807 n) = n by omega]
  exact wrap32_eq h

example : atoi (text " -12;") = -12 := by decide

example : atoi (text "4294967297") = 1 := by decide

end Lib
