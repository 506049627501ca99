import Mathlib.Data.List.Nodup
import Tirpc.Generator.Names

/-!
# Which methods get files of their own

A name is read as letters and digits with marks at the beginnings of words. The class of a method keeps all of this
reading; its files lose what the first letter was like.
-/

namespace Tirpc

open Lib

namespace Generator

variable {l l' : List (UInt8 × Bool)} {a b m : Bytes} {n n' : Bytes} {p : Project} {f file : FilePath}
  {ops : List (Bytes × FilePath)} {methods : List Bytes}

/-! ## Readings -/

/-- In a name with underscores, words begin behind them. -/
def markWords (begins : Bool) : Bytes → List (UInt8 × Bool)
  | [] => []
  | c :: cs =>
      if c = 95 then markWords true cs
      else (toLower c, begins && (isUpper c || isLower c)) :: markWords false cs

/-- The letters and digits of a name, with a mark at each letter that begins a word. In a name without underscores
these are the capital letters. -/
def wordChars (name : Bytes) : List (UInt8 × Bool) :=
  if (95 : UInt8) ∉ name then name.map fun c => (toLower c, isUpper c) else markWords true name

/-- What is left in the name of a file: a first letter with a mark loses it, and one without a mark is left out. A
first digit is told by the mark from a digit that follows such a letter. -/
def fileChars : List (UInt8 × Bool) → List (UInt8 × Bool)
  | [] => []
  | (c, true) :: rest => (c, false) :: rest
  | (c, false) :: rest => if isLower c then rest else (c, true) :: rest

/-- A method of its own reads differently from all others, and not as the base of all interfaces. -/
structure ReadApart (methods : List Bytes) : Prop where
  pairwise : methods.Pairwise fun a b => fileChars (wordChars a) ≠ fileChars (wordChars b)
  notBase : ∀ m ∈ methods, fileChars (wordChars m) ≠ (text "interface").map fun c => (c, false)

/-- The names of the files and those of the classes differ, and in a new project a header and a source file are written
for each method. -/
structure OneFileEach (methods : List Bytes) : Prop where
  files : ((methods.map interface).map Interface.interfaceName).Nodup
  classes : ((methods.map interface).map Interface.interfaceClassName).Nodup
  written : ∀ m ∈ methods,
    (header (interface m).interfaceName, m) ∈ (genEachInterface newProject (methods.map interface)).written ∧
    (source (interface m).interfaceName, m) ∈ (genEachInterface newProject (methods.map interface)).written

/-! ## Letters -/

/-- What occurs in a reading. -/
def IsWordChar (x : UInt8 × Bool) : Prop := isUpper x.1 = false ∧ x.1 ≠ 95 ∧ (x.2 = true → isLower x.1 = true)

/-- How a letter of a reading is written in the name of a class. -/
def camelChar (x : UInt8 × Bool) : UInt8 := if x.2 then toUpper x.1 else x.1

/-- How it is written in the name of a file. -/
def underlineChar (x : UInt8 × Bool) : Bytes := if isLower x.1 = x.2 then [95, x.1] else [x.1]

theorem camelChar_upper (c : UInt8) : camelChar (toLower c, isUpper c) = c := by
  grind [camelChar, toLower, toUpper, isUpper]

theorem camelChar_begin (c : UInt8) : camelChar (toLower c, true && (isUpper c || isLower c)) = toUpper c := by
  grind [camelChar, toLower, toUpper, isUpper, isLower]

theorem isWordChar_upper {c : UInt8} (hc : c ≠ 95) : IsWordChar (toLower c, isUpper c) := by
  grind [IsWordChar, toLower, isUpper, isLower]

theorem isWordChar_begin {c : UInt8} (hc : c ≠ 95) (begins : Bool) :
    IsWordChar (toLower c, begins && (isUpper c || isLower c)) := by
  grind [IsWordChar, toLower, isUpper, isLower]

theorem underlineChar_eq {c : UInt8} {mark : Bool} (h : IsWordChar (c, mark)) :
    (if isLower (camelChar (c, mark)) then [camelChar (c, mark)] else [95, toLower (camelChar (c, mark))]) =
      underlineChar (c, mark) := by
  grind [IsWordChar, camelChar, underlineChar, toLower, toUpper, isUpper, isLower]

theorem toLower_toUpper (c : UInt8) (h : isLower c = true) :
    toLower (toUpper c) = c ∧ isUpper (toUpper c) = true := by
  grind [toLower, toUpper, isUpper, isLower]

theorem isWordChar_wordChars (name : Bytes) : ∀ x ∈ wordChars name, IsWordChar x := by
  have hmark : ∀ (begins : Bool) (cs : Bytes), ∀ x ∈ markWords begins cs, IsWordChar x := by
    intro begins cs
    induction cs generalizing begins with
    | nil => exact fun x hx => absurd hx List.not_mem_nil
    | cons c cs ih =>
        rw [markWords]
        split
        · exact ih true
        · rename_i hc
          exact List.forall_mem_cons.mpr ⟨isWordChar_begin hc begins, ih false⟩
  unfold wordChars
  split
  · rename_i hno
    intro x hx
    obtain ⟨c, hc, rfl⟩ := List.mem_map.mp hx
    exact isWordChar_upper fun he => hno (he ▸ hc)
  · exact hmark true name

/-! ## Names of classes -/

/-- The pieces between underscores, the first one continued or begun. -/
theorem capitalize_pieces (name : Bytes) :
    (name.splitOnP (· = 95)).flatMap capitalize = (markWords true name).map camelChar ∧
    ∃ q qs, name.splitOnP (· = 95) = q :: qs ∧
      q.map toLower ++ qs.flatMap capitalize = (markWords false name).map camelChar := by
  induction name with
  | nil => exact ⟨rfl, [], [], rfl, rfl⟩
  | cons c cs ih =>
      obtain ⟨hall, q, qs, hsplit, hrest⟩ := ih
      rw [List.splitOnP_cons_eq_if_modifyHead, markWords, markWords]
      by_cases hc : c = 95
      · rw [if_pos (decide_eq_true hc), if_pos hc, if_pos hc]
        exact ⟨hall, [], _, rfl, hall⟩
      · rw [if_neg (by simpa using hc), if_neg hc, if_neg hc, hsplit, List.modifyHead_cons]
        refine ⟨?_, c :: q, qs, rfl, ?_⟩
        · rw [List.flatMap_cons, capitalize, List.cons_append, hrest, List.map_cons, camelChar_begin]
        · rw [List.map_cons, List.cons_append, hrest, List.map_cons]
          rfl

theorem toCamel_eq (name : Bytes) : toCamel name = (wordChars name).map camelChar := by
  unfold toCamel wordChars
  split
  · rw [List.map_map]
    exact ((List.map_congr_left fun c _ => camelChar_upper c).trans (List.map_id name)).symm
  · exact (capitalize_pieces name).1

theorem camelChar_inj {x y : UInt8 × Bool} (hx : IsWordChar x) (hy : IsWordChar y) (h : camelChar x = camelChar y) :
    x = y := by
  obtain ⟨c, mark⟩ := x
  obtain ⟨d, mark'⟩ := y
  obtain ⟨hcu, -, hcm⟩ := hx
  obtain ⟨hdu, -, hdm⟩ := hy
  cases mark <;> cases mark' <;> simp only [camelChar, if_true, if_false, Bool.false_eq_true] at h
  · rw [h]
  · rw [h, (toLower_toUpper d (hdm rfl)).2] at hcu
    cases hcu
  · rw [← h, (toLower_toUpper c (hcm rfl)).2] at hdu
    cases hdu
  · rw [← (toLower_toUpper c (hcm rfl)).1, h, (toLower_toUpper d (hdm rfl)).1]

theorem camel_inj (hl : ∀ x ∈ l, IsWordChar x) (hl' : ∀ x ∈ l', IsWordChar x)
    (h : l.map camelChar = l'.map camelChar) : l = l' := by
  induction l generalizing l' with
  | nil => exact (List.map_eq_nil_iff.mp h.symm).symm
  | cons x l ih =>
      cases l' with
      | nil => cases h
      | cons y l' =>
          obtain ⟨hx, htail⟩ := List.forall_mem_cons.mp hl
          obtain ⟨hy, htail'⟩ := List.forall_mem_cons.mp hl'
          obtain ⟨hxy, hrest⟩ := List.cons.inj h
          rw [camelChar_inj hx hy hxy, ih htail htail' hrest]

theorem toCamel_inj_iff (a b : Bytes) : toCamel a = toCamel b ↔ wordChars a = wordChars b := by
  rw [toCamel_eq, toCamel_eq]
  exact ⟨camel_inj (isWordChar_wordChars a) (isWordChar_wordChars b), fun h => by rw [h]⟩

/-! ## Names of files -/

theorem underlineChar_ne_nil (x : UInt8 × Bool) (s : Bytes) : underlineChar x ++ s ≠ [] := by
  unfold underlineChar
  split <;> simp

/-- An underscore stands in front of a character on both sides, or on none. -/
theorem underlineChar_inj {x y : UInt8 × Bool} {s s' : Bytes} (hx : x.1 ≠ 95) (hy : y.1 ≠ 95)
    (h : underlineChar x ++ s = underlineChar y ++ s') : x = y ∧ s = s' := by
  obtain ⟨c, mark⟩ := x
  obtain ⟨d, mark'⟩ := y
  dsimp only at hx hy
  by_cases hmark : isLower c = mark
  · by_cases hmark' : isLower d = mark'
    · rw [underlineChar, if_pos hmark, underlineChar, if_pos hmark'] at h
      simp only [List.cons_append, List.nil_append, List.cons.injEq, true_and] at h
      obtain ⟨rfl, hrest⟩ := h
      exact ⟨by rw [← hmark, ← hmark'], hrest⟩
    · rw [underlineChar, if_pos hmark, underlineChar, if_neg hmark'] at h
      exact absurd (List.cons.inj h).1.symm hy
  · by_cases hmark' : isLower d = mark'
    · rw [underlineChar, if_neg hmark, underlineChar, if_pos hmark'] at h
      exact absurd (List.cons.inj h).1 hx
    · rw [underlineChar, if_neg hmark, underlineChar, if_neg hmark'] at h
      simp only [List.cons_append, List.nil_append, List.cons.injEq] at h
      obtain ⟨rfl, hrest⟩ := h
      have hsame : mark = mark' := (Bool.eq_not.mpr (Ne.symm hmark)).trans (Bool.eq_not.mpr (Ne.symm hmark')).symm
      exact ⟨by rw [hsame], hrest⟩

theorem underline_inj (hl : ∀ x ∈ l, x.1 ≠ 95) (hl' : ∀ x ∈ l', x.1 ≠ 95)
    (h : l.flatMap underlineChar = l'.flatMap underlineChar) : l = l' := by
  induction l generalizing l' with
  | nil =>
      cases l' with
      | nil => rfl
      | cons y l' => exact absurd h.symm (underlineChar_ne_nil y _)
  | cons x l ih =>
      cases l' with
      | nil => exact absurd h (underlineChar_ne_nil x _)
      | cons y l' =>
          obtain ⟨hx, htail⟩ := List.forall_mem_cons.mp hl
          obtain ⟨hy, htail'⟩ := List.forall_mem_cons.mp hl'
          rw [List.flatMap_cons, List.flatMap_cons] at h
          obtain ⟨hxy, hrest⟩ := underlineChar_inj hx hy h
          rw [hxy, ih htail htail' hrest]

theorem drop_underline (hl : ∀ x ∈ l, IsWordChar x) :
    (l.flatMap underlineChar).drop 1 = (fileChars l).flatMap underlineChar := by
  cases l with
  | nil => rfl
  | cons x l =>
      obtain ⟨c, mark⟩ := x
      obtain ⟨-, -, hmark⟩ := hl (c, mark) List.mem_cons_self
      rw [List.flatMap_cons]
      cases mark with
      | true => simp [fileChars, underlineChar, hmark rfl]
      | false => cases hlow : isLower c <;> simp [fileChars, underlineChar, hlow]

theorem fileChars_ne (hl : ∀ x ∈ l, IsWordChar x) : ∀ x ∈ fileChars l, x.1 ≠ 95 := by
  cases l with
  | nil => exact fun x hx => absurd hx List.not_mem_nil
  | cons x l =>
      obtain ⟨⟨c, mark⟩, rfl⟩ : ∃ y, y = x := ⟨x, rfl⟩
      obtain ⟨hx, hl⟩ := List.forall_mem_cons.mp hl
      have hrest : ∀ x ∈ l, x.1 ≠ 95 := fun x hx => (hl x hx).2.1
      cases mark with
      | true => exact List.forall_mem_cons.mpr ⟨hx.2.1, hrest⟩
      | false =>
          rw [fileChars]
          split
          · exact hrest
          · exact List.forall_mem_cons.mpr ⟨hx.2.1, hrest⟩

theorem toUnderline_eq (name : Bytes) : toUnderline name = (fileChars (wordChars name)).flatMap underlineChar := by
  rw [← drop_underline (isWordChar_wordChars name), toUnderline, toCamel_eq, List.flatMap_map]
  refine congrArg (List.drop 1) (List.flatMap_congr fun x hx => ?_)
  exact underlineChar_eq (isWordChar_wordChars name x hx)

theorem toUnderline_inj_iff (a b : Bytes) :
    toUnderline a = toUnderline b ↔ fileChars (wordChars a) = fileChars (wordChars b) := by
  rw [toUnderline_eq, toUnderline_eq]
  exact ⟨underline_inj (fileChars_ne (isWordChar_wordChars a)) (fileChars_ne (isWordChar_wordChars b)),
    fun h => by rw [h]⟩

theorem toUnderline_base_iff (m : Bytes) :
    toUnderline m = text "interface" ↔ fileChars (wordChars m) = (text "interface").map fun c => (c, false) := by
  have hbase : ((text "interface").map fun c => (c, false)).flatMap underlineChar = text "interface" := by
    decide
  have hne : ∀ x ∈ (text "interface").map fun c => (c, false), x.1 ≠ 95 := by decide +kernel
  have hread : (fileChars (wordChars m)).flatMap underlineChar =
      ((text "interface").map fun c => (c, false)).flatMap underlineChar ↔
        fileChars (wordChars m) = (text "interface").map fun c => (c, false) :=
    ⟨underline_inj (fileChars_ne (isWordChar_wordChars m)) hne, fun h => by rw [h]⟩
  rwa [hbase, ← toUnderline_eq] at hread

/-! ## Written files -/

theorem mem_files_write : f ∈ (write m p file).files ↔ f ∈ p.files ∨ f = file := by
  unfold write
  split
  · rename_i hfile
    exact ⟨.inl, fun h => h.elim id fun he => he ▸ hfile⟩
  · rw [List.mem_append, List.mem_singleton]

theorem mem_written_write {op : Bytes × FilePath} :
    (f, m) ∈ (write op.1 p op.2).written ↔ (f, m) ∈ p.written ∨ (m, f) = op ∧ f ∉ p.files := by
  unfold write
  split
  · rename_i hfile
    refine ⟨.inl, fun h => h.resolve_right ?_⟩
    rintro ⟨rfl, hno⟩
    exact hno hfile
  · rename_i hfile
    rw [List.mem_append, List.mem_singleton]
    refine or_congr_right ⟨fun he => ?_, fun he => ?_⟩
    · cases he
      exact ⟨rfl, hfile⟩
    · rw [← he.1]

/-- Files that differ are written once each, unless they were there before. -/
theorem mem_written_foldl (hnodup : (ops.map Prod.snd).Nodup) (p : Project) :
    (f, m) ∈ (ops.foldl (fun p op => write op.1 p op.2) p).written ↔
      (f, m) ∈ p.written ∨ (m, f) ∈ ops ∧ f ∉ p.files := by
  induction ops generalizing p with
  | nil => simp
  | cons op ops ih =>
      obtain ⟨hop, hrest⟩ := List.nodup_cons.mp hnodup
      have hother : (m, f) ∈ ops → f ≠ op.2 := by
        rintro hmem rfl
        exact hop (List.mem_map.mpr ⟨_, hmem, rfl⟩)
      rw [List.foldl_cons, ih hrest, mem_files_write, mem_written_write, List.mem_cons]
      constructor
      · rintro ((h | h) | ⟨hmem, hno⟩)
        · exact .inl h
        · exact .inr ⟨.inl h.1, h.2⟩
        · exact .inr ⟨.inr hmem, fun hf => hno (.inl hf)⟩
      · rintro (h | ⟨he | hmem, hno⟩)
        · exact .inl (.inl h)
        · exact .inl (.inr ⟨he, hno⟩)
        · exact .inr ⟨hmem, fun hf => hf.elim hno (hother hmem)⟩

/-- The files of a method, in their order. -/
def filesOf (m : Bytes) : List (Bytes × FilePath) :=
  [(m, header (toUnderline m)), (m, source (toUnderline m)), (m, testClient (toUnderline m))]

theorem genEachInterface_eq (p : Project) (methods : List Bytes) :
    genEachInterface p (methods.map interface) =
      (methods.flatMap filesOf).foldl (fun p op => write op.1 p op.2) p := by
  induction methods generalizing p with
  | nil => rfl
  | cons m methods ih =>
      rw [List.map_cons, genEachInterface, List.foldl_cons, List.flatMap_cons, List.foldl_append]
      exact ih _

theorem header_inj (h : header n = header n') : n = n' := List.append_cancel_right (FilePath.mk.inj h).2

theorem source_inj (h : source n = source n') : n = n' := List.append_cancel_right (FilePath.mk.inj h).2

theorem testClient_inj (h : testClient n = testClient n') : n = n' :=
  List.append_cancel_right (List.append_cancel_left (FilePath.mk.inj h).2)

theorem header_ne_source : header n ≠ source n' := by
  intro h
  have hlast := congrArg List.getLast? (FilePath.mk.inj h).2
  rw [List.getLast?_append_of_ne_nil _ (by decide), List.getLast?_append_of_ne_nil _ (by decide)] at hlast
  exact absurd hlast (by decide)

theorem filesOf_nodup (h : (methods.map toUnderline).Nodup) : ((methods.flatMap filesOf).map Prod.snd).Nodup := by
  rw [List.map_flatMap, List.nodup_flatMap]
  refine ⟨fun m _ => ?_, (List.pairwise_map.mp h).imp fun {a b} hne => ?_⟩
  · simp only [filesOf, List.map_cons, List.map_nil, List.nodup_cons, List.mem_cons, List.not_mem_nil, or_false,
      not_or, not_false_eq_true, List.nodup_nil, and_true]
    exact ⟨⟨header_ne_source, fun he => nomatch he⟩, fun he => nomatch he⟩
  · intro f ha hb
    simp only [filesOf, List.map_cons, List.map_nil, List.mem_cons, List.not_mem_nil, or_false] at ha hb
    rcases ha with rfl | rfl | rfl
    · rcases hb with hb | hb | hb
      · exact hne (header_inj hb)
      · exact header_ne_source hb
      · cases hb
    · rcases hb with hb | hb | hb
      · exact header_ne_source hb.symm
      · exact hne (source_inj hb)
      · cases hb
    · rcases hb with hb | hb | hb
      · cases hb
      · cases hb
      · exact hne (testClient_inj hb)

theorem written_iff (h : (methods.map toUnderline).Nodup) (hf : (m, f) ∈ filesOf m) (hm : m ∈ methods) :
    (f, m) ∈ (genEachInterface newProject (methods.map interface)).written ↔ f ∉ newProject.files := by
  rw [genEachInterface_eq, mem_written_foldl (filesOf_nodup h)]
  refine ⟨fun hw => hw.elim (fun hnil => absurd hnil List.not_mem_nil) And.right, fun hno => .inr ⟨?_, hno⟩⟩
  exact List.mem_flatMap.mpr ⟨m, hm, hf⟩

theorem header_new_iff : header n ∉ newProject.files ↔ n ≠ text "interface" := by
  simp only [newProject, List.mem_cons, List.not_mem_nil, or_false, not_or]
  exact ⟨fun h he => h.1 (he ▸ rfl), fun h => ⟨fun he => h (header_inj he), header_ne_source⟩⟩

theorem source_new (h : n ≠ text "interface") : source n ∉ newProject.files := by
  simp only [newProject, List.mem_cons, List.not_mem_nil, or_false, not_or]
  exact ⟨fun he => header_ne_source he.symm, fun he => h (source_inj he)⟩

/-- Every method has files and a class of its own, just when the methods read differently. -/
theorem oneFileEach_iff (methods : List Bytes) : OneFileEach methods ↔ ReadApart methods := by
  have hfiles : ((methods.map interface).map Interface.interfaceName).Nodup ↔
      methods.Pairwise fun a b => fileChars (wordChars a) ≠ fileChars (wordChars b) := by
    rw [List.map_map, List.Nodup, List.pairwise_map]
    exact iff_of_eq (congrArg (List.Pairwise · methods) (funext₂ fun a b => propext (toUnderline_inj_iff a b).not))
  have hnames : ((methods.map interface).map Interface.interfaceName) = methods.map toUnderline := by
    rw [List.map_map]
    rfl
  constructor
  · intro h
    refine ⟨hfiles.mp h.files, fun m hm => (toUnderline_base_iff m).not.mp ?_⟩
    have hheader : (m, header (toUnderline m)) ∈ filesOf m := List.mem_cons_self
    exact header_new_iff.mp ((written_iff (hnames ▸ h.files) hheader hm).mp (h.written m hm).1)
  · intro h
    have hnodup := hfiles.mpr h.pairwise
    refine ⟨hnodup, ?_, fun m hm => ?_⟩
    · rw [List.map_map, List.Nodup, List.pairwise_map]
      refine h.pairwise.imp fun {a b} hne he => hne ?_
      rw [(toCamel_inj_iff a b).mp (List.append_cancel_right he)]
    · have hbase : toUnderline m ≠ text "interface" := (toUnderline_base_iff m).not.mpr (h.notBase m hm)
      have hheader : (m, header (toUnderline m)) ∈ filesOf m := List.mem_cons_self
      have hsource : (m, source (toUnderline m)) ∈ filesOf m := List.mem_cons_of_mem _ List.mem_cons_self
      exact ⟨(written_iff (hnames ▸ hnodup) hheader hm).mpr (header_new_iff.mpr hbase),
        (written_iff (hnames ▸ hnodup) hsource hm).mpr (source_new hbase)⟩

/-- Names of methods in a `.proto` file. -/
def IsIdentifier (name : Bytes) : Prop :=
  (∀ c ∈ name.head?, isDigit c = false) ∧ name ≠ [] ∧
    ∀ c ∈ name, (isUpper c || isLower c || isDigit c || c = 95) = true

/-- Two methods share their files and their class, and a third has the files of the base class. -/
theorem methods_dropped : (∀ m ∈ [text "get_user", text "GetUser", text "Interface"], IsIdentifier m) ∧
    [text "get_user", text "GetUser", text "Interface"].Nodup ∧
    ¬OneFileEach [text "get_user", text "GetUser"] ∧ ¬OneFileEach [text "Interface"] := by
  refine ⟨by unfold IsIdentifier; decide +kernel, by decide +kernel, fun h => ?_, fun h => ?_⟩
  · exact absurd h.classes (by decide)
  · exact absurd (h.written (text "Interface") List.mem_cons_self).1 (by decide)

/-- A small first letter is left out. -/
example : toUnderline (text "query") = text "uery" ∧ toUnderline (text "QueryAge2") = text "query_age_2" := by
  decide

end Generator

end Tirpc
