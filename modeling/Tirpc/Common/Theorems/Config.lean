import Mathlib.Data.List.Induction
import Tirpc.Common.Config

/-!
# Loading all nodes of a tree

Which variables a tree sets, against all its nodes. The characters are checked before the letters are made small.
-/

namespace Tirpc

open Lib

mutual
/-- All nodes of a tree that can be reached through keys, with their paths. -/
def members (pre : Bytes) (node : YamlNode) : List (Bytes × YamlNode) :=
  (pre, node) ::
    match node with
    | .map entries => entryMembers pre entries
    | _ => []

def entryMembers (pre : Bytes) : YamlEntries → List (Bytes × YamlNode)
  | .nil => []
  | .cons first second rest => members (childPrefix pre first) second ++ entryMembers pre rest
end

/-- The alphabet that is documented, `[0-9a-z_.]`. -/
def documentedName (name : Bytes) : Bool := name.all fun c => isDigit c || isLower c || c = 95 || c = 46

variable {T V : Type} {write : YamlNode → Bytes} {c : Config T V} {root : YamlNode} {name pre key : Bytes} {v : V}
  {sets : List (Bytes × V)} {var : ConfigVar T V}

/-- The last value that a variable is set to. -/
def lastSet (name : Bytes) (sets : List (Bytes × V)) : Option V :=
  ((sets.filter (·.1 = name)).getLast?).map Prod.snd

theorem lastSet_concat (name : Bytes) (sets : List (Bytes × V)) (s : Bytes × V) :
    lastSet name (sets ++ [s]) = if name = s.1 then some s.2 else lastSet name sets := by
  rw [lastSet, List.filter_append, List.filter_singleton]
  by_cases he : s.1 = name
  · rw [decide_eq_true he, cond_true, List.getLast?_concat, if_pos he.symm, Option.map_some]
  · rw [decide_eq_false he, cond_false, List.append_nil, if_neg (Ne.symm he), lastSet]

/-! ## Names -/

theorem nameChars_not_upper : ∀ c ∈ nameChars, isUpper c = false := by decide +kernel

theorem nine_not_nameChar : (57 : UInt8) ∉ nameChars := by decide

theorem documented_nameChar : ∀ c : UInt8, (isDigit c || isLower c || c = 95 || c = 46) = true → c ≠ 57 →
    c ∈ nameChars :=
  forall_byte (by decide +kernel)

theorem validName_iff : validName name = true ↔ ∀ c ∈ name, c ∈ nameChars := by
  simp only [validName, List.all_eq_true, decide_eq_true_eq]

/-- A path of which the small letters are a valid name is valid, unless it has capital letters. -/
theorem validName_toLower (h : validName (name.map toLower) = true) :
    validName name = true ↔ ∀ c ∈ name, isUpper c = false := by
  rw [validName_iff] at h ⊢
  constructor
  · exact fun hname c hc => nameChars_not_upper c (hname c hc)
  · intro hno c hc
    exact toLower_eq (hno c hc) ▸ h (toLower c) (List.mem_map_of_mem hc)

theorem validName_of_extends (h : pre <+: name) (hname : validName name = true) : validName pre = true := by
  rw [validName_iff] at hname ⊢
  exact fun c hc => hname c (h.subset hc)

/-! ## The traversal -/

theorem childPrefix_extends (pre first : Bytes) : pre <+: childPrefix pre first := by
  simp only [childPrefix]
  split
  · rename_i he
    exact he ▸ List.nil_prefix
  · exact List.prefix_append pre _

/-- A node that is no map is its only member. -/
theorem members_leaf {node : YamlNode} (h : ∀ entries, node ≠ .map entries) :
    members pre node = [(pre, node)] ∧ listAllMember pre node = if validName pre then [(pre, node)] else [] := by
  cases node with
  | map entries => exact absurd rfl (h entries)
  | null => exact ⟨rfl, rfl⟩
  | scalar value => exact ⟨rfl, rfl⟩
  | sequence items => exact ⟨rfl, rfl⟩

mutual
theorem members_extend (pre : Bytes) (node : YamlNode) : ∀ m ∈ members pre node, pre <+: m.1 := by
  cases node with
  | map entries =>
      rw [members]
      exact List.forall_mem_cons.mpr ⟨List.prefix_refl pre, entryMembers_extend pre entries⟩
  | _ =>
      rw [(members_leaf (by simp)).1]
      exact List.forall_mem_singleton.mpr (List.prefix_refl pre)

theorem entryMembers_extend (pre : Bytes) (entries : YamlEntries) : ∀ m ∈ entryMembers pre entries, pre <+: m.1 := by
  cases entries with
  | nil =>
      rw [entryMembers]
      exact fun m hm => absurd hm List.not_mem_nil
  | cons first second rest =>
      rw [entryMembers]
      intro m hm
      rcases List.mem_append.mp hm with hm | hm
      · exact (childPrefix_extends pre first).trans (members_extend (childPrefix pre first) second m hm)
      · exact entryMembers_extend pre rest m hm
end

theorem filter_members_nil (h : ¬validName pre = true) (node : YamlNode) :
    (members pre node).filter (fun m => validName m.1) = [] :=
  List.filter_eq_nil_iff.mpr fun m hm hvalid => h (validName_of_extends (members_extend pre node m hm) hvalid)

theorem listAllMember_leaf {node : YamlNode} (h : ∀ entries, node ≠ .map entries) :
    listAllMember pre node = (members pre node).filter fun m => validName m.1 := by
  obtain ⟨hmembers, hlist⟩ := @members_leaf pre node h
  rw [hmembers, hlist, List.filter_singleton]
  cases validName pre <;> rfl

mutual
/-- What is listed are the members whose paths have only characters that are let through. -/
theorem listAllMember_eq (pre : Bytes) (node : YamlNode) :
    listAllMember pre node = (members pre node).filter fun m => validName m.1 := by
  cases node with
  | map entries =>
      by_cases h : validName pre = true
      · rw [listAllMember, if_pos h, members, List.filter_cons, if_pos h, listAllEntries_eq pre entries]
      · rw [filter_members_nil h, listAllMember, if_neg h]
  | _ => exact listAllMember_leaf (by simp)

theorem listAllEntries_eq (pre : Bytes) (entries : YamlEntries) :
    listAllEntries pre entries = (entryMembers pre entries).filter fun m => validName m.1 := by
  cases entries with
  | nil => rw [listAllEntries, entryMembers, List.filter_nil]
  | cons first second rest =>
      rw [listAllEntries, entryMembers, List.filter_append, listAllMember_eq (childPrefix pre first) second,
        listAllEntries_eq pre rest]
end

/-! ## Setting variables -/

theorem memberSets_valid {m : Bytes × YamlNode} (h : (c.memberSets write m).isSome) :
    validName (m.1.map toLower) = true := by
  simp only [Config.memberSets] at h
  split at h
  · cases h
  · obtain ⟨s, hs⟩ := Option.isSome_iff_exists.mp h
    obtain ⟨var, hvar, -⟩ := Option.bind_eq_some_iff.mp hs
    exact c.valid _ (by rw [hvar]; rfl)

section

variable [DecidableEq V]

theorem ConfigVar.setValue_eq (var : ConfigVar T V) (v : V) : var.setValue v = { var with val := v } := by
  simp only [setValue]
  split
  · rename_i he
    rw [he]
  · rfl

namespace Config

theorem datas_setValue (c : Config T V) (key name : Bytes) (v : V) :
    (c.setValue key v).datas name = if name = key then (c.datas name).map (·.setValue v) else c.datas name := rfl

/-- Conversions stay as they are. -/
theorem memberSets_setValue (m : Bytes × YamlNode) :
    (c.setValue key v).memberSets write m = c.memberSets write m := by
  simp only [memberSets, setValue]
  split
  · rfl
  · split
    · cases c.datas (m.1.map toLower) with
      | none => rfl
      | some var => simp only [Option.map_some, Option.bind_some, ConfigVar.setValue_eq]
    · rfl

theorem foldl_loadMember (ms : List (Bytes × YamlNode)) (c : Config T V) (done : List (Bytes × V)) :
    ms.foldl (loadMember write) (c, done) =
      ((ms.filterMap (c.memberSets write)).foldl (fun c s => c.setValue s.1 s.2) c,
        done ++ ms.filterMap (c.memberSets write)) := by
  induction ms generalizing c done with
  | nil => rw [List.filterMap_nil, List.append_nil]; rfl
  | cons m ms ih =>
      rw [List.foldl_cons]
      cases hm : c.memberSets write m with
      | none => rw [List.filterMap_cons_none hm, loadMember, hm, ih]
      | some s =>
          have hsame : (c.setValue s.1 s.2).memberSets write = c.memberSets write :=
            funext fun m => memberSets_setValue m
          rw [List.filterMap_cons_some hm, loadMember, hm]
          dsimp only
          rw [ih, hsame, List.foldl_cons, List.append_assoc, List.singleton_append]

/-- Each variable has the last of the values that it has been set to. -/
theorem datas_foldl_setValue (sets : List (Bytes × V)) (c : Config T V) (name : Bytes) :
    (sets.foldl (fun c s => c.setValue s.1 s.2) c).datas name =
      (c.datas name).map fun var => { var with val := (lastSet name sets).getD var.val } := by
  induction sets using List.reverseRecOn with
  | nil => exact (Option.map_id' (x := c.datas name)).symm
  | append_singleton sets s ih =>
      rw [List.foldl_append, List.foldl_cons, List.foldl_nil]
      rw [datas_setValue, ih, lastSet_concat]
      by_cases he : name = s.1
      · rw [if_pos he, if_pos he, Option.map_map]
        refine congrArg (fun f => (c.datas name).map f) (funext fun var => ?_)
        rw [Function.comp_apply, ConfigVar.setValue_eq, Option.getD_some]
      · rw [if_neg he, if_neg he]

end Config

/-! ## All nodes of the tree -/

/-- Every node with a path that, ignoring case, is the name of a variable sets this variable to its conversion, if
there is one; nodes set their variables in the order of the document, and nothing else is set. -/
structure LoadsAll (write : YamlNode → Bytes) (c : Config T V) (root : YamlNode) : Prop where
  sets : (c.loadFromYaml write root).2 = (members [] root).filterMap (c.memberSets write)
  values : ∀ name, (c.loadFromYaml write root).1.datas name = (c.datas name).map fun var =>
    { var with val := (lastSet name ((members [] root).filterMap (c.memberSets write))).getD var.val }

/-- A node that sets a variable has a path without capital letters. -/
def PathsSmall (write : YamlNode → Bytes) (c : Config T V) (root : YamlNode) : Prop :=
  ∀ m ∈ members [] root, (c.memberSets write m).isSome → ∀ b ∈ m.1, isUpper b = false

theorem filterMap_filter_iff {A B : Type} {f : A → Option B} {p : A → Bool} (l : List A) :
    (l.filter p).filterMap f = l.filterMap f ↔ ∀ a ∈ l, (f a).isSome → p a = true := by
  induction l with
  | nil => simp
  | cons a l ih =>
      rw [List.forall_mem_cons, ← ih]
      cases hf : f a with
      | none => cases hp : p a <;> simp [hf, hp]
      | some b =>
          cases hp : p a with
          | true => simp [hf, hp]
          | false =>
              have hlen : ((l.filter p).filterMap f).length ≤ (l.filterMap f).length :=
                (List.Sublist.filterMap f List.filter_sublist).length_le
              simp only [List.filter_cons, hp, Bool.false_eq_true, if_false, List.filterMap_cons, hf,
                Option.isSome_some, forall_const, false_and, iff_false]
              intro he
              rw [he, List.length_cons] at hlen
              omega

theorem loadsAll_iff (write : YamlNode → Bytes) (c : Config T V) (root : YamlNode) :
    LoadsAll write c root ↔ PathsSmall write c root := by
  obtain ⟨listed, hlisted⟩ : ∃ listed, listed = listAllMember [] root := ⟨_, rfl⟩
  have hload : c.loadFromYaml write root = ((listed.filterMap (c.memberSets write)).foldl
      (fun c s => c.setValue s.1 s.2) c, listed.filterMap (c.memberSets write)) := by
    rw [Config.loadFromYaml, ← hlisted, Config.foldl_loadMember, List.nil_append]
  have hsets : (c.loadFromYaml write root).2 = (members [] root).filterMap (c.memberSets write) ↔
      PathsSmall write c root := by
    rw [hload, hlisted, listAllMember_eq, filterMap_filter_iff]
    refine forall₂_congr fun m _ => imp_congr_right fun hm => validName_toLower (memberSets_valid hm)
  refine ⟨fun h => hsets.mp h.sets, fun h => ⟨hsets.mpr h, fun name => ?_⟩⟩
  rw [← hsets.mpr h, hload]
  exact Config.datas_foldl_setValue _ c name

end

/-! ## All documented names -/

variable [DecidableEq T]

/-- A name over the documented alphabet is not refused. -/
def AcceptsDocumented (c : Config T V) (name : Bytes) (default : ConfigVar T V) : Prop :=
  documentedName name = true → (c.lookup name default).1 ≠ .invalidArgument

theorem acceptsDocumented_iff (c : Config T V) (name : Bytes) (default : ConfigVar T V) :
    AcceptsDocumented c name default ↔ (documentedName name = true → (57 : UInt8) ∉ name) := by
  refine imp_congr_right fun hdoc => ?_
  have hvalid : validName name = true ↔ (57 : UInt8) ∉ name := by
    rw [validName_iff]
    refine ⟨fun h h9 => nine_not_nameChar (h 57 h9), fun h9 b hb => ?_⟩
    exact documented_nameChar b (List.all_eq_true.mp hdoc b hb) fun he => h9 (he ▸ hb)
  rw [← hvalid]
  unfold Config.lookup
  cases hvar : c.datas name with
  | some var =>
      have hname : validName name = true := c.valid name (by rw [hvar]; rfl)
      dsimp only
      split <;> simp [hname]
  | none => by_cases h : validName name = true <;> simp [h]

/-- Loading and registration keep to the documentation, just when no capital letter and no nine comes into play. -/
theorem config_documented_iff [DecidableEq V] (write : YamlNode → Bytes) (c : Config T V) (root : YamlNode)
    (name : Bytes) (default : ConfigVar T V) : LoadsAll write c root ∧ AcceptsDocumented c name default ↔
      PathsSmall write c root ∧ (documentedName name = true → (57 : UInt8) ∉ name) :=
  and_congr (loadsAll_iff write c root) (acceptsDocumented_iff c name default)

/-- A configuration with the variable `a`. -/
def configOfA : Config Unit Bytes where
  datas := fun name => if name = text "a" then some ⟨(), [], some⟩ else none
  valid := by
    intro name h
    split at h
    · rename_i he
      subst he
      decide
    · cases h

/-- The node `A` is not listed, although the letters of its path would be made small; and the name `9` is refused. -/
theorem config_undocumented :
    ¬(LoadsAll (fun _ => []) configOfA (.map (.cons (text "A") (.scalar (text "1")) .nil)) ∧
      AcceptsDocumented configOfA (text "9") ⟨(), [], some⟩) ∧
    (configOfA.loadFromYaml (fun _ => []) (.map (.cons (text "A") (.scalar (text "1")) .nil))).2 = [] ∧
    ¬AcceptsDocumented configOfA (text "9") ⟨(), [], some⟩ := by
  have hnone : (configOfA.loadFromYaml (fun _ => []) (.map (.cons (text "A") (.scalar (text "1")) .nil))).2 = [] := by
    decide
  have hsets : (members [] (.map (.cons (text "A") (.scalar (text "1")) .nil))).filterMap
      (configOfA.memberSets fun _ => []) = [(text "a", text "1")] := by decide
  refine ⟨fun h => ?_, hnone, fun h => ?_⟩
  · have hload := h.1.sets
    rw [hnone, hsets] at hload
    cases hload
  · exact absurd ((acceptsDocumented_iff _ _ _).mp h) (by decide)

/-- A capital letter in a value does not matter. -/
example : (configOfA.loadFromYaml (fun _ => []) (.map (.cons (text "a") (.scalar (text "A")) .nil))).2 =
    [(text "a", text "A")] := by decide

end Tirpc
