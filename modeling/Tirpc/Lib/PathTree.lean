import Mathlib.Data.List.Nodup
import Mathlib.Data.List.TakeWhile
import Tirpc.Lib.Search

/-!
# Trees of named nodes

A node is given by its path, which names the nodes above it and then its own name, each behind a slash. The root
has the empty path, and is always there. No path has a NUL.
-/

namespace Lib

/-! ## Paths -/

/-- What is read of `c_str()` by a function that takes a C string. -/
def cStr (s : Bytes) : Bytes := s.takeWhile (· ≠ 0)

theorem zero_not_mem_cStr (s : Bytes) : (0 : UInt8) ∉ cStr s := fun h => by
  simpa using List.mem_takeWhile_imp h

theorem cStr_eq {s : Bytes} (h : (0 : UInt8) ∉ s) : cStr s = s :=
  List.takeWhile_eq_self_iff.mpr fun _ hc => decide_eq_true fun he => h (he ▸ hc)

/-- Behind a NUL nothing is read. -/
theorem cStr_append {s : Bytes} (h : (0 : UInt8) ∈ s) (t : Bytes) : cStr (s ++ t) = cStr s := by
  obtain ⟨a, b, rfl, ha⟩ := List.eq_append_cons_of_mem h
  have hkept : ∀ c ∈ a, decide (c ≠ 0) = true := fun c hc => decide_eq_true fun he => ha (he ▸ hc)
  have hcut : ∀ t : Bytes, cStr (a ++ 0 :: t) = a := by
    intro t
    rw [cStr, List.takeWhile_append_of_pos hkept]
    simp
  rw [List.append_assoc, List.cons_append, hcut, hcut]

def slash : UInt8 := 47

/-- The place of the last slash. -/
def lastSlash (path : Bytes) : Nat := (findLastOf [slash] path).getD 0

def parent (path : Bytes) : Bytes := path.take (lastSlash path)

def nodeName (path : Bytes) : Bytes := path.drop (lastSlash path + 1)

def childPath (path name : Bytes) : Bytes := path ++ slash :: name

section Paths

variable {path name : Bytes}

theorem cStr_childPath (h : 0 ∉ path) : cStr (childPath path name) = childPath path (cStr name) := by
  have hkept : ∀ c ∈ path, decide (c ≠ 0) = true := fun c hc => decide_eq_true fun he => h (he ▸ hc)
  rw [childPath, childPath, cStr, List.takeWhile_append_of_pos hkept, List.takeWhile_cons_of_pos (by decide)]
  rfl

theorem lastSlash_childPath (h : slash ∉ name) : lastSlash (childPath path name) = path.length := by
  have hname : ∀ c ∈ name, c ∉ [slash] := fun c hc he => h (List.mem_singleton.mp he ▸ hc)
  rw [lastSlash, childPath, findLastOf_skip hname (List.mem_singleton.mpr rfl), Option.getD_some]

theorem parent_childPath (h : slash ∉ name) : parent (childPath path name) = path := by
  rw [parent, lastSlash_childPath h, childPath, List.take_left]

theorem nodeName_childPath (h : slash ∉ name) : nodeName (childPath path name) = name := by
  rw [nodeName, lastSlash_childPath h, childPath, List.append_cons, List.drop_left']
  rw [List.length_append, List.length_singleton]

/-- A path is cut at its last slash. -/
theorem exists_childPath (h : slash ∈ path) : ∃ above name, slash ∉ name ∧ path = childPath above name := by
  obtain ⟨name, above, hrev, hname⟩ := List.eq_append_cons_of_mem (List.mem_reverse.mpr h)
  refine ⟨above.reverse, name.reverse, fun hin => hname (List.mem_reverse.mp hin), ?_⟩
  rw [← List.reverse_reverse path, hrev, List.reverse_append, List.reverse_cons, List.append_assoc,
    List.singleton_append, childPath]

end Paths

/-- A node is there once, and has a slash before its name. -/
structure PathTree where
  paths : List Bytes
  nodup : paths.Nodup
  named : ∀ path ∈ paths, slash ∈ path
  no_nul : ∀ path ∈ paths, 0 ∉ path

namespace PathTree

def children (t : PathTree) (path : Bytes) : List Bytes := (t.paths.filter (parent · = path)).map nodeName

/-- A node is created with a name, under a node that is there. -/
def Creatable (t : PathTree) (path : Bytes) : Prop :=
  path ∉ t.paths ∧ slash ∈ path ∧ 0 ∉ path ∧ nodeName path ≠ [] ∧ (parent path = [] ∨ parent path ∈ t.paths)

instance (t : PathTree) (path : Bytes) : Decidable (t.Creatable path) := inferInstanceAs (Decidable (_ ∧ _))

/-- Only a node with no children is deleted. -/
def Deletable (t : PathTree) (path : Bytes) : Prop := path ∈ t.paths ∧ t.children path = []

instance (t : PathTree) (path : Bytes) : Decidable (t.Deletable path) := inferInstanceAs (Decidable (_ ∧ _))

def create (t : PathTree) (path : Bytes) (h : t.Creatable path) : PathTree where
  paths := t.paths ++ [path]
  nodup := List.nodup_append.mpr ⟨t.nodup, List.nodup_singleton path, fun _ ha _ hb he =>
    h.1 (List.mem_singleton.mp hb ▸ he ▸ ha)⟩
  named p hp := (List.mem_append.mp hp).elim (t.named p) fun hp => List.mem_singleton.mp hp ▸ h.2.1
  no_nul p hp := (List.mem_append.mp hp).elim (t.no_nul p) fun hp => List.mem_singleton.mp hp ▸ h.2.2.1

def delete (t : PathTree) (path : Bytes) : PathTree where
  paths := t.paths.erase path
  nodup := t.nodup.erase path
  named p hp := t.named p (List.mem_of_mem_erase hp)
  no_nul p hp := t.no_nul p (List.mem_of_mem_erase hp)

variable {t : PathTree} {path name other : Bytes}

theorem mem_children : name ∈ t.children path ↔ slash ∉ name ∧ childPath path name ∈ t.paths := by
  rw [children, List.mem_map]
  constructor
  · rintro ⟨node, hnode, rfl⟩
    obtain ⟨hin, hparent⟩ := List.mem_filter.mp hnode
    obtain ⟨above, last, hlast, rfl⟩ := exists_childPath (t.named node hin)
    rw [decide_eq_true_eq, parent_childPath hlast] at hparent
    subst hparent
    rw [nodeName_childPath hlast]
    exact ⟨hlast, hin⟩
  · rintro ⟨hname, hin⟩
    exact ⟨childPath path name, List.mem_filter.mpr ⟨hin, decide_eq_true (parent_childPath hname)⟩,
      nodeName_childPath hname⟩

/-! ## Only the children of the parent change -/

theorem children_create (h : t.Creatable path) (hother : parent path ≠ other) :
    (t.create path h).children other = t.children other := by
  simp [children, create, List.filter_append, hother]

theorem children_delete (hother : parent path ≠ other) : (t.delete path).children other = t.children other := by
  have hfilter : (t.paths.erase path).filter (parent · = other) = t.paths.filter (parent · = other) := by
    rw [← List.erase_filter]
    refine List.erase_of_not_mem fun hin => ?_
    exact hother (of_decide_eq_true (List.mem_filter.mp hin).2)
  simp only [children, delete, hfilter]

end PathTree

end Lib
