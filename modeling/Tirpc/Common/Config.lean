import Tirpc.Lib.Letters

/-!
# Configuration variables (`config.hpp`, `config.cpp`)
-/

namespace Tirpc

open Lib

/-! ## Nodes -/

mutual
/-- `YAML::Node`. The key of a map's entry is the text that `Scalar` gives of it. -/
inductive YamlNode where
  | null
  | scalar (value : Bytes)
  | sequence (items : List YamlNode)
  | map (entries : YamlEntries)

inductive YamlEntries where
  | nil
  | cons (first : Bytes) (second : YamlNode) (rest : YamlEntries)
end

/-- The characters that are let through, a list in which the nine is missing. -/
def nameChars : Bytes := text "abcdefghikjlmnopqrstuvwxyz._012345678"

def validName (name : Bytes) : Bool := name.all (· ∈ nameChars)

/-- The path of an entry below `pre`. -/
def childPrefix (pre first : Bytes) : Bytes := if pre = [] then first else pre ++ 46 :: first

mutual
def listAllMember (pre : Bytes) (node : YamlNode) : List (Bytes × YamlNode) :=
  if validName pre then
    (pre, node) ::
      match node with
      | .map entries => listAllEntries pre entries
      | _ => []
  else []

def listAllEntries (pre : Bytes) : YamlEntries → List (Bytes × YamlNode)
  | .nil => []
  | .cons first second rest => listAllMember (childPrefix pre first) second ++ listAllEntries pre rest
end

/-! ## Variables -/

/-- `T` are the types of variables, `V` the values of all of them. The conversion throws where it gives nothing. -/
structure ConfigVar (T V : Type) where
  type : T
  val : V
  fromStr : Bytes → Option V

variable {T V : Type} [DecidableEq T] [DecidableEq V]

def ConfigVar.setValue (var : ConfigVar T V) (v : V) : ConfigVar T V :=
  if v = var.val then var else { var with val := v }

/-- The variables, by their names. -/
structure Config (T V : Type) where
  datas : Bytes → Option (ConfigVar T V)
  valid : ∀ name, (datas name).isSome → validName name = true

inductive LookupResult (T V : Type) where
  | pointer (var : ConfigVar T V)
  | nullptr
  | invalidArgument

namespace Config

def insert (c : Config T V) (name : Bytes) (var : ConfigVar T V) (h : validName name = true) : Config T V where
  datas := fun n => if n = name then some var else c.datas n
  valid := by
    intro n hn
    split at hn
    · rename_i he
      exact he ▸ h
    · exact c.valid n hn

/-- `Lookup` with a default value: a variable of this name that is there is given when its type is right. -/
def lookup (c : Config T V) (name : Bytes) (default : ConfigVar T V) : LookupResult T V × Config T V :=
  match c.datas name with
  | some var => (if var.type = default.type then .pointer var else .nullptr, c)
  | none =>
      if h : validName name then (.pointer default, c.insert name default h) else (.invalidArgument, c)

def setValue (c : Config T V) (name : Bytes) (v : V) : Config T V where
  datas := fun n => if n = name then (c.datas n).map (·.setValue v) else c.datas n
  valid := by
    intro n hn
    refine c.valid n ?_
    split at hn
    · rwa [Option.isSome_map] at hn
    · exact hn

/-! ## Loading -/

/-- `ss << node` writes a node that is no scalar. -/
def nodeText (write : YamlNode → Bytes) : YamlNode → Bytes
  | .scalar value => value
  | node => write node

/-- The variable that a member of the tree sets, and the value that it sets it to. -/
def memberSets (write : YamlNode → Bytes) (c : Config T V) (member : Bytes × YamlNode) : Option (Bytes × V) :=
  if member.1 = [] then none
  else (c.datas (member.1.map toLower)).bind fun var =>
    (var.fromStr (nodeText write member.2)).map (member.1.map toLower, ·)

/-- The body of the loop, with the variables that have been set so far. -/
def loadMember (write : YamlNode → Bytes) (s : Config T V × List (Bytes × V)) (member : Bytes × YamlNode) :
    Config T V × List (Bytes × V) :=
  match s.1.memberSets write member with
  | some (key, v) => (s.1.setValue key v, s.2 ++ [(key, v)])
  | none => s

/-- The variables after loading, and what has been set, one after another. -/
def loadFromYaml (write : YamlNode → Bytes) (c : Config T V) (root : YamlNode) : Config T V × List (Bytes × V) :=
  (listAllMember [] root).foldl (loadMember write) (c, [])

end Config

end Tirpc
