import Mathlib.Logic.Function.Basic
import Tirpc.Lib.PathTree

/-!
# A client of ZooKeeper (`zk_util.cpp`)

The server keeps a tree of nodes. A session may watch the children of a node: the next change of them, or the
deletion of the node, ends the watch and sends one event. A callback thread of the client takes the events in their
order.
-/

namespace Tirpc

open Lib

/-- Of the types of an event, `ZOO_CHILD_EVENT` and `ZOO_DELETED_EVENT`. -/
inductive ZkEventType where
  | child
  | deleted
  deriving DecidableEq, Repr

structure ZkEvent where
  type : ZkEventType
  path : Bytes
  deriving DecidableEq, Repr

/-- What a call of the ZooKeeper library returns: `ZOK`, with the children where they have been asked for,
`ZNONODE`, or another code. -/
inductive ZkReply where
  | ok (nodeVec : List Bytes)
  | noNode
  | failed
  deriving DecidableEq, Repr

/-- A client with its session. `watcher` is what the callback thread has been answered and has not stored yet. -/
structure ZkClient where
  isConnected : Bool := true
  childrenNodesMap : Bytes → Option (List Bytes) := fun _ => none
  watches : Bytes → Bool := fun _ => false
  events : List ZkEvent := []
  watcher : Option (Bytes × List Bytes) := none

namespace ZkReply

/-- The answer of `zoo_exists`, which may also fail. -/
def Exists (reply : ZkReply) (nodes : PathTree) (path : Bytes) : Prop :=
  match reply with
  | .ok _ => path ∈ nodes.paths
  | .noNode => path ∉ nodes.paths
  | .failed => True

/-- The answer of `zoo_wget_children`. The server gives the children in any order. -/
def Children (reply : ZkReply) (nodes : PathTree) (path : Bytes) : Prop :=
  match reply with
  | .ok nodeVec => path ∈ nodes.paths ∧ nodeVec.Perm (nodes.children path)
  | .noNode => path ∉ nodes.paths
  | .failed => True

def IsOk : ZkReply → Prop
  | .ok _ => True
  | .noNode | .failed => False

instance (nodes : PathTree) (path : Bytes) : (reply : ZkReply) → Decidable (reply.Exists nodes path)
  | .ok _ => inferInstanceAs (Decidable (_ ∈ _))
  | .noNode => inferInstanceAs (Decidable (_ ∉ _))
  | .failed => inferInstanceAs (Decidable True)

instance (nodes : PathTree) (path : Bytes) : (reply : ZkReply) → Decidable (reply.Children nodes path)
  | .ok _ => inferInstanceAs (Decidable (_ ∧ _))
  | .noNode => inferInstanceAs (Decidable (_ ∉ _))
  | .failed => inferInstanceAs (Decidable True)

instance : (reply : ZkReply) → Decidable reply.IsOk
  | .ok _ => inferInstanceAs (Decidable True)
  | .noNode | .failed => inferInstanceAs (Decidable False)

end ZkReply

namespace ZkClient

/-- The server ends the watch of a path, if there is one. -/
def notify (cli : ZkClient) (type : ZkEventType) (path : Bytes) : ZkClient :=
  if cli.watches path then
    { cli with
      watches := Function.update cli.watches path false
      events := cli.events ++ [{ type := type, path := path }] }
  else cli

/-- `getChildren` with the answer that it gets: an error is logged, and looks like no children. -/
def getChildren (cli : ZkClient) (path : Bytes) : ZkReply → ZkClient × List Bytes
  | .ok nodeVec => ({ cli with watches := Function.update cli.watches path true }, nodeVec)
  | .noNode | .failed => (cli, [])

def store (cli : ZkClient) (path : Bytes) (result : List Bytes) : ZkClient :=
  { cli with childrenNodesMap := Function.update cli.childrenNodesMap path (some result) }

@[simp] theorem store_self {cli : ZkClient} {path : Bytes} {result : List Bytes} :
    (cli.store path result).childrenNodesMap path = some result := Function.update_self _ _ _

theorem store_other {cli : ZkClient} {path other : Bytes} {result : List Bytes} (h : other ≠ path) :
    (cli.store path result).childrenNodesMap other = cli.childrenNodesMap other := Function.update_of_ne h _ _

/-- The session is closed with what belongs to it. -/
def stop (cli : ZkClient) : ZkClient :=
  { cli with isConnected := false, watches := fun _ => false, events := [], watcher := none }

/-- `serviceWatcher` is called for the next event, and `getChildren` answers it. -/
def serviceWatcher (cli : ZkClient) (nodes : PathTree) (reply : ZkReply) : Option ZkClient :=
  match cli.watcher, cli.events with
  | none, ⟨.child, path⟩ :: events =>
      if reply.Children nodes path then
        let (cli, result) := { cli with events := events }.getChildren path reply
        some { cli with watcher := some (path, result) }
      else none
  | none, ⟨.deleted, _⟩ :: events => some { cli with events := events }
  | _, _ => none

/-- The last statement of `serviceWatcher`. -/
def storeWatched (cli : ZkClient) : Option ZkClient :=
  cli.watcher.map fun watched => { cli.store watched.1 watched.2 with watcher := none }

end ZkClient

end Tirpc
