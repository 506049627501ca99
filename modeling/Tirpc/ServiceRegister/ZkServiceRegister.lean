import Tirpc.Base.Address
import Tirpc.Common.ZkUtil

/-!
# Registration and discovery of services (`zk_service_register.cpp`)

Each register works through the calls of ZooKeeper that its current function makes, one in a step, and its callback
thread runs between them.
-/

namespace Tirpc

open Lib

def ROOT_PATH : Bytes := text "/tirpc"

/-- The services of the two overloads of `Register`. -/
inductive RegisteredService where
  | protobuf (fullName : Bytes)
  | custom (serviceName : Bytes)

def RegisteredService.serviceName : RegisteredService → Bytes
  | .protobuf fullName => fullName
  | .custom serviceName => serviceName ++ text "_Custom"

def servicePath (serviceName : Bytes) : Bytes := childPath ROOT_PATH serviceName

/-- `addr` is what `ToString` makes of the address. -/
def RegisteredService.addressPath (service : RegisteredService) (addr : Bytes) : Bytes :=
  childPath (servicePath service.serviceName) addr

/-- A statement that is still to be run. -/
inductive ZkWork where
  /-- `ZkClient::create`, and in it `zoo_create`. -/
  | create (path : Bytes)
  | zooCreate (path : Bytes)
  /-- `ZkClient::deleteNode`, and in it `zoo_delete`. -/
  | deleteNode (path : Bytes)
  | zooDelete (path : Bytes)
  /-- `ZkClient::getChildrenNodes`, and in it the store of the answer under the whole path. `Clear` deletes a node
  without children, and `Discover` returns them. -/
  | getChildrenNodes (path : Bytes) (clear : Bool)
  | store (path : Bytes) (result : List Bytes) (clear : Bool)
  | stop
  deriving DecidableEq, Repr

structure ZkServiceRegister where
  zkCli : ZkClient := {}
  pathSet : List Bytes := []
  serviceSet : List Bytes := []
  work : List ZkWork := []

/-- The server, and the registers of all processes. -/
structure Zookeeper (R : Type) where
  nodes : PathTree
  registers : R → ZkServiceRegister

inductive ZkStep (R : Type) where
  | register (r : R) (service : RegisteredService) (addr : Bytes)
  | discover (r : R) (serviceName : Bytes)
  /-- The sets are gone through in any order. -/
  | clear (r : R) (paths services : List Bytes)
  /-- A register goes on with its work, and is answered by ZooKeeper where it calls it. -/
  | work (r : R) (reply : ZkReply)
  | serviceWatcher (r : R) (reply : ZkReply)
  | storeWatched (r : R)

namespace ZkServiceRegister

def register (g : ZkServiceRegister) (service : RegisteredService) (addr : Bytes) : ZkServiceRegister :=
  let path := service.addressPath addr
  { g with
    serviceSet := g.serviceSet.insert service.serviceName
    pathSet := g.pathSet.insert path
    work := [.create (cStr (servicePath service.serviceName)), .create (cStr path)] }

def discover (g : ZkServiceRegister) (serviceName : Bytes) : ZkServiceRegister :=
  { g with work := [.getChildrenNodes (servicePath serviceName) false] }

def clear (g : ZkServiceRegister) (paths services : List Bytes) : ZkServiceRegister :=
  { g with
    work := paths.map (fun path => .deleteNode (cStr path)) ++
      services.map (fun sp => .getChildrenNodes (servicePath sp) true) ++ [.getChildrenNodes ROOT_PATH true, .stop] }

/-- What comes behind `getChildrenNodes`. -/
def behind (path : Bytes) (clear : Bool) (result : List Bytes) : List ZkWork :=
  if clear && result.isEmpty then [.deleteNode (cStr path)] else []

/-- What a `Discover` of the path is about to return. -/
def discovered (g : ZkServiceRegister) (path : Bytes) : Option (List Bytes) :=
  match g.work with
  | .getChildrenNodes asked false :: _ => if asked = path then g.zkCli.childrenNodesMap path else none
  | .store asked result false :: _ => if asked = path then some result else none
  | _ => none

/-- The addresses that the `Discover` makes of the nodes it has got. -/
def discoveredAddresses (net : NetFunctions) (mem : Uninitialized) (g : ZkServiceRegister) (path : Bytes) :
    Option (List IPAddress) :=
  (g.discovered path).map fun strNodes => strNodes.map (IPAddress.ofAddr net mem)

end ZkServiceRegister

namespace Zookeeper

variable {R : Type} [DecidableEq R]

def set (s : Zookeeper R) (r : R) (g : ZkServiceRegister) : Zookeeper R :=
  { s with registers := Function.update s.registers r g }

def setClient (s : Zookeeper R) (r : R) (cli : ZkClient) : Zookeeper R :=
  s.set r { s.registers r with zkCli := cli }

def setWork (s : Zookeeper R) (r : R) (work : List ZkWork) : Zookeeper R :=
  s.set r { s.registers r with work := work }

omit [DecidableEq R] in
/-- The sessions of all registers are told. -/
def notify (s : Zookeeper R) (type : ZkEventType) (path : Bytes) : Zookeeper R :=
  { s with registers := fun r => { s.registers r with zkCli := (s.registers r).zkCli.notify type path } }

omit [DecidableEq R] in
def zooCreate (s : Zookeeper R) (path : Bytes) : Option (Zookeeper R) :=
  if h : s.nodes.Creatable path then some ({ s with nodes := s.nodes.create path h }.notify .child (parent path))
  else none

omit [DecidableEq R] in
def zooDelete (s : Zookeeper R) (path : Bytes) : Option (Zookeeper R) :=
  if s.nodes.Deletable path then
    some (({ s with nodes := s.nodes.delete path }.notify .deleted path).notify .child (parent path))
  else none

/-- The first statement of the work, where `work` is the rest. -/
def runWork (s : Zookeeper R) (r : R) (reply : ZkReply) (work : List ZkWork) : ZkWork → Option (Zookeeper R)
  | .create path =>
      if reply.Exists s.nodes path then
        some (s.setWork r (if reply = .noNode then .zooCreate path :: work else work))
      else none
  | .zooCreate path =>
      match reply with
      | .ok _ => (s.zooCreate path).map (·.setWork r work)
      | .noNode | .failed => some (s.setWork r work)
  | .deleteNode path =>
      if reply.Exists s.nodes path then
        some (s.setWork r (if reply = .noNode then work else .zooDelete path :: work))
      else none
  | .zooDelete path =>
      match reply with
      | .ok _ => (s.zooDelete path).map (·.setWork r work)
      | .noNode | .failed => some (s.setWork r work)
  | .getChildrenNodes path clear =>
      match (s.registers r).zkCli.childrenNodesMap path with
      | some result => some (s.setWork r (ZkServiceRegister.behind path clear result ++ work))
      | none =>
          if reply.Children s.nodes (cStr path) then
            let (cli, result) := (s.registers r).zkCli.getChildren (cStr path) reply
            some ((s.setClient r cli).setWork r (.store path result clear :: work))
          else none
  | .store path result clear =>
      some ((s.setClient r ((s.registers r).zkCli.store path result)).setWork r
        (ZkServiceRegister.behind path clear result ++ work))
  | .stop => some ((s.setClient r (s.registers r).zkCli.stop).setWork r work)

end Zookeeper

/-- A function is called on a register that has its session and has come to the end of the last one. -/
def zkNext {R : Type} [DecidableEq R] (s : Zookeeper R) : ZkStep R → Option (Zookeeper R)
  | .register r service addr =>
      let g := s.registers r
      if g.zkCli.isConnected ∧ g.work = [] then some (s.set r (g.register service addr)) else none
  | .discover r serviceName =>
      let g := s.registers r
      if g.zkCli.isConnected ∧ g.work = [] then some (s.set r (g.discover serviceName)) else none
  | .clear r paths services =>
      let g := s.registers r
      if g.zkCli.isConnected ∧ g.work = [] ∧ paths.Perm g.pathSet ∧ services.Perm g.serviceSet then
        some (s.set r (g.clear paths services))
      else none
  | .work r reply =>
      match (s.registers r).work with
      | [] => none
      | w :: work => s.runWork r reply work w
  | .serviceWatcher r reply =>
      ((s.registers r).zkCli.serviceWatcher s.nodes reply).map (s.setClient r)
  | .storeWatched r => (s.registers r).zkCli.storeWatched.map (s.setClient r)

/-- `Init`: each register has its session, and is about to create the root of all services. -/
def ZkStart {R : Type} (s : Zookeeper R) : Prop := ∀ r, s.registers r = { work := [.create ROOT_PATH] }

end Tirpc
