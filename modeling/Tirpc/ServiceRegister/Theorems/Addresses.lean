import Tirpc.Base.Lemmas.Inet
import Tirpc.ServiceRegister.ZkServiceRegister

/-!
# Are registered addresses discovered unchanged?

`Register` hands the path of the address to ZooKeeper as a C string, and the name of a node ends at a slash. So an
address comes back if neither of them stands in its text.
-/

namespace Tirpc

open Lib

variable {net : NetFunctions} {mem : Uninitialized} {service : RegisteredService} {ip : Bytes} {port : UInt16}
  {addr : IPAddress} {t : PathTree}

/-- While the server has the node that `Register` creates last for an address: a `Discover` of the service that has been
answered with its children returns the same address: text, port and socket address. -/
def DiscoveredUnchanged (net : NetFunctions) (mem : Uninitialized) (service : RegisteredService) (addr : IPAddress) :
    Prop :=
  ∀ (nodes : PathTree) (server client : ZkServiceRegister) (path : Bytes) (strNodes : List Bytes),
    (server.register service addr.toString).work.getLast? = some (.create path) → path ∈ nodes.paths →
    strNodes.Perm (nodes.children (cStr (servicePath service.serviceName))) →
    client.discovered (servicePath service.serviceName) = some strNodes →
      ∃ addrs, client.discoveredAddresses net mem (servicePath service.serviceName) = some addrs ∧ addr ∈ addrs

/-! ## The node of an address -/

theorem register_creates (server : ZkServiceRegister) (service : RegisteredService) (addr : Bytes) :
    (server.register service addr).work.getLast? = some (.create (cStr (service.addressPath addr))) := rfl

/-- A `Register` that comes to its end with `ZOK` leaves its node at the server. -/
theorem registered_at_end {R : Type} [DecidableEq R] {s s' : Zookeeper R} {r : R} {w : ZkWork} {path : Bytes}
    {reply : ZkReply} (hw : w = .create path ∨ w = .zooCreate path) (hwork : (s.registers r).work = [w])
    (hok : reply.IsOk) (hn : zkNext s (.work r reply) = some s') : path ∈ s'.nodes.paths := by
  obtain ⟨nodeVec, rfl⟩ : ∃ nodeVec, reply = .ok nodeVec := by
    cases reply with
    | ok nodeVec => exact ⟨nodeVec, rfl⟩
    | noNode | failed => cases hok
  simp only [zkNext, hwork] at hn
  rcases hw with rfl | rfl
  · obtain ⟨hthere, hn⟩ := Option.ite_none_right_eq_some.mp hn
    cases hn
    exact hthere
  · obtain ⟨s₁, hs₁, rfl⟩ := Option.map_eq_some_iff.mp hn
    obtain ⟨hcreatable, hs₁⟩ := Option.dite_none_right_eq_some.mp hs₁
    cases hs₁
    exact List.mem_append_right _ List.mem_cons_self

theorem ROOT_PATH_no_nul : 0 ∉ ROOT_PATH := by decide

theorem servicePath_no_nul {name : Bytes} (h : 0 ∉ name) : 0 ∉ servicePath name := by
  intro hin
  rcases List.mem_append.mp hin with hin | hin
  · exact ROOT_PATH_no_nul hin
  · exact h ((List.mem_cons.mp hin).resolve_left (by decide))

/-- A decimal number has neither a slash nor a NUL. -/
theorem toString_clean {c : UInt8} (hc : c < 48) (h : c ∉ addr.ip) : c ∉ addr.toString := by
  intro hin
  rcases List.mem_append.mp hin with hin | hin
  · exact h hin
  · rcases List.mem_cons.mp hin with rfl | hin
    · exact absurd hc (by decide)
    · exact not_mem_decimal hc _ hin

theorem address_among_children (hname : 0 ∉ service.serviceName) (hzero : 0 ∉ addr.ip) (hslash : slash ∉ addr.ip)
    (hnode : cStr (service.addressPath addr.toString) ∈ t.paths) :
    addr.toString ∈ t.children (cStr (servicePath service.serviceName)) := by
  have hpath := servicePath_no_nul hname
  rw [RegisteredService.addressPath, cStr_childPath hpath, cStr_eq (toString_clean (by decide) hzero)] at hnode
  rw [cStr_eq hpath, PathTree.mem_children]
  exact ⟨toString_clean (by decide) hslash, hnode⟩

/-! ## What stands in the text of a discovered address -/

theorem mem_ip_of_ofAddr {name : Bytes} {c : UInt8} (h : c ∈ (IPAddress.ofAddr net mem name).ip) : c ∈ name := by
  rw [IPAddress.ofAddr] at h
  split at h
  · exact absurd h List.not_mem_nil
  · exact List.mem_of_mem_take h

/-- The names of nodes have neither a slash nor a NUL, and no address that is made of them has. -/
theorem ip_of_child {path name : Bytes} (h : name ∈ t.children path) :
    slash ∉ (IPAddress.ofAddr net mem name).ip ∧ 0 ∉ (IPAddress.ofAddr net mem name).ip := by
  obtain ⟨hslash, hnode⟩ := PathTree.mem_children.mp h
  refine ⟨fun hin => hslash (mem_ip_of_ofAddr hin), fun hin => t.no_nul _ hnode ?_⟩
  exact List.mem_append_right path (List.mem_cons_of_mem slash (mem_ip_of_ofAddr hin))

/-- A server with one node. -/
def oneNode (path : Bytes) (hslash : slash ∈ path) (hnul : 0 ∉ path) : PathTree where
  paths := [path]
  nodup := List.nodup_singleton path
  named _ hp := List.mem_singleton.mp hp ▸ hslash
  no_nul _ hp := List.mem_singleton.mp hp ▸ hnul

theorem addressPath_slash (service : RegisteredService) (addr : Bytes) :
    slash ∈ cStr (service.addressPath addr) := by
  have hroot : ROOT_PATH = slash :: text "tirpc" := by decide
  rw [RegisteredService.addressPath, servicePath, childPath, childPath, hroot]
  simp only [List.cons_append, cStr]
  rw [List.takeWhile_cons_of_pos (by decide)]
  exact List.mem_cons_self

/-- Where a service has a NUL in its name, its path is that of the address too, and nothing is below it. -/
theorem no_child_of_cut (hname : 0 ∈ service.serviceName) {name : Bytes}
    (hslash : slash ∈ cStr (service.addressPath name)) :
    (oneNode (cStr (service.addressPath name)) hslash (zero_not_mem_cStr _)).children
      (cStr (servicePath service.serviceName)) = [] := by
  have hzero : 0 ∈ servicePath service.serviceName :=
    List.mem_append_right _ (List.mem_cons_of_mem _ hname)
  have hcut : cStr (service.addressPath name) = cStr (servicePath service.serviceName) := cStr_append hzero _
  refine List.eq_nil_iff_forall_not_mem.mpr fun child h => ?_
  have hin := List.mem_singleton.mp (PathTree.mem_children.mp h).2
  have hlen := congrArg List.length (hin.trans hcut)
  simp only [childPath, List.length_append, List.length_cons] at hlen
  omega

/-- On a server that has no other node. -/
theorem plain_of_discovered (h : DiscoveredUnchanged net mem service addr) :
    0 ∉ service.serviceName ∧ 0 ∉ addr.ip ∧ slash ∉ addr.ip := by
  let nodes := oneNode (cStr (service.addressPath addr.toString)) (addressPath_slash _ _) (zero_not_mem_cStr _)
  let strNodes := nodes.children (cStr (servicePath service.serviceName))
  let client : ZkServiceRegister := { work := [.store (servicePath service.serviceName) strNodes false] }
  have hd : client.discovered (servicePath service.serviceName) = some strNodes := if_pos rfl
  obtain ⟨addrs, haddrs, hin⟩ := h nodes {} client _ strNodes (register_creates _ _ _) (List.mem_singleton.mpr rfl)
    (List.Perm.refl _) hd
  rw [ZkServiceRegister.discoveredAddresses, hd] at haddrs
  cases haddrs
  obtain ⟨name, hname, rfl⟩ := List.mem_map.mp hin
  have hclean : slash ∉ (IPAddress.ofAddr net mem name).ip ∧ 0 ∉ (IPAddress.ofAddr net mem name).ip := ip_of_child hname
  obtain ⟨hslash, hzero⟩ := hclean
  refine ⟨fun hin => ?_, hzero, hslash⟩
  rw [show strNodes = [] from no_child_of_cut hin _] at hname
  cases hname

/-! ## All addresses -/

/-- For every service, every text without a colon and every port: the address is discovered unchanged if and only if
neither its text nor the name of the service has a NUL, and its text has no slash. -/
theorem discovered_unchanged_iff (net : NetFunctions) (mem : Uninitialized) (service : RegisteredService)
    (h : (58 : UInt8) ∉ ip) :
    DiscoveredUnchanged net mem service (.ofIp net ip port) ↔ 0 ∉ service.serviceName ∧ 0 ∉ ip ∧ slash ∉ ip := by
  refine ⟨plain_of_discovered, ?_⟩
  rintro ⟨hname, hzero, hslash⟩ nodes server client path strNodes hcreate hnode hperm hd
  cases (register_creates server service _).symm.trans hcreate
  refine ⟨_, by rw [ZkServiceRegister.discoveredAddresses, hd]; rfl, ?_⟩
  have hin : (IPAddress.ofIp net ip port).toString ∈ nodes.children (cStr (servicePath service.serviceName)) :=
    address_among_children hname hzero hslash hnode
  exact List.mem_map.mpr ⟨_, hperm.mem_iff.mpr hin, IPAddress.ofAddr_toString mem h⟩

theorem discovered_unchanged_loopback :
    DiscoveredUnchanged littleEndianNet ⟨0, .inet INADDR_ANY 0⟩ (.protobuf (text "S"))
      (.ofIp littleEndianNet (text "127.0.0.1") 65535) :=
  (discovered_unchanged_iff littleEndianNet _ _ (by decide)).mpr (by decide)

/-! ## A NUL in the text -/

/-- The node of the address has the name `1`, without a colon and a port. -/
theorem nul_not_discovered : (58 : UInt8) ∉ [49, 0, 50] ∧
    cStr ((RegisteredService.protobuf (text "S")).addressPath
      (IPAddress.ofIp littleEndianNet [49, 0, 50] 80).toString) = text "/tirpc/S/1" ∧
    ¬DiscoveredUnchanged littleEndianNet ⟨0, .inet INADDR_ANY 0⟩ (.protobuf (text "S"))
      (.ofIp littleEndianNet [49, 0, 50] 80) :=
  ⟨by decide, by decide, fun h => (plain_of_discovered h).2.1 (by decide)⟩

end Tirpc
