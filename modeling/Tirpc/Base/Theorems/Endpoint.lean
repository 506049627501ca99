import Tirpc.Base.Lemmas.Inet

/-!
# The two views of an endpoint

The text that is printed and registered, against the socket address that is bound and connected to.
-/

namespace Tirpc

open Lib

/-- What the C library promises on a little-endian host. The text `""` is no address. -/
structure LittleEndianLaws (net : NetFunctions) : Prop where
  inverse : ∀ a, net.inetAddr (net.inetNtoa a) = a
  noNul : ∀ a, (0 : UInt8) ∉ net.inetNtoa a
  notEmpty : ∀ a, net.inetNtoa a ≠ []
  refusesEmpty : net.inetAddr [] = INADDR_NONE
  htons : net.htons = bswap16
  ntohs : net.ntohs = bswap16

/-- The text is read as this address. What `INADDR_NONE` stands for is a refusal, unless it is meant. -/
def Denotes (net : NetFunctions) (ip : Bytes) (sAddr : UInt32) : Prop :=
  net.inetAddrOf ip = sAddr ∧ (sAddr = INADDR_NONE → ip = net.inetNtoa sAddr)

/-- The text is an address. -/
def IsAddress (net : NetFunctions) (ip : Bytes) : Prop :=
  net.inetAddrOf ip = INADDR_NONE → ip = net.inetNtoa INADDR_NONE

structure Describes (net : NetFunctions) (a : IPAddress) : Prop where
  ip : Denotes net a.ip a.addr.sAddr
  port : net.ntohs a.addr.sinPort = a.port

/-- The constructors. -/
inductive AddressBuild where
  | fromInteger (mem : Uninitialized) (addr : UInt32) (port : UInt16)
  | fromIp (ip : Bytes) (port : UInt16)
  | fromSockaddr (addr : SockaddrIn)
  | fromAddr (mem : Uninitialized) (addr : Bytes)
  | fromPort (port : UInt16)

namespace AddressBuild

def object (host : ByteOrder) (net : NetFunctions) : AddressBuild → IPAddress
  | .fromInteger mem addr port => .ofInteger host mem addr port
  | .fromIp ip port => .ofIp net ip port
  | .fromSockaddr addr => .ofSockaddr net addr
  | .fromAddr mem addr => .ofAddr net mem addr
  | .fromPort port => .ofPort net port

/-- The text of an endpoint is known to the constructor, and is an address. -/
def HasText (net : NetFunctions) : AddressBuild → Prop
  | .fromInteger .. | .fromPort _ => False
  | .fromIp ip _ => IsAddress net ip
  | .fromSockaddr _ => True
  | .fromAddr _ addr => ∃ i, findFirstOf [58] addr = some i ∧ IsAddress net (addr.take i)

/-- The address is the one of all interfaces. -/
def OfAny (net : NetFunctions) : AddressBuild → Prop
  | .fromInteger .. | .fromPort _ => False
  | .fromIp ip _ => net.inetAddrOf ip = INADDR_ANY
  | .fromSockaddr addr => addr.sAddr = INADDR_ANY
  | .fromAddr _ addr => ∃ i, findFirstOf [58] addr = some i ∧ net.inetAddrOf (addr.take i) = INADDR_ANY

end AddressBuild

/-- In every state of an object that is built and then told some ports, the views agree. -/
def ViewsAgree (net : NetFunctions) (build : AddressBuild) (ports : List UInt16) : Prop :=
  ∀ k ≤ ports.length, Describes net ((ports.take k).foldl (IPAddress.setPort net) (build.object .littleEndian net))

/-- The integer and the text of one endpoint lead to the same socket address. -/
def SameSocket (net : NetFunctions) (mem : Uninitialized) (addr : UInt32) (port : UInt16) : Prop :=
  (IPAddress.ofInteger .littleEndian mem addr port).addr = (IPAddress.ofIp net (net.inetNtoa (bswap32 addr)) port).addr

variable {net : NetFunctions} {a : IPAddress} {ports : List UInt16}

/-! ## One object -/

namespace LittleEndianLaws

variable (h : LittleEndianLaws net)

include h

theorem ntohs_htons (port : UInt16) : net.ntohs (net.htons port) = port := by
  rw [h.htons, h.ntohs, bswap16_bswap16]

theorem inetAddrOf_inetNtoa (a : UInt32) : net.inetAddrOf (net.inetNtoa a) = a := by
  have hcut : (net.inetNtoa a).takeWhile (· ≠ 0) = net.inetNtoa a :=
    List.takeWhile_eq_self_iff.mpr fun c hc => decide_eq_true fun he => h.noNul a (he ▸ hc)
  rw [NetFunctions.inetAddrOf, hcut, h.inverse]

/-- An object without text. -/
theorem not_describes (hip : a.ip = []) : ¬Describes net a := by
  rintro ⟨⟨haddr, hnone⟩, -⟩
  rw [hip, NetFunctions.inetAddrOf, List.takeWhile_nil, h.refusesEmpty] at haddr
  exact h.notEmpty _ ((hnone haddr.symm).symm.trans hip)

/-- What the text constructors make. -/
theorem describes_ofIp (ip : Bytes) (port : UInt16) : Describes net (.ofIp net ip port) ↔ IsAddress net ip := by
  refine ⟨fun hd hnone => ?_, fun hacc => ⟨⟨rfl, fun hnone => ?_⟩, h.ntohs_htons port⟩⟩
  · have htext := hd.ip.2 hnone
    rwa [show (IPAddress.ofIp net ip port).addr.sAddr = INADDR_NONE from hnone] at htext
  · rw [show (IPAddress.ofIp net ip port).addr.sAddr = INADDR_NONE from hnone]
    exact hacc hnone

omit h in
theorem ofAddr_some {i : Nat} {addr : Bytes} (mem : Uninitialized) (hi : findFirstOf [58] addr = some i) :
    ∃ port, IPAddress.ofAddr net mem addr = .ofIp net (addr.take i) port := by
  simp only [IPAddress.ofAddr, hi]
  exact ⟨_, rfl⟩

theorem describes_object (build : AddressBuild) :
    Describes net (build.object .littleEndian net) ↔ build.HasText net := by
  cases build with
  | fromInteger mem addr port => exact iff_of_false (h.not_describes rfl) id
  | fromPort port => exact iff_of_false (h.not_describes rfl) id
  | fromIp ip port => exact h.describes_ofIp ip port
  | fromSockaddr addr =>
      exact iff_of_true ⟨⟨h.inetAddrOf_inetNtoa _, fun _ => rfl⟩, rfl⟩ trivial
  | fromAddr mem addr =>
      simp only [AddressBuild.HasText, AddressBuild.object]
      cases hi : findFirstOf [58] addr with
      | none =>
          have hip : (IPAddress.ofAddr net mem addr).ip = [] := by simp only [IPAddress.ofAddr, hi]
          exact iff_of_false (h.not_describes hip) (by rintro ⟨_, he, -⟩; cases he)
      | some i =>
          obtain ⟨port, hobj⟩ := ofAddr_some mem hi
          rw [hobj, h.describes_ofIp]
          refine ⟨fun hacc => ⟨i, rfl, hacc⟩, ?_⟩
          rintro ⟨j, hj, hacc⟩
          cases hj
          exact hacc

/-- The text of the object, once its socket address has become the one of all interfaces. -/
theorem inetAddrOf_object (build : AddressBuild) :
    net.inetAddrOf (build.object .littleEndian net).ip = INADDR_ANY ↔ build.OfAny net := by
  have hempty : net.inetAddrOf [] ≠ INADDR_ANY := by
    rw [NetFunctions.inetAddrOf, List.takeWhile_nil, h.refusesEmpty]
    decide
  cases build with
  | fromInteger mem addr port => exact iff_of_false hempty id
  | fromPort port => exact iff_of_false hempty id
  | fromIp ip port => exact Iff.rfl
  | fromSockaddr addr =>
      simp only [AddressBuild.object, AddressBuild.OfAny, IPAddress.ofSockaddr, h.inetAddrOf_inetNtoa]
  | fromAddr mem addr =>
      simp only [AddressBuild.OfAny, AddressBuild.object]
      cases hi : findFirstOf [58] addr with
      | none =>
          have hip : (IPAddress.ofAddr net mem addr).ip = [] := by simp only [IPAddress.ofAddr, hi]
          rw [hip]
          exact iff_of_false hempty (by rintro ⟨_, he, -⟩; cases he)
      | some i =>
          obtain ⟨port, hobj⟩ := ofAddr_some mem hi
          rw [hobj]
          refine ⟨fun hany => ⟨i, rfl, hany⟩, ?_⟩
          rintro ⟨j, hj, hany⟩
          cases hj
          exact hany

/-! ## Ports -/

theorem describes_setPort (a : IPAddress) (port : UInt16) :
    Describes net (a.setPort net port) ↔ net.inetAddrOf a.ip = INADDR_ANY := by
  refine ⟨fun hd => hd.ip.1, fun hany => ⟨⟨hany, fun hnone => ?_⟩, h.ntohs_htons port⟩⟩
  exact absurd (show INADDR_ANY = INADDR_NONE from hnone) (by decide)

omit h in
theorem foldl_setPort_ip (ports : List UInt16) (a : IPAddress) :
    (ports.foldl (IPAddress.setPort net) a).ip = a.ip := by
  induction ports generalizing a with
  | nil => rfl
  | cons port ports ih => exact ih (a.setPort net port)

theorem describes_foldl (a : IPAddress) (hne : ports ≠ []) :
    Describes net (ports.foldl (IPAddress.setPort net) a) ↔ net.inetAddrOf a.ip = INADDR_ANY := by
  rw [← List.dropLast_append_getLast hne, List.foldl_append, List.foldl_cons, List.foldl_nil, h.describes_setPort,
    foldl_setPort_ip]

theorem viewsAgree_iff (build : AddressBuild) (ports : List UInt16) :
    ViewsAgree net build ports ↔ build.HasText net ∧ (ports = [] ∨ build.OfAny net) := by
  constructor
  · intro hall
    refine ⟨(h.describes_object build).mp (hall 0 (Nat.zero_le _)), ?_⟩
    by_cases hports : ports = []
    · exact .inl hports
    · have hlast := hall ports.length (Nat.le_refl _)
      rw [List.take_length, h.describes_foldl _ hports] at hlast
      exact .inr ((h.inetAddrOf_object build).mp hlast)
  · rintro ⟨htext, hports⟩ k -
    by_cases hk : ports.take k = []
    · rw [hk]
      exact (h.describes_object build).mpr htext
    · rcases hports with rfl | hany
      · exact absurd List.take_nil hk
      · exact (h.describes_foldl _ hk).mpr ((h.inetAddrOf_object build).mpr hany)

/-! ## Two constructors -/

omit h in
/-- The condition in `endian.hpp` compares 0 with 0, so that nothing is swapped on any host. -/
theorem byteswapOnLittleEndian_eq {T : Type} (host : ByteOrder) (byteswap : T → T) (t : T) :
    byteswapOnLittleEndian host byteswap t = t := by
  cases host <;> rfl

theorem sameSocket_iff (mem : Uninitialized) (addr : UInt32) (port : UInt16) :
    SameSocket net mem addr port ↔ bswap32 addr = addr ∧ bswap16 port = port := by
  simp only [SameSocket, IPAddress.ofInteger, IPAddress.ofIp, SockaddrIn.inet, byteswapOnLittleEndian_eq,
    h.inetAddrOf_inetNtoa, h.htons, SockaddrIn.mk.injEq, true_and, and_true]
  exact ⟨fun ⟨hport, haddr⟩ => ⟨haddr.symm, hport.symm⟩, fun ⟨haddr, hport⟩ => ⟨hport.symm, haddr.symm⟩⟩

end LittleEndianLaws

theorem littleEndianNet_laws : LittleEndianLaws littleEndianNet where
  inverse := inetAddr_inetNtoa
  noNul := inetNtoa_no_zero
  notEmpty := inetNtoa_ne_nil
  refusesEmpty := inetAddr_nil
  htons := rfl
  ntohs := rfl

/-- Which objects print the endpoint that they bind, and for which endpoints two constructors agree. -/
theorem address_views_iff (h : LittleEndianLaws net) (build : AddressBuild) (ports : List UInt16) (mem : Uninitialized)
    (addr : UInt32) (port : UInt16) : ViewsAgree net build ports ∧ SameSocket net mem addr port ↔
      (build.HasText net ∧ (ports = [] ∨ build.OfAny net)) ∧ bswap32 addr = addr ∧ bswap16 port = port :=
  and_congr (h.viewsAgree_iff build ports) (h.sameSocket_iff mem addr port)

/-- A server on all interfaces, which is given its port later; and an endpoint that reads the same from both ends. -/
theorem address_views_any : ViewsAgree littleEndianNet (.fromIp (text "0.0.0.0") 80) [8080] ∧
    SameSocket littleEndianNet ⟨0, .inet INADDR_ANY 0⟩ 16777217 257 := by
  refine (address_views_iff littleEndianNet_laws _ _ _ _ _).mpr ⟨⟨?_, .inr ?_⟩, by decide, by decide⟩
  · exact fun hnone => absurd hnone (by decide +kernel)
  · show inetAddr _ = INADDR_ANY
    decide +kernel

/-- A server on all interfaces is registered as `:8080`, and 127.0.0.1 given as an integer is bound as 1.0.0.127. -/
theorem address_views_differ : (IPAddress.ofPort littleEndianNet 8080).toString = text ":8080" ∧
    ¬ViewsAgree littleEndianNet (.fromPort 8080) [] ∧
    ¬SameSocket littleEndianNet ⟨0, .inet INADDR_ANY 0⟩ 2130706433 8080 := by
  refine ⟨by decide, fun h => ?_, fun h => ?_⟩
  · exact ((littleEndianNet_laws.viewsAgree_iff _ _).mp h).1
  · exact absurd ((littleEndianNet_laws.sameSocket_iff _ _ _).mp h) (by decide)

end Tirpc
