import Tirpc.Lib.Numeral
import Tirpc.Lib.Search

/-!
# Addresses of endpoints (`address.cpp`, `endian.hpp`)
-/

namespace Tirpc

open Lib

/-! ## Byte order -/

inductive ByteOrder where
  | littleEndian
  | bigEndian
  deriving DecidableEq, Repr

def bswap16 (x : UInt16) : UInt16 := UInt16.ofNat (x.toNat % 256 * 256 + x.toNat / 256)

def bswap32 (x : UInt32) : UInt32 :=
  UInt32.ofNat (x.toNat % 256 * 16777216 + x.toNat / 256 % 256 * 65536 + x.toNat / 65536 % 256 * 256 +
    x.toNat / 16777216)

/-- The names that are compared. -/
inductive EndianName where
  | SYLAR_BIG_ENDIAN
  | SYLAR_LITTLE_ENDIAN
  deriving DecidableEq, Repr

/-- Neither of them is defined as a macro. -/
def EndianName.definition : EndianName → Option Nat := fun _ => none

/-- In an `#if`, a name that is not defined is 0. -/
def EndianName.ifValue (name : EndianName) : Nat := name.definition.getD 0

def SYLAR_BYTE_ORDER : ByteOrder → EndianName
  | .bigEndian => .SYLAR_BIG_ENDIAN
  | .littleEndian => .SYLAR_LITTLE_ENDIAN

def byteswapOnLittleEndian {T : Type} (host : ByteOrder) (byteswap : T → T) (t : T) : T :=
  if (SYLAR_BYTE_ORDER host).ifValue = EndianName.SYLAR_BIG_ENDIAN.ifValue then t else byteswap t

/-! ## Addresses -/

def AF_INET : Nat := 2

def INADDR_ANY : UInt32 := 0

def INADDR_NONE : UInt32 := 4294967295

/-- `sockaddr_in`, with its integers as the host reads them. -/
structure SockaddrIn where
  sinFamily : Nat
  sinPort : UInt16
  sAddr : UInt32
  sinZero : Bytes
  deriving DecidableEq, Repr

/-- The members that are set behind a `memset`. -/
def SockaddrIn.inet (sAddr : UInt32) (sinPort : UInt16) : SockaddrIn :=
  { sinFamily := AF_INET, sinPort := sinPort, sAddr := sAddr, sinZero := List.replicate 8 0 }

/-- The functions of the C library. -/
structure NetFunctions where
  inetAddr : Bytes → UInt32
  inetNtoa : UInt32 → Bytes
  htons : UInt16 → UInt16
  ntohs : UInt16 → UInt16

/-- `inet_addr` of `c_str()`. -/
def NetFunctions.inetAddrOf (net : NetFunctions) (ip : Bytes) : UInt32 := net.inetAddr (ip.takeWhile (· ≠ 0))

structure IPAddress where
  ip : Bytes
  port : UInt16
  addr : SockaddrIn
  deriving DecidableEq, Repr

/-- What the memory of a new object holds where the constructor leaves it alone. -/
structure Uninitialized where
  port : UInt16
  addr : SockaddrIn

namespace IPAddress

/-- `IPAddress(uint32_t addr, uint16_t port)`. -/
def ofInteger (host : ByteOrder) (mem : Uninitialized) (addr : UInt32) (port : UInt16) : IPAddress :=
  { ip := []
    port := mem.port
    addr := .inet (byteswapOnLittleEndian host bswap32 addr) (byteswapOnLittleEndian host bswap16 port) }

/-- `IPAddress(const std::string &ip, uint16_t port)`. -/
def ofIp (net : NetFunctions) (ip : Bytes) (port : UInt16) : IPAddress :=
  { ip := ip, port := port, addr := .inet (net.inetAddrOf ip) (net.htons port) }

/-- `IPAddress(sockaddr_in addr)`. -/
def ofSockaddr (net : NetFunctions) (addr : SockaddrIn) : IPAddress :=
  { ip := net.inetNtoa addr.sAddr, port := net.ntohs addr.sinPort, addr := addr }

/-- `IPAddress(const std::string &addr)`. The port is cast to 16 bits. -/
def ofAddr (net : NetFunctions) (mem : Uninitialized) (addr : Bytes) : IPAddress :=
  match findFirstOf [58] addr with
  | none => { ip := [], port := mem.port, addr := mem.addr }
  | some i =>
      let ip := addr.take i
      let port := UInt16.ofInt (atoi ((addr.drop (i + 1)).take (addr.length - i - 1)))
      { ip := ip, port := port, addr := .inet (net.inetAddrOf ip) (net.htons port) }

/-- `IPAddress(uint16_t port)`. -/
def ofPort (net : NetFunctions) (port : UInt16) : IPAddress :=
  { ip := [], port := port, addr := .inet INADDR_ANY (net.htons port) }

def toString (a : IPAddress) : Bytes := a.ip ++ 58 :: decimal a.port.toNat

def setPort (net : NetFunctions) (a : IPAddress) (port : UInt16) : IPAddress :=
  { a with port := port, addr := .inet INADDR_ANY (net.htons port) }

/-- The address that the text of an endpoint is read as. -/
theorem ofAddr_toString {net : NetFunctions} (mem : Uninitialized) {a : IPAddress} (h : (58 : UInt8) ∉ a.ip) :
    ofAddr net mem a.toString = ofIp net a.ip a.port := by
  have hfind : findFirstOf [58] a.toString = some a.ip.length := by
    refine findFirstOf_skip (fun c hc hmem => ?_) (List.mem_singleton.mpr rfl) _
    rw [List.mem_singleton.mp hmem] at hc
    exact h hc
  have hport : (a.toString.drop (a.ip.length + 1)).take (a.toString.length - a.ip.length - 1) =
      decimal a.port.toNat := by
    rw [toString, List.drop_length_add_append, List.drop_succ_cons, List.drop_zero]
    refine List.take_of_length_le ?_
    rw [List.length_append, List.length_cons]
    omega
  have hlt : a.port.toNat < 65536 := a.port.toNat_lt
  have hatoi : UInt16.ofInt (atoi (decimal a.port.toNat)) = a.port := by
    rw [atoi_decimal (by omega)]
    have hcast : (UInt16.ofInt (a.port.toNat : Int)).toNat = ((a.port.toNat : Int) % 65536).toNat % 65536 := by
      simp [UInt16.ofInt]
    exact UInt16.toNat_inj.mp (by omega)
  simp only [ofAddr, hfind]
  rw [hport, hatoi, toString, List.take_left]
  rfl

end IPAddress

end Tirpc
