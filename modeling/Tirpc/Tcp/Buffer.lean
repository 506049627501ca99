import Tirpc.Lib.Bytes

/-!
# The byte buffer of a connection (`tcp_buffer.cpp`)

A vector and two indices. An operation whose memory access would leave the vector, or that would
build a vector of negative size, has no result.
-/

namespace Tirpc

open Lib

structure TcpBuffer where
  buffer : Bytes
  readIndex : Int := 0
  writeIndex : Int := 0
  deriving DecidableEq, Repr

namespace TcpBuffer

def new (size : Nat) : TcpBuffer := { buffer := List.replicate size 0 }

def readable (b : TcpBuffer) : Int := b.writeIndex - b.readIndex

def getSize (b : TcpBuffer) : Int := b.buffer.length

def writeable (b : TcpBuffer) : Int := b.getSize - b.writeIndex

def resizeBuffer (b : TcpBuffer) (size : Int) : Option TcpBuffer :=
  if size < 0 then none
  else
    let c := min size b.readable
    (readRange b.buffer b.readIndex c).map fun bytes =>
      { buffer := bytes ++ List.replicate (size - c).toNat 0, readIndex := 0, writeIndex := c }

/-- `static_cast<int>(1.5 * n)`: the product is exact, the cast drops the fraction, and a product
beyond the range of `int` becomes the least `int`. -/
def growSize (n : Int) : Int :=
  let x := (3 * n).tdiv 2
  if IsInt32 x then x else -2147483648

def writeToBuffer (b : TcpBuffer) (buf : Bytes) : Option TcpBuffer :=
  let size := wrap32 buf.length
  let grown := if size > b.writeable then b.resizeBuffer (growSize (wrap32 (b.writeIndex + size))) else some b
  grown.bind fun b =>
    if size < 0 then none
    else
      (writeRange b.buffer b.writeIndex (buf.take size.toNat)).map fun v =>
        { b with buffer := v, writeIndex := b.writeIndex + size }

/-- Compaction: the readable bytes move to the front of a fresh vector of the same size once more
than a third of the vector has been read. -/
def adjustBuffer (b : TcpBuffer) : Option TcpBuffer :=
  if b.readIndex > (b.buffer.length / 3 : Nat) then
    (readRange b.buffer b.readIndex b.readable).map fun bytes =>
      { buffer := bytes ++ List.replicate (b.buffer.length - bytes.length) 0
        readIndex := 0, writeIndex := b.readable }
  else some b

def readFromBuffer (b : TcpBuffer) (re : Bytes) (size : Int) : Option (Bytes × TcpBuffer) :=
  if b.readable = 0 then some (re, b)
  else
    let readSize := if b.readable > size then size else b.readable
    (readRange b.buffer b.readIndex readSize).bind fun tmp =>
      ({ b with readIndex := b.readIndex + readSize }.adjustBuffer).map fun b' => (tmp, b')

def clearBuffer (_ : TcpBuffer) : TcpBuffer := { buffer := [] }

/-- Past the end of the vector the request is logged and dropped; nothing checks the lower end. -/
def recycleRead (b : TcpBuffer) (index : Int) : Option TcpBuffer :=
  let j := wrap32 (b.readIndex + index)
  if j > b.getSize then some b else { b with readIndex := j }.adjustBuffer

def recycleWrite (b : TcpBuffer) (index : Int) : Option TcpBuffer :=
  let j := wrap32 (b.writeIndex + index)
  if j > b.getSize then some b else { b with writeIndex := j }.adjustBuffer

def getBufferString (b : TcpBuffer) : Option Bytes := readRange b.buffer b.readIndex b.readable

/-- The kernel stores received bytes at the write index, as `recv` does with `&buffer_[write_index]`. -/
def fill (b : TcpBuffer) (bytes : Bytes) : Option TcpBuffer :=
  (writeRange b.buffer b.writeIndex bytes).map fun v => { b with buffer := v }

/-! ## The queue that a buffer stands for -/

/-- The indices are in order and inside a vector whose size is an `int`. -/
structure Valid (b : TcpBuffer) : Prop where
  read_nonneg : 0 ≤ b.readIndex
  read_le_write : b.readIndex ≤ b.writeIndex
  write_le_size : b.writeIndex ≤ b.buffer.length
  size_lt : b.buffer.length < 2147483648

instance (b : TcpBuffer) : Decidable b.Valid :=
  decidable_of_iff (0 ≤ b.readIndex ∧ b.readIndex ≤ b.writeIndex ∧
    b.writeIndex ≤ b.buffer.length ∧ b.buffer.length < 2147483648)
    ⟨fun ⟨h1, h2, h3, h4⟩ => ⟨h1, h2, h3, h4⟩, fun ⟨h1, h2, h3, h4⟩ => ⟨h1, h2, h3, h4⟩⟩

def content (b : TcpBuffer) : Bytes := window b.buffer b.readIndex b.writeIndex

/-- The buffer is in order and its readable bytes are `q`. -/
structure Holds (b : TcpBuffer) (q : Bytes) : Prop where
  valid : b.Valid
  content_eq : b.content = q

end TcpBuffer

end Tirpc
