import Muduo.SizeT
import Muduo.Lib.Window

/-!
# `Buffer` (`Buffer.h`, `Buffer.cpp`)

The vector with its two indices, and the operations as the code computes them: `size_t` sums wrap,
the vector throws above `maxSize`, compaction is `std::copy` inside one vector. The kernel's part in
`readFd` and `writeFd` is an argument: the answer of `::readv` with the bytes it delivered, the
answer of `::write` with the count it took.
-/

namespace Muduo
open Window

abbrev Bytes := List UInt8

/-- An `errno` value. -/
abbrev Errno := Nat

/-- What `::write` answers. -/
inductive WriteResult
  | accepted (n : Nat)
  | error (e : Errno)
deriving DecidableEq, Repr

/-- What `::readv` answers: the bytes it delivered, or an error. -/
inductive ReadResult
  | delivered (data : Bytes)
  | error (e : Errno)
deriving DecidableEq, Repr

/-- What a read adds to the readable bytes. -/
def ReadResult.bytes : ReadResult → Bytes
  | .delivered data => data
  | .error _ => []

/-- The value of `::readv`. -/
def ReadResult.count : ReadResult → Int
  | .delivered data => data.length
  | .error _ => -1

/-- The value of `::write`. -/
def WriteResult.count : WriteResult → Int
  | .accepted n => n
  | .error _ => -1

/-- The kernel takes no more than it was offered. -/
def WriteResult.Legal (offered : Nat) : WriteResult → Prop
  | .accepted n => n ≤ offered
  | .error _ => True

instance (offered : Nat) (r : WriteResult) : Decidable (r.Legal offered) := by
  cases r <;> unfold WriteResult.Legal <;> infer_instance

structure Buffer where
  /-- `m_buffer` -/
  buffer : Bytes
  /-- `m_readerIndex` -/
  readerIndex : Nat
  /-- `m_writerIndex` -/
  writerIndex : Nat
deriving DecidableEq, Repr

namespace Buffer

def kCheapPrepend : Nat := 8
def kInitialSize : Nat := 1024

/-- `kExtraBufSize`: the stack area of `readFd`. -/
def kExtraBufSize : Nat := 65536

/-- The constructor. -/
def new (initialSize : Nat) : Except Fault Buffer :=
  let n := addSize kCheapPrepend initialSize
  if n ≤ maxSize then .ok ⟨List.replicate n 0, kCheapPrepend, kCheapPrepend⟩
  else .error .lengthError

/-- A buffer of the default size, `new kInitialSize`. -/
def initial : Buffer :=
  ⟨List.replicate (kCheapPrepend + kInitialSize) 0, kCheapPrepend, kCheapPrepend⟩

def readableBytes (b : Buffer) : Nat := subSize b.writerIndex b.readerIndex

def writableBytes (b : Buffer) : Nat := subSize b.buffer.length b.writerIndex

def prependableBytes (b : Buffer) : Nat := b.readerIndex

/-- The bytes between the two indices. -/
def readable (b : Buffer) : Bytes := window b.buffer b.readerIndex b.writerIndex

def retrieveAll (b : Buffer) : Buffer :=
  { b with readerIndex := kCheapPrepend, writerIndex := kCheapPrepend }

def retrieve (b : Buffer) (inLen : Nat) : Buffer :=
  if inLen < b.readableBytes then { b with readerIndex := addSize b.readerIndex inLen }
  else b.retrieveAll

/-- `std::string result(peek(), inLen); retrieve(inLen)`. The string is read straight from the
vector, so what bounds it is the end of the vector and not `m_writerIndex`. -/
def retrieveAsString (b : Buffer) (inLen : Nat) : Except Fault (Bytes × Buffer) :=
  if b.readerIndex + inLen ≤ b.buffer.length then
    .ok (window b.buffer b.readerIndex (b.readerIndex + inLen), b.retrieve inLen)
  else .error .outOfBounds

def retrieveAllAsString (b : Buffer) : Except Fault (Bytes × Buffer) :=
  b.retrieveAsString b.readableBytes

/-- `m_buffer.resize(n)`. -/
def resize (b : Buffer) (n : Nat) : Except Fault Buffer :=
  if n ≤ maxSize then
    .ok { b with buffer := b.buffer.take n ++ List.replicate (n - b.buffer.length) 0 }
  else .error .lengthError

/-- The compaction branch of `makeSpace`. -/
def compact (b : Buffer) : Buffer :=
  { buffer := copyWithin b.buffer b.readerIndex kCheapPrepend (b.writerIndex - b.readerIndex)
    readerIndex := kCheapPrepend
    writerIndex := addSize kCheapPrepend b.readableBytes }

def makeSpace (b : Buffer) (inLen : Nat) : Except Fault Buffer :=
  if addSize b.writableBytes b.prependableBytes < addSize inLen kCheapPrepend then
    b.resize (addSize b.writerIndex inLen)
  else .ok b.compact

def ensureWriteableBytes (b : Buffer) (inLen : Nat) : Except Fault Buffer :=
  if b.writableBytes < inLen then b.makeSpace inLen else .ok b

/-- `std::copy(inData, inData + inLen, beginWrite())`. -/
def copyIn (b : Buffer) (inData : Bytes) : Except Fault Buffer :=
  if b.writerIndex + inData.length ≤ b.buffer.length then
    .ok { b with buffer := overwrite b.buffer b.writerIndex inData }
  else .error .outOfBounds

def append (b : Buffer) (inData : Bytes) : Except Fault Buffer := do
  let b ← b.ensureWriteableBytes inData.length
  let b ← b.copyIn inData
  return { b with writerIndex := addSize b.writerIndex inData.length }

/-- The total length of the iovecs `readFd` passes: the vector's free tail and, when that is
shorter than the stack area, the stack area too. -/
def iovecLength (b : Buffer) : Nat :=
  if b.writableBytes < kExtraBufSize then b.writableBytes + kExtraBufSize else b.writableBytes

/-- The part of a delivery that `::readv` put into the stack area. -/
def extraBuf (b : Buffer) (data : Bytes) : Bytes := data.drop b.writableBytes

/-- `readFd` with the value it returns; an error leaves it in `*inSaveErrno`. The kernel fills the
vector's tail before it touches the stack area. -/
def readFd (b : Buffer) : ReadResult → Except Fault (Int × Buffer)
  | .error e => .ok ((ReadResult.error e).count, b)
  | .delivered data => do
    let filled ← b.copyIn (data.take b.writableBytes)
    if data.length ≤ b.writableBytes then
      return (data.length, { filled with writerIndex := addSize b.writerIndex data.length })
    else
      let filled ← { filled with writerIndex := b.buffer.length }.append (b.extraBuf data)
      return (data.length, filled)

/-- The bytes `writeFd` offers to `::write`, or `none` when it returns 0 without calling it. -/
def writeFdOffer (b : Buffer) : Option Bytes :=
  if b.readableBytes = 0 then none else some b.readable

/-- The value `writeFd` returns; the buffer is not touched. -/
def writeFd (b : Buffer) (r : WriteResult) : Int :=
  if b.readableBytes = 0 then 0 else r.count

end Buffer
end Muduo
