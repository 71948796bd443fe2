import WebServer.Common
import WebServer.Library.Machine

/-
  Sending one response in version 2.0 (`http_conn::write`
  and the file case of `http_conn::process_write`).

  A response is the header in `m_write_buffer` followed by a
  mapped file, described to `writev` by two iovecs. The
  events of a run are the calls of `write()` and the results
  of the `writev` calls inside; `sent` collects the bytes
  the kernel accepted.

  Key definitions include:
    * `HttpConn`
    * `HttpConn.gather`
    * `HttpConn.fileRequest`
    * `HttpConn.advance`
    * `WriteRun.call`
    * `WriteRun.writev`
    * `writeMachine`
-/

------------------------------------------------------------
-- Iovecs And Connections
------------------------------------------------------------

namespace WebServer

namespace V2

/- The two blocks of memory a response is sent from. -/
inductive Region
| writeBuffer
| mapping
deriving DecidableEq, Repr

/- `struct iovec`; its base is an offset into a region. -/
structure Iovec where
  region : Region
  iovBase : Int
  iovLen : Nat
deriving DecidableEq, Repr

/-
  The fields of `http_conn` that sending reads or writes.
  `fileAddress` is the mapped file, `none` for null.
-/
structure HttpConn where
  writeBuffer : Bytes
  writeIdx : Int
  linger : Bool
  fileAddress : Option Bytes
  iv0 : Iovec
  iv1 : Iovec
  ivCount : Nat
  bytesToSend : Int
  bytesHaveSend : Int

/- `WRITE_BUFFER_SIZE`. -/
def writeBufferSize : Nat := 2048

namespace HttpConn

/- The bytes of a region, if it is there. -/
def regionBytes
    (conn : HttpConn) :
    Region → Option Bytes
| .writeBuffer => some conn.writeBuffer
| .mapping => conn.fileAddress

/- An iovec lies inside the region it points into. -/
def Inside
    (conn : HttpConn)
    (iv : Iovec) : Prop :=
  ∃ bytes,
    conn.regionBytes iv.region = some bytes ∧
      0 ≤ iv.iovBase ∧
      iv.iovBase + iv.iovLen ≤ bytes.length

/- The bytes one iovec describes; `none` outside memory. -/
def block
    (conn : HttpConn)
    (iv : Iovec) : Option Bytes := do
  let bytes ← conn.regionBytes iv.region
  if 0 ≤ iv.iovBase ∧
      iv.iovBase + iv.iovLen ≤ bytes.length then
    some ((bytes.drop iv.iovBase.toNat).take iv.iovLen)
  else
    none

/- The iovecs that `m_iv_count` tells the kernel to read. -/
def iovecs
    (conn : HttpConn) : List Iovec :=
  [conn.iv0, conn.iv1].take conn.ivCount

/- The bytes `writev` is asked to send. -/
def gather
    (conn : HttpConn) : Option Bytes := do
  let blocks ← conn.iovecs.mapM conn.block
  some blocks.flatten

/- How many bytes the iovecs describe. -/
def described
    (conn : HttpConn) : Nat :=
  (conn.iovecs.map Iovec.iovLen).sum

/- `unmap()`. -/
def unmap
    (conn : HttpConn) : HttpConn :=
  { conn with fileAddress := none }

/- The private `init()`, on these fields. -/
def init
    (conn : HttpConn) : HttpConn :=
  { conn with
    writeBuffer := List.replicate writeBufferSize 0
    writeIdx := 0
    linger := false
    bytesToSend := 0
    bytesHaveSend := 0 }

end HttpConn

end V2

end WebServer

------------------------------------------------------------
-- One Response
------------------------------------------------------------

namespace WebServer

namespace V2

/-
  A file response ready to be sent: the header fills the
  front of the write buffer.
-/
structure FileResponse where
  writeBuffer : Bytes
  writeIdx : Nat
  file : Bytes
  linger : Bool
  buffer_size : writeBuffer.length = writeBufferSize
  idx_pos : 0 < writeIdx
  idx_le : writeIdx ≤ writeBufferSize

namespace FileResponse

def header
    (r : FileResponse) : Bytes :=
  r.writeBuffer.take r.writeIdx

/- What the client should receive. -/
def bytes
    (r : FileResponse) : Bytes :=
  r.header ++ r.file

@[simp] theorem header_length
    (r : FileResponse) :
    r.header.length = r.writeIdx := by
  have hLe := r.idx_le
  simp [header, r.buffer_size, hLe]

@[simp] theorem bytes_length
    (r : FileResponse) :
    r.bytes.length = r.writeIdx + r.file.length := by
  simp [bytes]

end FileResponse

namespace HttpConn

/-
  The `FILE_REQUEST` case of `process_write`, after the
  header was written. The sum is computed as `off_t` and
  stored in an `int`.
-/
def fileRequest
    (r : FileResponse) : HttpConn where
  writeBuffer := r.writeBuffer
  writeIdx := r.writeIdx
  linger := r.linger
  fileAddress := some r.file
  iv0 := ⟨.writeBuffer, 0, r.writeIdx⟩
  iv1 := ⟨.mapping, 0, r.file.length⟩
  ivCount := 2
  bytesToSend := toInt32 (r.writeIdx + r.file.length)
  bytesHaveSend := 0

/-
  The bookkeeping after a `writev` that returned `tmp`: both
  counters, then the iovecs.
-/
def advance
    (conn : HttpConn)
    (tmp : Int) : Option HttpConn := do
  let bytesHaveSend ← addInt32 conn.bytesHaveSend tmp
  let bytesToSend ← subInt32 conn.bytesToSend tmp
  if conn.iv0.iovLen ≤ toSize bytesHaveSend then
    let offset ← subInt32 bytesHaveSend conn.writeIdx
    some
      { conn with
        bytesHaveSend := bytesHaveSend
        bytesToSend := bytesToSend
        iv0 := { conn.iv0 with iovLen := 0 }
        iv1 := ⟨.mapping, offset, toSize bytesToSend⟩ }
  else
    some
      { conn with
        bytesHaveSend := bytesHaveSend
        bytesToSend := bytesToSend
        iv0 :=
          ⟨.writeBuffer, bytesHaveSend,
            toSize (conn.iv0.iovLen - tmp)⟩ }

end HttpConn

end V2

end WebServer

------------------------------------------------------------
-- Runs Of `write()`
------------------------------------------------------------

namespace WebServer

namespace V2

/-
  Where a response stands: waiting for `EPOLLOUT`, inside
  the loop of `write()`, finished (with the value `write()`
  returned), or given up after an error.
-/
inductive WritePhase
| waiting
| looping
| finished (ret : Bool)
| failed
deriving DecidableEq, Repr

/- What a `writev` call returns. -/
inductive WritevResult
| accepted (n : Nat)
| eagain
| error
deriving DecidableEq, Repr

inductive WriteEvent
| call
| writev (res : WritevResult)
deriving DecidableEq, Repr

structure WriteRun where
  conn : HttpConn
  phase : WritePhase
  sent : Bytes

namespace WriteRun

def init
    (r : FileResponse) : WriteRun where
  conn := HttpConn.fileRequest r
  phase := .waiting
  sent := []

/- Entering `write()`. -/
def call
    (s : WriteRun) : WriteRun :=
  if s.conn.bytesToSend = 0 then
    { s with conn := s.conn.init, phase := .finished true }
  else
    { s with phase := .looping }

/- The end of the response, after the last byte. -/
def finish
    (s : WriteRun) : WriteRun :=
  if s.conn.linger then
    { s with
      conn := s.conn.unmap.init
      phase := .finished true }
  else
    { s with
      conn := s.conn.unmap
      phase := .finished false }

/- One iteration of the loop, given the result of `writev`. -/
def writev
    (s : WriteRun) :
    WritevResult → Option WriteRun
| .eagain => some { s with phase := .waiting }
| .error =>
    some { s with conn := s.conn.unmap, phase := .failed }
| .accepted n => do
    let bytes ← s.conn.gather
    let s := { s with sent := s.sent ++ bytes.take n }
    let tmp := toInt32 n
    if tmp ≤ -1 then
      -- a count past `int` is taken for an error
      some { s with conn := s.conn.unmap, phase := .failed }
    else
      let conn ← s.conn.advance tmp
      if conn.bytesToSend ≤ (0 : Int) then
        some { s with conn := conn }.finish
      else
        some { s with conn := conn }

/- `writev` accepts some of the bytes it was asked to send. -/
def enabled
    (s : WriteRun) :
    WriteEvent → Prop
| .call => s.phase = .waiting
| .writev (.accepted n) =>
    s.phase = .looping ∧ 0 < n ∧ n ≤ s.conn.described
| .writev _ => s.phase = .looping

def step
    (s : WriteRun) :
    WriteEvent → Option WriteRun
| .call => some s.call
| .writev res => s.writev res

end WriteRun

/- Sending as a machine over calls and `writev` results. -/
def writeMachine : Machine WriteRun WriteEvent where
  enabled := WriteRun.enabled
  step := WriteRun.step

end V2

end WebServer
