import WebServer.Common

/-
  Reading and writing a non-blocking socket (`net/Util.h`,
  `net/Util.cpp`).

  The results of the system calls to come are data of the
  socket: `reads` and `writes` list them in order. A list
  that has run out stands for a socket with nothing more to
  read, and for one that accepts everything written.

  Key definitions include:
    * `Socket`
    * `Socket.readn`
    * `Socket.writen`
    * `Socket.writenString`
-/

------------------------------------------------------------
-- Sockets
------------------------------------------------------------

namespace WebServer

namespace V3

/- `MAX_BUFF`, the most that one `read` returns. -/
def maxBuff : Nat := 4096

/-
  One `read` call: some bytes (none at the end of the
  stream), or an error.
-/
inductive ReadResult
| data (bytes : Bytes)
| eintr
| eagain
| error
deriving DecidableEq, Repr

/- One `write` call: a count, or an error. -/
inductive WriteResult
| accepted (n : Nat)
| eintr
| eagain
| error
deriving DecidableEq, Repr

/- `sent` collects the bytes the kernel accepted. -/
structure Socket where
  reads : List ReadResult
  writes : List WriteResult
  sent : Bytes
deriving DecidableEq, Repr

/- The bytes a `read` call brings. -/
def ReadResult.bytes :
    ReadResult → Bytes
| .data bytes => bytes
| _ => []

/- The bytes of the `read` calls to come. -/
def Socket.pending
    (socket : Socket) : Bytes :=
  socket.reads.flatMap ReadResult.bytes

end V3

end WebServer

------------------------------------------------------------
-- Reading
------------------------------------------------------------

namespace WebServer

namespace V3

/- What `readn` leaves behind. -/
structure ReadnResult where
  readNum : Int
  inBuffer : Bytes
  zero : Bool
  reads : List ReadResult
deriving DecidableEq, Repr

/- The loop of `readn`, at its local variable `readSum`. -/
def readnLoop :
    List ReadResult → Bytes → Nat → ReadnResult
| [], inBuffer, readSum => ⟨readSum, inBuffer, false, []⟩
| .eintr :: reads, inBuffer, readSum =>
    readnLoop reads inBuffer readSum
| .eagain :: reads, inBuffer, readSum =>
    ⟨readSum, inBuffer, false, reads⟩
| .error :: reads, inBuffer, _ =>
    ⟨-1, inBuffer, false, reads⟩
| .data bytes :: reads, inBuffer, readSum =>
    if bytes = [] then
      ⟨readSum, inBuffer, true, reads⟩
    else
      readnLoop reads (inBuffer ++ bytes)
        (readSum + bytes.length)

/- `readn(fd, inBuffer, zero)`. -/
def Socket.readn
    (socket : Socket)
    (inBuffer : Bytes) : ReadnResult :=
  readnLoop socket.reads inBuffer 0

end V3

end WebServer

------------------------------------------------------------
-- Writing
------------------------------------------------------------

namespace WebServer

namespace V3

/- What the loop of `writen` leaves behind. -/
structure WritenResult where
  writeSum : Nat
  failed : Bool
  writes : List WriteResult
deriving DecidableEq, Repr

/- The loop of both `writen` functions on what is left. -/
def writenLoop :
    List WriteResult → Bytes → WritenResult
| [], left => ⟨left.length, false, []⟩
| w :: writes, left =>
    if left = [] then
      ⟨0, false, w :: writes⟩
    else
      match w with
      | .accepted n =>
          let n := min n left.length
          let rest := writenLoop writes (left.drop n)
          { rest with writeSum := n + rest.writeSum }
      | .eintr => writenLoop writes left
      | .eagain => ⟨0, false, writes⟩
      | .error => ⟨0, true, writes⟩

/- `writen(fd, buff, n)`. -/
def Socket.writen
    (socket : Socket)
    (buff : Bytes) : Socket :=
  let result := writenLoop socket.writes buff
  { socket with
    writes := result.writes
    sent := socket.sent ++ buff.take result.writeSum }

/-
  `writen(fd, sbuff)`: the new string, and whether the call
  returned -1. The string is not cut after a failure.
-/
def Socket.writenString
    (socket : Socket)
    (sbuff : Bytes) : Socket × Bytes × Bool :=
  let result := writenLoop socket.writes sbuff
  let socket :=
    { socket with
      writes := result.writes
      sent := socket.sent ++ sbuff.take result.writeSum }
  if result.failed then
    (socket, sbuff, true)
  else if (result.writeSum : Int) = toInt32 sbuff.length then
    (socket, [], false)
  else
    (socket, sbuff.drop result.writeSum, false)

end V3

end WebServer
