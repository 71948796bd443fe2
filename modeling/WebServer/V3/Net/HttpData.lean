import Mathlib.Logic.Function.Basic
import WebServer.Library.StdString
import WebServer.V3.Net.Socket
import WebServer.V3.Net.Timer

/-
  One connection of version 3.0 (`net/HttpData.h`,
  `net/Channel.h`, and the small functions of
  `net/HttpData.cpp`).

  A handler of a connection runs on a `Conn`: the `HttpData`
  object, its channel, its socket and the timers of its
  loop. Counts and positions that the source keeps in `int`
  are narrowed where it narrows them. `trace` records which
  requests were analysed and which errors were answered.

  Key definitions include:
    * `HttpData`
    * `Channel`
    * `Conn`
    * `Conn.reset`
    * `Conn.handleWrite`
    * `Conn.handleError`
-/

------------------------------------------------------------
-- States Of A Connection
------------------------------------------------------------

namespace WebServer

namespace V3

inductive ProcessState
| parseUri
| parseHeaders
| recvBody
| analysis
| finish
deriving DecidableEq, Repr

inductive UriState
| again
| error
| success
deriving DecidableEq, Repr

inductive HeaderState
| success
| again
| error
deriving DecidableEq, Repr

inductive AnalysisState
| success
| error
deriving DecidableEq, Repr

inductive ParseState
| start
| key
| colon
| spacesAfterColon
| value
| cr
| lf
| endCr
| endLf
deriving DecidableEq, Repr

inductive ConnectionState
| connected
| disconnecting
| disconnected
deriving DecidableEq, Repr

inductive HttpMethod
| post
| get
| head
deriving DecidableEq, Repr

inductive HttpVersion
| http10
| http11
deriving DecidableEq, Repr

/- `headers_`, as the lookup it answers. -/
abbrev Headers := Bytes → Option Bytes

/- The fields of an `HttpData` object. -/
structure HttpData where
  inBuffer : Bytes
  outBuffer : Bytes
  error : Bool
  connectionState : ConnectionState
  method : HttpMethod
  httpVersion : HttpVersion
  fileName : Bytes
  nowReadPos : Nat
  state : ProcessState
  hState : ParseState
  keepAlive : Bool
  headers : Headers
  timer : Option TimerAddr

/- The constructor. -/
def HttpData.new : HttpData where
  inBuffer := []
  outBuffer := []
  error := false
  connectionState := .connected
  method := .get
  httpVersion := .http11
  fileName := []
  nowReadPos := 0
  state := .parseUri
  hState := .start
  keepAlive := false
  headers := fun _ => none
  timer := none

end V3

end WebServer

------------------------------------------------------------
-- Channels
------------------------------------------------------------

namespace WebServer

namespace V3

/- A set of epoll event bits. -/
structure Events where
  epollIn : Bool
  epollPri : Bool
  epollOut : Bool
  epollErr : Bool
  epollHup : Bool
  epollRdHup : Bool
  epollEt : Bool
  epollOneShot : Bool
deriving DecidableEq, Repr

/- The empty set. -/
def Events.none : Events :=
  ⟨false, false, false, false, false, false, false, false⟩

/- `events_` and `lastEvents_` of a channel. -/
structure Channel where
  events : Events
  lastEvents : Events
deriving DecidableEq, Repr

def Channel.new : Channel where
  events := .none
  lastEvents := .none

def Channel.setEvents
    (channel : Channel)
    (events : Events) : Channel :=
  { channel with events := events }

/- `equalAndUpdateLastEvents()`. -/
def Channel.equalAndUpdateLastEvents
    (channel : Channel) : Bool × Channel :=
  (channel.lastEvents = channel.events,
    { channel with lastEvents := channel.events })

end V3

end WebServer

------------------------------------------------------------
-- Connections
------------------------------------------------------------

namespace WebServer

namespace V3

/- What a handler did, for the record. -/
inductive TraceEvent
| analysisRequest
    (method : HttpMethod)
    (fileName : Bytes)
    (version : HttpVersion)
    (headers : Headers)
| handleError (errNum : Nat) (shortMsg : Bytes)

/- What the handlers of one connection work on. -/
structure Conn where
  http : HttpData
  channel : Channel
  socket : Socket
  timers : TimerManager
  trace : List TraceEvent

namespace Conn

/- A new connection on a socket. -/
def new
    (socket : Socket) : Conn where
  http := .new
  channel := .new
  socket := socket
  timers := .new
  trace := []

/- `events_ |= EPOLLIN`. -/
def addEpollIn
    (c : Conn) : Conn :=
  { c with
    channel :=
      c.channel.setEvents
        { c.channel.events with epollIn := true } }

/- `events_ |= EPOLLOUT`. -/
def addEpollOut
    (c : Conn) : Conn :=
  { c with
    channel :=
      c.channel.setEvents
        { c.channel.events with epollOut := true } }

/-
  `seperateTimer()`: `timer_.lock()` succeeds while the
  queue still holds the node.
-/
def seperateTimer
    (c : Conn) : Conn :=
  match c.http.timer with
  | none => c
  | some addr =>
      if c.timers.holds addr then
        { c with
          http := { c.http with timer := none }
          timers := c.timers.clearReq addr }
      else
        c

/- `reset()`. -/
def reset
    (c : Conn) : Conn :=
  { c with
    http :=
      { c.http with
        fileName := []
        nowReadPos := 0
        state := .parseUri
        hState := .start
        headers := fun _ => none } }.seperateTimer

/- `handleWrite()`. -/
def handleWrite
    (c : Conn) : Conn :=
  if !c.http.error ∧
      c.http.connectionState ≠ .disconnected then
    let (socket, outBuffer, failed) :=
      c.socket.writenString c.http.outBuffer
    let c :=
      { c with
        socket := socket
        http := { c.http with outBuffer := outBuffer } }
    let c :=
      if failed then
        { c with
          channel := c.channel.setEvents .none
          http := { c.http with error := true } }
      else
        c
    if c.http.outBuffer ≠ [] then c.addEpollOut else c
  else
    c

/- The body that `handleError` sends. -/
def errorBody
    (errNum : Nat)
    (shortMsg : Bytes) : Bytes :=
  utf8 "<html><title>哎~出错了</title>" ++
    utf8 "<body bgcolor=\"ffffff\">" ++
    utf8 (toString errNum) ++ utf8 " " ++ shortMsg ++
    utf8 "<hr><em> LinYa's Web Server</em>\n</body></html>"

/- The header that `handleError` sends. -/
def errorHeader
    (errNum : Nat)
    (shortMsg : Bytes) : Bytes :=
  utf8 "HTTP/1.1 " ++ utf8 (toString errNum) ++
    utf8 " " ++ shortMsg ++ utf8 "\r\n" ++
    utf8 "Content-Type: text/html\r\n" ++
    utf8 "Connection: Close\r\n" ++
    utf8 "Content-Length: " ++
    utf8 (toString (errorBody errNum shortMsg).length) ++
    utf8 "\r\n" ++
    utf8 "Server: LinYa's Web Server\r\n" ++
    utf8 "\r\n"

/-
  `handleError(fd, err_num, short_msg)`. The results of both
  writes are ignored.
-/
def handleError
    (c : Conn)
    (errNum : Nat)
    (shortMsg : Bytes) : Conn :=
  { c with
    socket :=
      (c.socket.writen (errorHeader errNum shortMsg)).writen
        (errorBody errNum shortMsg)
    trace := c.trace ++ [.handleError errNum shortMsg] }

/- `error_ = true; handleError(fd_, err_num, short_msg)`. -/
def failWith
    (c : Conn)
    (errNum : Nat)
    (shortMsg : Bytes) : Conn :=
  { c with
    http := { c.http with error := true } }.handleError
      errNum shortMsg

end Conn

end V3

end WebServer
