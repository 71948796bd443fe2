import WebServer.V3.Net.AnalysisRequest
import WebServer.V3.Net.ParseHeaders
import WebServer.V3.Net.ParseURI

/-
  Handling a readable event in version 3.0
  (`HttpData::handleRead`).

  The body of `do { ... } while (false)` is cut into its
  stages; each stage goes on to the next or breaks off. The
  rest of the function sends what is pending and may call
  `handleRead` again for a pipelined request.

  Key definitions include:
    * `Flow`
    * `Conn.readStage`
    * `Conn.uriStage`
    * `Conn.headerStage`
    * `Conn.bodyStage`
    * `Conn.analysisStage`
    * `Conn.pass`
    * `Conn.handleRead`
-/

------------------------------------------------------------
-- Stages
------------------------------------------------------------

namespace WebServer

namespace V3

open StdString

/- How a stage ends: with the next stage or with `break`. -/
inductive Flow
| go (c : Conn)
| brk (c : Conn)

namespace Flow

def conn :
    Flow → Conn
| .go c => c
| .brk c => c

/- Run the next stage unless a stage broke off. -/
def andThen
    (flow : Flow)
    (stage : Conn → Except Fault Flow) :
    Except Fault Flow :=
  match flow with
  | .go c => stage c
  | .brk c => .ok (.brk c)

end Flow

namespace Conn

/- Read what has arrived. -/
def readStage
    (c : Conn) : Flow :=
  let result := c.socket.readn c.http.inBuffer
  let readNum := toInt32 result.readNum
  let c :=
    { c with
      socket := { c.socket with reads := result.reads }
      http := { c.http with inBuffer := result.inBuffer } }
  if c.http.connectionState = .disconnecting then
    .brk { c with http := { c.http with inBuffer := [] } }
  else if readNum < 0 then
    .brk (c.failWith 400 (utf8 "Bad Request"))
  else if result.zero then
    let c :=
      { c with
        http :=
          { c.http with connectionState := .disconnecting } }
    if readNum = 0 then .brk c else .go c
  else
    .go c

/- Parse the request line. -/
def uriStage
    (c : Conn) : Except Fault Flow :=
  if c.http.state = .parseUri then do
    let (flag, http) ← c.http.parseURI
    let c := { c with http := http }
    match flag with
    | .again => .ok (.brk c)
    | .error =>
        .ok
          (.brk
            ({ c with
                http := { c.http with inBuffer := [] } }.failWith
              400 (utf8 "Bad Request")))
    | .success =>
        .ok
          (.go
            { c with
              http := { c.http with state := .parseHeaders } })
  else
    .ok (.go c)

/- Parse the header lines. -/
def headerStage
    (c : Conn) : Except Fault Flow :=
  if c.http.state = .parseHeaders then do
    let (flag, http) ← c.http.parseHeaders
    let c := { c with http := http }
    match flag with
    | .again => .ok (.brk c)
    | .error =>
        .ok (.brk (c.failWith 400 (utf8 "Bad Request")))
    | .success =>
        let state :=
          if c.http.method = .post then
            ProcessState.recvBody
          else
            ProcessState.analysis
        .ok
          (.go { c with http := { c.http with state := state } })
  else
    .ok (.go c)

/- The text of the reply to a body without a length. -/
def lackOfArgument : Bytes :=
  utf8 "Bad Request: Lack of argument (Content-length)"

/- Wait for the body of a `POST` request. -/
def bodyStage
    (c : Conn) : Except Fault Flow :=
  if c.http.state = .recvBody then
    match c.http.headers (utf8 "Content-length") with
    | none => .ok (.brk (c.failWith 400 lackOfArgument))
    | some value => do
        let contentLength ← stoi value
        if toInt32 c.http.inBuffer.length < contentLength then
          .ok (.brk c)
        else
          .ok
            (.go
              { c with
                http := { c.http with state := .analysis } })
  else
    .ok (.go c)

/- Answer the request. -/
def analysisStage
    (c : Conn)
    (fs : FileSystem) : Except Fault Flow :=
  if c.http.state = .analysis then do
    let (flag, c) ← c.analysisRequest fs
    match flag with
    | .success =>
        .ok
          (.brk
            { c with http := { c.http with state := .finish } })
    | .error =>
        .ok
          (.brk { c with http := { c.http with error := true } })
  else
    .ok (.go c)

end Conn

end V3

end WebServer

------------------------------------------------------------
-- The Handler
------------------------------------------------------------

namespace WebServer

namespace V3

open StdString

namespace Conn

/- The body of `do { ... } while (false)`. -/
def stages
    (c : Conn)
    (fs : FileSystem) : Except Fault Conn := do
  let flow ← c.readStage.andThen uriStage
  let flow ← flow.andThen headerStage
  let flow ← flow.andThen bodyStage
  let flow ← flow.andThen (analysisStage · fs)
  .ok flow.conn

/- Send what is pending, unless an error was met. -/
def sendPending
    (c : Conn) : Conn :=
  if !c.http.error ∧ c.http.outBuffer ≠ [] then
    c.handleWrite
  else
    c

/-
  What follows: `true` when `handleRead` is called again for
  the bytes that are left.
-/
def conclude
    (c : Conn) : Bool × Conn :=
  if c.http.error then
    (false, c)
  else if c.http.state = .finish then
    let c := c.reset
    (decide
        (c.http.inBuffer ≠ [] ∧
          c.http.connectionState ≠ .disconnecting),
      c)
  else if c.http.connectionState ≠ .disconnected then
    (false, c.addEpollIn)
  else
    (false, c)

/- One call of `handleRead`, up to the call it may make. -/
def pass
    (c : Conn)
    (fs : FileSystem) : Except Fault (Bool × Conn) := do
  let c ← c.stages fs
  .ok c.sendPending.conclude

end Conn

/-
  How `handleRead` ends without returning: an exception or a
  bad range in some call, or calls deeper than a bound.
-/
inductive ReadFault
| fault (f : Fault)
| tooDeep
deriving DecidableEq, Repr

namespace Conn

/- `handleRead()`, with at most `depth` nested calls. -/
def handleReadAt
    (fs : FileSystem) :
    Nat → Conn → Except ReadFault Conn
| 0, _ => .error .tooDeep
| depth + 1, c =>
    match c.pass fs with
    | .error f => .error (.fault f)
    | .ok (true, c) => handleReadAt fs depth c
    | .ok (false, c) => .ok c

/- A bound on the calls that the bytes at hand can cause. -/
def readDepth
    (c : Conn) : Nat :=
  c.http.inBuffer.length + c.socket.pending.length + 2

/- `handleRead()`. -/
def handleRead
    (c : Conn)
    (fs : FileSystem) : Except ReadFault Conn :=
  handleReadAt fs c.readDepth c

end Conn

end V3

end WebServer
