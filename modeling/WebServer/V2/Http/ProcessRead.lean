import WebServer.Common
import WebServer.Library.CString

/-
  Parsing a request in version 2.0
  (`http_conn::process_read` and the functions it calls).

  A pointer into `m_read_buffer` is an offset, `none` for
  null. Lines are ended in place: `parse_line` overwrites CR
  and LF by NUL, and the other functions work on the C
  strings that this leaves behind. What `stat`, `open` and
  `mmap` answer is a parameter.

  Key definitions include:
    * `HttpParser`
    * `HttpParser.parseLine`
    * `HttpParser.parseRequestLine`
    * `HttpParser.parseHeaders`
    * `HttpParser.doRequest`
    * `HttpParser.processRead`
-/

------------------------------------------------------------
-- States And Files
------------------------------------------------------------

namespace WebServer

namespace V2

/- `METHOD`; only `GET` is ever stored. -/
inductive Method
| get
| post
| head
| put
| delete
| trace
| options
| connect
deriving DecidableEq, Repr

inductive CheckState
| requestLine
| header
| content
deriving DecidableEq, Repr

inductive LineStatus
| lineOk
| lineBad
| lineOpen
deriving DecidableEq, Repr

inductive HttpCode
| noRequest
| getRequest
| badRequest
| noResource
| forbiddenRequest
| fileRequest
| internalError
| closedConnection
deriving DecidableEq, Repr

/- What is read of `struct stat`. -/
structure FileStat where
  stSize : Nat
  othersRead : Bool
  isDir : Bool
deriving DecidableEq, Repr

/- `m_file_address`. -/
inductive FileAddress
| null
| mapFailed
| mapped (bytes : Bytes)
deriving DecidableEq, Repr

/- What `stat`, `open` and `mmap` answer for a path. -/
structure FileSystem where
  stat : Bytes → Option FileStat
  openRdonly : Bytes → Bool
  mmap : Bytes → Nat → Option Bytes

/- `READ_BUFFER_SIZE`. -/
def readBufferSize : Nat := 2048

/- `FILENAME_LEN`. -/
def filenameLen : Nat := 200

/- `" \t"`. -/
def blanks : Bytes := [32, 9]

/- `doc_root`. -/
def docRoot : Bytes := utf8 "/root/my_webserver/resources"

/- The fields of `http_conn` that reading and parsing use. -/
structure HttpParser where
  readBuffer : Bytes
  readIdx : Nat
  checkedIdx : Nat
  startLine : Nat
  checkState : CheckState
  url : Option Nat
  version : Option Nat
  method : Method
  host : Option Nat
  linger : Bool
  contentLength : Int
  realFile : Bytes
  fileStat : Option FileStat
  fileAddress : FileAddress

/-
  How parsing can end without a result: a null pointer is
  written through, or `parse_content` runs off its end. A
  loop that is given too few turns ends with `outOfTurns`.
-/
inductive ParseFault
| nullDereference
| noReturnValue
| outOfTurns
deriving DecidableEq, Repr

namespace HttpParser

/- The private `init()`, on these fields. -/
def init
    (c : HttpParser) : HttpParser :=
  { c with
    checkState := .requestLine
    checkedIdx := 0
    startLine := 0
    readIdx := 0
    method := .get
    url := none
    version := none
    host := none
    linger := false
    contentLength := 0
    readBuffer := List.replicate readBufferSize 0
    realFile := [] }

/- Received bytes are put at `m_read_idx`. -/
def receive
    (c : HttpParser)
    (bytes : Bytes) : HttpParser :=
  { c with
    readBuffer := CString.store c.readBuffer c.readIdx bytes
    readIdx := c.readIdx + bytes.length }

/- `m_read_buffer[i]`. -/
def byteAt
    (c : HttpParser)
    (i : Nat) : Byte :=
  c.readBuffer.getD i 0

/- `m_read_buffer[i] = '\0'`. -/
def cutAt
    (c : HttpParser)
    (i : Nat) : HttpParser :=
  { c with readBuffer := c.readBuffer.set i 0 }

/- The string a pointer into the buffer stands for. -/
def stringAt
    (c : HttpParser)
    (p : Nat) : Bytes :=
  CString.string c.readBuffer p

end HttpParser

end V2

end WebServer

------------------------------------------------------------
-- Lines
------------------------------------------------------------

namespace WebServer

namespace V2

namespace HttpParser

/- The loop of `parse_line`, with the bytes still to scan. -/
def parseLineLoop :
    Nat → HttpParser → LineStatus × HttpParser
| 0, c => (.lineOpen, c)
| n + 1, c =>
    if c.byteAt c.checkedIdx = 13 then
      if c.checkedIdx + 1 = c.readIdx then
        (.lineOpen, c)
      else if c.byteAt (c.checkedIdx + 1) = 10 then
        (.lineOk,
          { (c.cutAt c.checkedIdx).cutAt
              (c.checkedIdx + 1) with
            checkedIdx := c.checkedIdx + 2 })
      else
        (.lineBad, c)
    else if c.byteAt c.checkedIdx = 10 then
      if 1 < c.checkedIdx ∧
          c.byteAt (c.checkedIdx - 1) = 13 then
        (.lineOk,
          { (c.cutAt (c.checkedIdx - 1)).cutAt
              c.checkedIdx with
            checkedIdx := c.checkedIdx + 1 })
      else
        (.lineBad, c)
    else
      parseLineLoop n
        { c with checkedIdx := c.checkedIdx + 1 }

/- `parse_line()`. -/
def parseLine
    (c : HttpParser) : LineStatus × HttpParser :=
  parseLineLoop (c.readIdx - c.checkedIdx) c

/- `get_line()`. -/
def getLine
    (c : HttpParser) : Nat :=
  c.startLine

/-
  The end of `parse_request_line`, once the version is
  accepted: a host before the path is skipped.
-/
def parsePath
    (c : HttpParser)
    (url : Nat) : HttpCode × HttpParser :=
  let c :=
    if CString.strncaseEq (c.stringAt url)
        (utf8 "http://") 7 then
      { c with
        url := CString.strchr c.readBuffer (url + 7) 47 }
    else
      c
  match c.url with
  | none => (.badRequest, c)
  | some url =>
      if c.byteAt url = 47 then
        (.noRequest, { c with checkState := .header })
      else
        (.badRequest, c)

/- The middle of `parse_request_line`: the version. -/
def parseVersion
    (c : HttpParser)
    (url : Nat) : HttpCode × HttpParser :=
  match CString.strpbrk c.readBuffer url blanks with
  | none => (.badRequest, { c with version := none })
  | some k =>
      let version := k + 1
      let c := { c.cutAt k with version := some version }
      if CString.strcaseEq (c.stringAt version)
          (utf8 "HTTP/1.1") then
        c.parsePath url
      else
        (.badRequest, c)

/- `parse_request_line(text)`. -/
def parseRequestLine
    (c : HttpParser)
    (text : Nat) :
    Except ParseFault (HttpCode × HttpParser) :=
  match CString.strpbrk c.readBuffer text blanks with
  | none => .error .nullDereference
  | some k =>
      let url := k + 1
      let c := { c.cutAt k with url := some url }
      if CString.strcaseEq (c.stringAt text)
          (utf8 "GET") then
        .ok ({ c with method := .get }.parseVersion url)
      else
        .ok (.badRequest, c)

/- `text += strspn(text, " \t")`. -/
def skipBlanks
    (c : HttpParser)
    (text : Nat) : Nat :=
  text + CString.strspn c.readBuffer text blanks

/- `parse_headers(text)`. -/
def parseHeaders
    (c : HttpParser)
    (text : Nat) : HttpCode × HttpParser :=
  if c.byteAt text = 0 then
    if c.contentLength ≠ 0 then
      (.noRequest, { c with checkState := .content })
    else
      (.getRequest, c)
  else if CString.strncaseEq (c.stringAt text)
      (utf8 "Connection:") 11 then
    let value := c.skipBlanks (text + 11)
    if CString.strcaseEq (c.stringAt value)
        (utf8 "keep-alive") then
      (.noRequest, { c with linger := true })
    else
      (.noRequest, c)
  else if CString.strncaseEq (c.stringAt text)
      (utf8 "Content-Length:") 15 then
    let value := c.skipBlanks (text + 15)
    (.noRequest,
      { c with
        contentLength :=
          toInt32 (CString.atol (c.stringAt value)) })
  else if CString.strncaseEq (c.stringAt text)
      (utf8 "Host:") 5 then
    (.noRequest,
      { c with host := some (c.skipBlanks (text + 5)) })
  else
    (.noRequest, c)

/- `parse_content(text)` has no `return`. -/
def parseContent
    (_c : HttpParser)
    (_text : Nat) :
    Except ParseFault (HttpCode × HttpParser) :=
  .error .noReturnValue

/- `do_request()`. -/
def doRequest
    (fs : FileSystem)
    (c : HttpParser) :
    Except ParseFault (HttpCode × HttpParser) :=
  match c.url with
  | none => .error .nullDereference
  | some url =>
      let path :=
        docRoot ++
          (c.stringAt url).take
            (filenameLen - docRoot.length - 1)
      let c := { c with realFile := path }
      match fs.stat path with
      | none => .ok (.noRequest, c)
      | some st =>
          let c := { c with fileStat := some st }
          if !st.othersRead then
            .ok (.forbiddenRequest, c)
          else if st.isDir then
            .ok (.badRequest, c)
          else
            let mapping :=
              if fs.openRdonly path then
                fs.mmap path st.stSize
              else
                none
            .ok
              (.fileRequest,
                { c with
                  fileAddress :=
                    match mapping with
                    | some bytes => .mapped bytes
                    | none => .mapFailed })

end HttpParser

end V2

end WebServer

------------------------------------------------------------
-- The Main State Machine
------------------------------------------------------------

namespace WebServer

namespace V2

/- How a turn of the loop ends: a `return`, or another turn. -/
inductive Turn
| returns (code : HttpCode) (c : HttpParser)
| again (status : LineStatus) (c : HttpParser)

namespace HttpParser

/- `m_start_line = m_checked_idx`. -/
def startNextLine
    (c : HttpParser) : HttpParser :=
  { c with startLine := c.checkedIdx }

/- The body of the loop of `process_read`. -/
def handleLine
    (fs : FileSystem)
    (c : HttpParser)
    (status : LineStatus) : Except ParseFault Turn :=
  let text := c.getLine
  let c := c.startNextLine
  match c.checkState with
  | .requestLine => do
      let (ret, c) ← c.parseRequestLine text
      if ret = .badRequest then
        .ok (.returns .badRequest c)
      else
        .ok (.again status c)
  | .header =>
      let (ret, c) := c.parseHeaders text
      if ret = .badRequest then
        .ok (.returns .badRequest c)
      else if ret = .getRequest then do
        let (code, c) ← c.doRequest fs
        .ok (.returns code c)
      else
        .ok (.again status c)
  | .content => do
      let (ret, c) ← c.parseContent text
      if ret = .getRequest then do
        let (code, c) ← c.doRequest fs
        .ok (.returns code c)
      else
        .ok (.again .lineOpen c)

/- The loop of `process_read`, with a bound on its turns. -/
def processReadLoop
    (fs : FileSystem) :
    Nat → LineStatus → HttpParser →
      Except ParseFault (HttpCode × HttpParser)
| 0, _, _ => .error .outOfTurns
| n + 1, status, c =>
    let (status, c) :=
      if c.checkState = .content ∧ status = .lineOk then
        (status, c)
      else
        c.parseLine
    if status = .lineOk then
      match c.handleLine fs status with
      | .error f => .error f
      | .ok (.returns code c) => .ok (code, c)
      | .ok (.again status c) =>
          processReadLoop fs n status c
    else
      .ok (.noRequest, c)

/- `process_read()`. Every turn but the last takes bytes. -/
def processRead
    (fs : FileSystem)
    (c : HttpParser) :
    Except ParseFault (HttpCode × HttpParser) :=
  processReadLoop fs (c.readIdx - c.checkedIdx + 1)
    .lineOk c

end HttpParser

end V2

end WebServer
