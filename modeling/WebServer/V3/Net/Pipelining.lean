import WebServer.V3.Net.MethodNames

/-
  Several requests in one readable event in version 3.0.

  `handleRead` answers a request and calls itself for the
  bytes that are left. The header loop takes one byte more
  than the blank line, so every request but the first is
  read without its first byte. This file settles for which
  lists of requests each is still read as itself.

  Key definitions include:
    * `Request.response`
    * `Request.FieldsKept`
    * `ReadInTurn`
    * `Processed`

  Key theorems include:
    * `Idle.pass_of_readFrom`
    * `Idle.pass_of_not_readFrom`
    * `processed_iff_readInTurn`
-/

------------------------------------------------------------
-- Headers Stored By One Call
------------------------------------------------------------

namespace WebServer

namespace V3

open StdString

/-
  No value is empty, and there is a header once a line was
  ended.
-/
def HeaderScan.Stored
    (scan : HeaderScan) : Prop :=
  (∀ key value,
    scan.headers key = some value → value ≠ []) ∧
    match scan.hState with
    | .cr => scan.vars.valueStart < scan.vars.valueEnd
    | .lf => ∃ key value, scan.headers key = some value
    | .endCr => ∃ key value, scan.headers key = some value
    | .endLf => ∃ key value, scan.headers key = some value
    | _ => True

theorem HeaderScan.Stored.next
    {str : Bytes}
    {scan : HeaderScan}
    {i : Nat}
    (h : scan.Stored)
    (hPlace : scan.InPlace i)
    (hBound : i ≤ str.length)
    (c : Byte) :
    match scan.next .exact str c i with
    | .ok (.more scan') => scan'.Stored
    | .ok (.done scan') => scan'.Stored
    | _ => True := by
  rcases scan with ⟨hState, headers, vars⟩
  unfold HeaderScan.Stored HeaderScan.InPlace at *
  cases hState <;>
    simp only [HeaderScan.next, Ints.exact_sub_bind,
      HeaderScan.setState, HeaderLocals.KeySet] at h hPlace ⊢
  case start =>
      split_ifs <;> exact ⟨h.1, trivial⟩
  case key =>
      split_ifs <;> trivial
  case colon =>
      split_ifs <;> trivial
  case spacesAfterColon =>
      exact ⟨h.1, trivial⟩
  case value =>
      split_ifs
      · trivial
      · exact ⟨h.1, by simp only; omega⟩
      · trivial
      · exact ⟨h.1, trivial⟩
  case cr =>
      rcases hPlace with ⟨_, hKey, hValue⟩
      rw [range_of_inPlace hKey.1 hKey.2.1 (by omega),
        range_of_inPlace hValue.1 hValue.2.1 (by omega)]
      split_ifs
      · refine ⟨?_, _, _, Function.update_self _ _ _⟩
        intro key value hSome
        simp only at hSome
        by_cases hSame :
            key =
              (str.drop vars.keyStart.toNat).take
                (vars.keyEnd - vars.keyStart).toNat
        · rw [hSame, Function.update_self] at hSome
          cases hSome
          have hLess := h.2
          intro hNil
          have hLen := congrArg List.length hNil
          simp only [List.length_take, List.length_drop,
            List.length_nil] at hLen
          omega
        · rw [Function.update_of_ne hSame] at hSome
          exact h.1 key value hSome
      · trivial
  case lf =>
      split_ifs
      · exact h
      · exact ⟨h.1, trivial⟩
  case endCr =>
      split_ifs
      · exact h
      · trivial
  case endLf =>
      exact h

/-
  A call that starts a request stores at least one header,
  and none with an empty value.
-/
theorem HttpData.parseHeadersBy_success_stored
    {d d' : HttpData}
    (hState : d.hState = .start)
    (hHeaders : d.headers = fun _ => none)
    (h : d.parseHeadersBy .exact = .ok (.success, d')) :
    (∀ key value,
      d'.headers key = some value → value ≠ []) ∧
      ∃ key value, d'.headers key = some value := by
  have hScan :=
    d.scanHeaders_rule .exact
      (I := fun i scan =>
        i ≤ d.inBuffer.length ∧
          scan.InPlace i ∧ scan.Stored)
      (R := HeaderEnd.Meets (fun _ scan => scan.Stored)
        fun _ => True)
      (F := fun _ => True)
      (by
        intro scan hI
        exact hI.2.2)
      (by
        intro i c scan hI hAt
        have hSmall : i < d.inBuffer.length :=
          (List.getElem?_eq_some_iff.mp hAt).1
        have hPlace := hI.2.1.next hI.1 c
        have hStored := hI.2.2.next hI.2.1 hI.1 c
        cases hCase : scan.next .exact d.inBuffer c i with
        | error f => trivial
        | ok turn =>
            rw [hCase] at hPlace hStored
            cases turn with
            | more scan' => exact ⟨hSmall, hPlace, hStored⟩
            | done scan' => exact hStored
            | error scan' => trivial)
      (by
        refine ⟨Nat.zero_le _, ⟨Int.le_refl 0, ?_⟩, ?_, ?_⟩
        · simp only [hState]
        · intro key value hSome
          rw [hHeaders] at hSome
          cases hSome
        · simp only [hState])
  rcases scanHeaders_of_success h with
    ⟨i, scan, hCase, hEnd, _, rfl⟩
  rw [hCase] at hScan
  have hStored : scan.Stored := hScan
  unfold HeaderScan.Stored at hStored
  rw [hEnd] at hStored
  exact hStored

end V3

end WebServer

------------------------------------------------------------
-- Requests And Their Responses
------------------------------------------------------------

namespace WebServer

namespace V3

open StdString

namespace Request

/- The members of a connection that a request sets. -/
def asHttp
    (r : Request) : HttpData :=
  { HttpData.new.setLine r.method r.fileName r.version with
    headers := r.headers }

/-
  The response to a request, if the file it asks for exists
  and can be served.
-/
def response
    (r : Request)
    (fs : FileSystem) : Option Bytes :=
  let header := r.asHttp.statusHeader
  let path := cStr r.fileName
  if r.fileName = utf8 "hello" then
    some helloResponse
  else if r.fileName = utf8 "favicon.ico" then
    some
      (header ++
        contentHeader (utf8 "image/png") favicon.length ++
        favicon)
  else
    match r.asHttp.fileType, fs.stat path with
    | .ok mime, some size =>
        let header := header ++ contentHeader mime size
        if r.method = .head then
          some header
        else if fs.openRdonly path then
          (fs.mmap path size).map (header ++ ·)
        else
          none
    | _, _ => none

/- The record of the analysis of a request. -/
def analysis
    (r : Request) : TraceEvent :=
  .analysisRequest r.method r.fileName r.version r.headers

/-
  There are header lines, and the headers they are read as
  are those of the request.
-/
def FieldsKept
    (r : Request) : Prop :=
  ∃ fields,
    fields ≠ [] ∧
      ReadsFields r.lines fields ∧
      setFields (fun _ => none) fields = r.headers

/-
  The request is read as itself when its request line
  arrives as `line`.
-/
def ReadFrom
    (r : Request)
    (line : Bytes) : Prop :=
  ReadsAs line r.method r.fileName r.version ∧ r.FieldsKept

end Request

/-
  The name of the method comes first in the first request,
  and comes again in the targets of the others. All of them
  keep their headers.
-/
def ReadInTurn :
    List Request → Prop
| [] => True
| r :: rs =>
    (r.NamedFirst ∧ r.FieldsKept) ∧
      ∀ r ∈ rs, r.NamedAgain ∧ r.FieldsKept

theorem Request.readFrom_line_iff
    {r : Request}
    (hShort : r.line.length < 2 ^ 31) :
    r.ReadFrom r.line ↔ r.NamedFirst ∧ r.FieldsKept :=
  and_congr_left' (readsAs_line_iff hShort)

theorem Request.readFrom_drop_iff
    {r : Request}
    (hShort : r.line.length < 2 ^ 31) :
    r.ReadFrom (r.line.drop 1) ↔
      r.NamedAgain ∧ r.FieldsKept :=
  and_congr_left' (readsAs_drop_iff hShort)

def TraceEvent.isAnalysis :
    TraceEvent → Bool
| .analysisRequest _ _ _ _ => true
| .handleError _ _ => false

namespace Conn

/- The requests analysed so far. -/
def analyses
    (c : Conn) : List TraceEvent :=
  c.trace.filter TraceEvent.isAnalysis

/- All output so far, sent or not. -/
def output
    (c : Conn) : Bytes :=
  c.socket.sent ++ c.http.outBuffer

end Conn

/-
  Between the two states every request of the list was
  analysed once and in order, the responses were appended in
  that order, and no input is left.
-/
structure Processed
    (fs : FileSystem)
    (rs : List Request)
    (c c' : Conn) : Prop where
  analyses :
    c'.analyses = c.analyses ++ rs.map Request.analysis
  output :
    c'.output =
      c.output ++ rs.flatMap fun r => (r.response fs).getD []
  inBuffer : c'.http.inBuffer = []

end V3

end WebServer

------------------------------------------------------------
-- A Connection Between Requests
------------------------------------------------------------

namespace WebServer

namespace V3

open StdString

/- Connected, between requests, with nothing to send. -/
structure Idle
    (c : Conn) : Prop where
  state : c.http.state = .parseUri
  hState : c.http.hState = .start
  nowReadPos : c.http.nowReadPos = 0
  headers : c.http.headers = fun _ => none
  error : c.http.error = false
  connectionState : c.http.connectionState = .connected
  outBuffer : c.http.outBuffer = []
  writes : c.socket.writes = []

theorem Idle.atStart
    {c : Conn}
    (h : Idle c) :
    c.AtStart :=
  ⟨h.state, h.hState⟩

/- A connection whose input was moved to its buffer. -/
def Conn.holding
    (c : Conn)
    (inBuffer : Bytes) : Conn :=
  { c with
    socket := { c.socket with reads := [] }
    http := { c.http with inBuffer := inBuffer } }

theorem Idle.holding
    {c : Conn}
    (h : Idle c)
    (inBuffer : Bytes) :
    Idle (c.holding inBuffer) where
  state := h.state
  hState := h.hState
  nowReadPos := h.nowReadPos
  headers := h.headers
  error := h.error
  connectionState := h.connectionState
  outBuffer := h.outBuffer
  writes := h.writes

/- Reading moves the bytes of the event to the buffer. -/
theorem readStage_of_brings
    {c : Conn}
    {bytes : Bytes}
    (hBrings : Brings c.socket.reads bytes)
    (hShort : bytes.length < 2 ^ 31)
    (hConnected : c.http.connectionState = .connected) :
    c.readStage =
      .go (c.holding (c.http.inBuffer ++ bytes)) := by
  have hRead :
      c.socket.readn c.http.inBuffer =
        ⟨(bytes.length : Nat), c.http.inBuffer ++ bytes,
          false, []⟩ := by
    unfold Socket.readn
    rw [readnLoop_of_brings hBrings, Nat.zero_add]
  have hUp : c.http.connectionState ≠ .disconnecting := by
    rw [hConnected]
    decide
  have hNum : toInt32 (bytes.length : Nat) = bytes.length := by
    apply toInt32_of_isInt32
    unfold IsInt32
    omega
  unfold Conn.readStage
  simp only [hRead, hNum]
  rw [if_neg hUp, if_neg (by omega),
    if_neg Bool.false_ne_true]
  rfl

theorem brings_nil :
    Brings [] [] :=
  ⟨by simp, rfl⟩

theorem brings_data
    {piece : Bytes}
    (hNonempty : piece ≠ [])
    (hShort : piece.length ≤ maxBuff) :
    Brings [.data piece] piece := by
  refine ⟨?_, by simp [ReadResult.bytes]⟩
  intro r hMem
  rw [List.mem_singleton] at hMem
  exact .inr ⟨piece, hMem, hNonempty, hShort⟩

/- The response is what `analysisRequest` queues. -/
theorem analysisRequest_of_response
    {c : Conn}
    {r : Request}
    {fs : FileSystem}
    {bytes : Bytes}
    (hMethod : c.http.method = r.method)
    (hFile : c.http.fileName = r.fileName)
    (hHeaders : c.http.headers = r.headers)
    (hOut : c.http.outBuffer = [])
    (hResponse : r.response fs = some bytes) :
    ∃ keepAlive,
      c.analysisRequest fs =
        .ok
          (.success, c.analysed.answered keepAlive bytes) := by
  have hStatus :
      c.http.statusHeader = r.asHttp.statusHeader := by
    simp only [HttpData.statusHeader, HttpData.asksKeepAlive,
      hHeaders]
    rfl
  have hType : c.http.fileType = r.asHttp.fileType := by
    simp only [HttpData.fileType, HttpData.dotPos, hFile]
    rfl
  rcases Conn.fileType_ok c.http with ⟨mime, hMime⟩
  rcases
    Conn.analysisRequest_eq (hMethod ▸ r.method_ne) hMime
      fs with
    ⟨keepAlive, hCall⟩
  refine ⟨keepAlive, ?_⟩
  unfold Request.response at hResponse
  rw [← hType, hMime, ← hStatus, ← hFile, ← hMethod]
    at hResponse
  rw [hCall]
  unfold Conn.serveName
  rw [hOut]
  simp only at hResponse ⊢
  by_cases hHello : c.http.fileName = utf8 "hello"
  · rw [if_pos hHello] at hResponse ⊢
    cases hResponse
    rfl
  · rw [if_neg hHello] at hResponse ⊢
    by_cases hIcon : c.http.fileName = utf8 "favicon.ico"
    · rw [if_pos hIcon] at hResponse ⊢
      cases hResponse
      rfl
    · rw [if_neg hIcon] at hResponse ⊢
      cases hStat : fs.stat (cStr c.http.fileName) with
      | none =>
          rw [hStat] at hResponse
          cases hResponse
      | some size =>
          simp only [hStat] at hResponse
          have hServe :
              (c.analysed.answered keepAlive []).serveFile fs
                  c.http.statusHeader mime =
                (.success,
                  c.analysed.answered keepAlive bytes) := by
            by_cases hHead : c.http.method = .head
            · rw [if_pos hHead] at hResponse
              cases hResponse
              simp only [Conn.serveFile, Conn.answered,
                Conn.analysed, hStat]
              exact if_pos hHead
            · rw [if_neg hHead] at hResponse
              by_cases hOpen :
                  fs.openRdonly (cStr c.http.fileName)
              · rw [if_pos hOpen] at hResponse
                rcases Option.map_eq_some_iff.mp hResponse with
                  ⟨content, hMap, rfl⟩
                simp only [Conn.serveFile, Conn.answered,
                  Conn.analysed, Conn.appendOut, hStat,
                  hHead, if_false, hOpen, if_true, hMap]
                rfl
              · rw [if_neg hOpen] at hResponse
                cases hResponse
          rw [hServe]

end V3

end WebServer

------------------------------------------------------------
-- One Request
------------------------------------------------------------

namespace WebServer

namespace V3

open StdString

namespace Conn

/- A connection that read a request line. -/
def lineRead
    (c : Conn)
    (method : HttpMethod)
    (fileName : Bytes)
    (version : HttpVersion)
    (rest : Bytes) : Conn :=
  { c with
    http :=
      { c.http.setLine method fileName version with
        inBuffer := rest
        state := .parseHeaders } }

/- A connection that read the header lines as well. -/
def headersRead
    (c : Conn)
    (headers : Headers)
    (rest : Bytes) : Conn :=
  { c with
    http :=
      { c.http with
        hState := .endLf
        headers := headers
        inBuffer := rest
        state := .analysis } }

/- A request line that is accepted. -/
theorem atHeaders_of_readsAs
    {c c₁ : Conn}
    {line rest fileName : Bytes}
    {method : HttpMethod}
    {version : HttpVersion}
    (hRead : c.readStage = .go c₁)
    (hState : c₁.http.state = .parseUri)
    (hUri :
      c₁.http.parseURI =
        { c₁.http with inBuffer := rest }.parseRequestLine
          line)
    (hReads : ReadsAs line method fileName version) :
    c.atHeaders =
      .ok (.go (c₁.lineRead method fileName version rest)) := by
  rw [hReads] at hUri
  unfold atHeaders
  rw [hRead]
  simp only [Flow.andThen, uriStage]
  rw [if_pos hState, hUri]
  rfl

/- A request line that is refused. -/
theorem atHeaders_of_refused
    {c c₁ : Conn}
    {line rest : Bytes}
    (hRead : c.readStage = .go c₁)
    (hState : c₁.http.state = .parseUri)
    (hUri :
      c₁.http.parseURI =
        { c₁.http with inBuffer := rest }.parseRequestLine
          line)
    (hRefused : Refused line) :
    ∃ method fileName,
      c.atHeaders =
        .ok
          (.brk
            ({ c₁ with
                http :=
                  { c₁.http.setLine method fileName
                      c₁.http.httpVersion with
                    inBuffer := [] } }.failWith
              400 (utf8 "Bad Request"))) := by
  rcases hRefused { c₁.http with inBuffer := rest } with
    ⟨method, fileName, hError⟩
  refine ⟨method, fileName, ?_⟩
  unfold atHeaders
  rw [hRead]
  simp only [Flow.andThen, uriStage]
  rw [if_pos hState, hUri, hError]
  rfl

/- Header lines that are read to their end. -/
theorem atAnalysis_of_readsFields
    {c c₁ : Conn}
    {lines : List HeaderLine}
    {fields : List (Bytes × Bytes)}
    {more : Bytes}
    (hBefore : c.atHeaders = .ok (.go c₁))
    (hState : c₁.http.state = .parseHeaders)
    (hStart : c₁.http.hState = .start)
    (hBuffer :
      c₁.http.inBuffer = 10 :: (headerBytes lines ++ more))
    (hShort : c₁.http.inBuffer.length < 2 ^ 31)
    (hFields : ReadsFields lines fields)
    (hNonempty : fields ≠ [])
    (hPost : c₁.http.method ≠ .post) :
    c.atAnalysis =
      .ok
        (.go
          (c₁.headersRead (setFields c₁.http.headers fields)
            (more.drop 1))) := by
  have hCall :=
    (HttpData.parseHeaders_eq hShort).trans
      (HttpData.parseHeadersBy_of_readsFields hStart hBuffer
        hFields hNonempty)
  have hHeaders :
      c₁.headerStage =
        .ok
          (.go
            (c₁.headersRead
              (setFields c₁.http.headers fields)
              (more.drop 1))) := by
    unfold headerStage
    rw [if_pos hState, hCall]
    simp only [bind, Except.bind]
    rw [if_neg hPost]
    rfl
  unfold atAnalysis atBody
  rw [hBefore]
  simp only [bind, Except.bind, Flow.andThen, hHeaders]
  unfold bodyStage
  rw [if_neg]
  exact ProcessState.noConfusion

/- Writing everything leaves no output behind. -/
theorem sendPending_of_writes_nil
    {c : Conn}
    (hError : c.http.error = false)
    (hUp : c.http.connectionState = .connected)
    (hWrites : c.socket.writes = []) :
    c.sendPending = c.wrote [] c.output [] := by
  have hDown : c.http.connectionState ≠ .disconnected := by
    rw [hUp]
    decide
  have hString :
      c.socket.writenString c.http.outBuffer =
        ({ c.socket with writes := [], sent := c.output }, [],
          false) := by
    unfold Socket.writenString
    rw [hWrites]
    simp [writenLoop, output]
  by_cases hOut : c.http.outBuffer = []
  · unfold sendPending
    rw [if_neg (fun h => h.2 hOut)]
    rcases c with ⟨http, channel, socket, timers, trace⟩
    rcases socket with ⟨reads, writes, sent⟩
    rcases http with
      ⟨_, out, _, _, _, _, _, _, _, _, _, _, _⟩
    simp only at hWrites hOut
    subst hWrites hOut
    simp [wrote, output]
  · unfold sendPending handleWrite
    rw [if_pos ⟨by simp [hError], hOut⟩,
      if_pos ⟨by simp [hError], hDown⟩, hString]
    rfl

end Conn

/- A response that is written in full ends the request. -/
theorem pass_of_answer
    {c c₂ : Conn}
    {fs : FileSystem}
    {keepAlive : Bool}
    {bytes : Bytes}
    (hDue : c.atAnalysis = .ok (.go c₂))
    (hState : c₂.http.state = .analysis)
    (hUp : c₂.http.connectionState = .connected)
    (hError : c₂.http.error = false)
    (hWrites : c₂.socket.writes = [])
    (hCall :
      c₂.analysisRequest fs =
        .ok
          (.success, c₂.analysed.answered keepAlive bytes)) :
    ∃ c',
      c.pass fs =
          .ok (decide (c₂.http.inBuffer ≠ []), c') ∧
        Idle c' ∧
        c'.http.inBuffer = c₂.http.inBuffer ∧
        c'.socket.reads = c₂.socket.reads ∧
        c'.trace = c₂.analysed.trace ∧
        c'.output = c₂.socket.sent ++ bytes := by
  obtain ⟨c₃, hC₃⟩ :
      ∃ c₃ : Conn,
        c₃ =
          { c₂.analysed.answered keepAlive bytes with
            http :=
              { (c₂.analysed.answered keepAlive bytes).http with
                state := .finish } } :=
    ⟨_, rfl⟩
  have hStages : c.stages fs = .ok c₃ := by
    rw [Conn.stages_eq, hDue, hC₃]
    simp only [Except.bind, Flow.andThen,
      Conn.analysisStage]
    rw [if_pos hState, hCall]
    rfl
  have hSend : c₃.sendPending = c₃.wrote [] c₃.output [] := by
    apply Conn.sendPending_of_writes_nil <;> rw [hC₃]
    · exact hError
    · exact hUp
    · exact hWrites
  have hConclude :
      (c₃.wrote [] c₃.output []).conclude =
        (decide (c₂.http.inBuffer ≠ []),
          (c₃.wrote [] c₃.output []).reset) := by
    rcases (c₃.wrote [] c₃.output []).reset_frame with
      ⟨timer, timers, hReset⟩
    have hOpen :
        (c₃.wrote [] c₃.output []).reset.http.connectionState ≠
          .disconnecting := by
      rw [hReset, hC₃]
      show c₂.http.connectionState ≠ .disconnecting
      rw [hUp]
      decide
    have hRest :
        (c₃.wrote [] c₃.output []).reset.http.inBuffer =
          c₂.http.inBuffer := by
      rw [hReset, hC₃]
      rfl
    have hNoError :
        ¬ (c₃.wrote [] c₃.output []).http.error = true := by
      rw [hC₃]
      show ¬ c₂.http.error = true
      rw [hError]
      decide
    have hFinish :
        (c₃.wrote [] c₃.output []).http.state = .finish := by
      rw [hC₃]
      rfl
    unfold Conn.conclude
    rw [if_neg hNoError, if_pos hFinish]
    simp only [hRest, hOpen, ne_eq, not_false_eq_true,
      and_true]
  refine ⟨(c₃.wrote [] c₃.output []).reset, ?_, ?_⟩
  · rw [Conn.pass_eq, hStages]
    simp only [Except.map, hSend, hConclude]
  · rcases (c₃.wrote [] c₃.output []).reset_frame with
      ⟨timer, timers, hReset⟩
    rw [hReset, hC₃]
    exact
      ⟨⟨rfl, rfl, rfl, rfl, hError, hUp, rfl, rfl⟩, rfl, rfl,
        rfl, List.append_nil _⟩

/-
  A request that is read as itself is analysed and answered,
  and one byte more than it is taken.
-/
theorem Idle.pass_of_readFrom
    {c c₁ : Conn}
    {fs : FileSystem}
    {r : Request}
    {line more bytes : Bytes}
    (hIdle : Idle c₁)
    (hRead : c.readStage = .go c₁)
    (hBuffer :
      c₁.http.inBuffer =
        line ++ 13 :: 10 :: (headerBytes r.lines ++ more))
    (hShort : c₁.http.inBuffer.length < 2 ^ 31)
    (hLine : 13 ∉ line)
    (hFrom : r.ReadFrom line)
    (hResponse : r.response fs = some bytes) :
    ∃ c',
      c.pass fs = .ok (decide (more.drop 1 ≠ []), c') ∧
        Idle c' ∧
        c'.http.inBuffer = more.drop 1 ∧
        c'.socket.reads = c₁.socket.reads ∧
        c'.trace = c₁.trace ++ [r.analysis] ∧
        c'.output = c₁.output ++ bytes := by
  rcases hFrom with
    ⟨hReads, fields, hNonempty, hFields, hHeaders⟩
  have hBefore :=
    Conn.atHeaders_of_readsAs hRead hIdle.state
      (HttpData.parseURI_of_cr hIdle.nowReadPos hBuffer
        hLine)
      hReads
  have hLess :
      (10 :: (headerBytes r.lines ++ more)).length <
        2 ^ 31 := by
    rw [hBuffer] at hShort
    simp only [List.length_append, List.length_cons]
      at hShort ⊢
    omega
  have hDue :=
    Conn.atAnalysis_of_readsFields hBefore rfl hIdle.hState
      rfl hLess hFields hNonempty r.method_ne
  have hOwn :
      setFields
          (c₁.lineRead r.method r.fileName r.version
            (10 :: (headerBytes r.lines ++ more))).http.headers
          fields =
        r.headers := by
    show setFields c₁.http.headers fields = r.headers
    rw [hIdle.headers, hHeaders]
  rw [hOwn] at hDue
  rcases
    analysisRequest_of_response
      (c :=
        (c₁.lineRead r.method r.fileName r.version
          (10 :: (headerBytes r.lines ++ more))).headersRead
            r.headers (more.drop 1))
      rfl rfl rfl hIdle.outBuffer hResponse with
    ⟨keepAlive, hCall⟩
  rcases
    pass_of_answer hDue rfl hIdle.connectionState hIdle.error
      hIdle.writes hCall with
    ⟨c', hPass, hIdle', hRest, hReads', hTrace, hOutput⟩
  refine
    ⟨c', hPass, hIdle', hRest, hReads', hTrace, ?_⟩
  rw [hOutput]
  unfold Conn.output
  rw [hIdle.outBuffer, List.append_nil]
  rfl

end V3

end WebServer

------------------------------------------------------------
-- Requests That Are Not Read As Themselves
------------------------------------------------------------

namespace WebServer

namespace V3

open StdString

/- A header line with an empty value comes last. -/
theorem Request.headers_of_empty_last
    {r : Request}
    {front : List HeaderLine}
    {l : HeaderLine}
    (hLines : r.lines = front ++ [l])
    (hText : l.text = [32]) :
    r.headers l.key = some [] := by
  have hValue : l.value = [] := by
    simp [HeaderLine.value, hText, HeaderLine.isBlank]
  unfold Request.headers setFields
  rw [hLines, List.map_append, List.foldl_append]
  simp only [List.map_cons, List.map_nil, List.foldl_cons,
    List.foldl_nil, hValue]
  exact Function.update_self _ _ _

/-
  A call that stores the headers of the request read its
  header lines to their end.
-/
theorem readsFields_of_parseHeadersBy
    {d d' : HttpData}
    {r : Request}
    {more : Bytes}
    (hState : d.hState = .start)
    (hHeaders : d.headers = fun _ => none)
    (hBuffer :
      d.inBuffer = 10 :: (headerBytes r.lines ++ more))
    (hCall : d.parseHeadersBy .exact = .ok (.success, d'))
    (hOwn : d'.headers = r.headers) :
    ∃ fields,
      fields ≠ [] ∧
        ReadsFields r.lines fields ∧
        setFields (fun _ => none) fields = r.headers := by
  have hStored :=
    HttpData.parseHeadersBy_success_stored hState hHeaders
      hCall
  by_cases hRead : ∃ fields, ReadsFields r.lines fields
  · rcases hRead with ⟨fields, hFields⟩
    have hNonempty : fields ≠ [] := by
      rintro rfl
      have hLines : r.lines = [] := by
        cases hCase : r.lines with
        | nil => rfl
        | cons l lines =>
            rw [hCase] at hFields
            cases hFields
      rcases hStored.2 with ⟨key, value, hSome⟩
      rw [hOwn] at hSome
      simp [Request.headers, setFields, hLines] at hSome
    refine ⟨fields, hNonempty, hFields, ?_⟩
    rw [HttpData.parseHeadersBy_of_readsFields hState hBuffer
      hFields hNonempty] at hCall
    cases hCall
    rw [← hOwn, hHeaders]
  · exfalso
    rw [not_exists] at hRead
    have hBetween :
        (⟨.start, d.headers, .init⟩ : HeaderScan).Between :=
      .inl rfl
    have hStr :
        d.inBuffer.drop 1 = headerBytes r.lines ++ more := by
      rw [hBuffer]
      rfl
    rcases
      stuckOver_of_not_readsFields hRead hBetween hStr with
      ⟨scan, hError⟩ | ⟨⟨front, l, hLines, hText⟩, _⟩
    · have hScan :
          d.scanHeaders .exact = .ok (.error scan) := by
        rw [HttpData.scanHeaders_skip hState hBuffer, hError]
      rw [HttpData.parseHeadersBy_of_error hScan] at hCall
      cases hCall
    · have hEmpty := Request.headers_of_empty_last hLines hText
      rw [← hOwn] at hEmpty
      exact hStored.1 l.key [] hEmpty rfl

namespace Conn

/- The stages in front of the analysis analyse nothing. -/
theorem analyses_failWith
    (c : Conn)
    (errNum : Nat)
    (shortMsg : Bytes) :
    (c.failWith errNum shortMsg).analyses = c.analyses := by
  unfold analyses failWith handleError
  simp [TraceEvent.isAnalysis]

/- A pass that reaches the analysis went on three times. -/
theorem atAnalysis_go
    {c c₁ c₃ : Conn}
    {line rest : Bytes}
    (hRead : c.readStage = .go c₁)
    (hState : c₁.http.state = .parseUri)
    (hPos : c₁.http.nowReadPos = 0)
    (hBuffer : c₁.http.inBuffer = line ++ 13 :: rest)
    (hLine : 13 ∉ line)
    (hDue : c.atAnalysis = .ok (.go c₃)) :
    ∃ method fileName version d,
      ReadsAs line method fileName version ∧
        (c₁.lineRead method fileName version
            rest).http.parseHeaders =
          .ok (.success, d) ∧
        c₃.http.method = method ∧
        c₃.http.fileName = fileName ∧
        c₃.http.httpVersion = version ∧
        c₃.http.headers = d.headers ∧
        (method = .post →
          ∃ value n,
            d.headers (utf8 "Content-length") = some value ∧
              stoi value = .ok n ∧
              n ≤ toInt32 d.inBuffer.length) := by
  have hUri := HttpData.parseURI_of_cr hPos hBuffer hLine
  rcases parseRequestLine_cases line with
    ⟨method, fileName, version, hReads⟩ | hRefused
  · have hBefore :=
      atHeaders_of_readsAs hRead hState hUri hReads
    unfold atAnalysis atBody at hDue
    rw [hBefore] at hDue
    cases hStage :
        (c₁.lineRead method fileName version
          rest).headerStage with
    | error f =>
        simp only [bind, Except.bind, Flow.andThen, hStage]
          at hDue
        cases hDue
    | ok flow =>
        simp only [bind, Except.bind, Flow.andThen, hStage]
          at hDue
        rcases headerStage_cases hStage with
          ⟨hNot, _⟩ | ⟨_, d, _, rfl⟩ | ⟨_, d, _, rfl⟩ |
            ⟨_, d, hCall, rfl⟩
        · exact absurd rfl hNot
        · cases hDue
        · cases hDue
        · rcases parseHeaders_frame hCall with
            ⟨scan, k, rfl⟩
          rcases bodyStage_cases hDue with
            ⟨hNot, hFlow⟩ | ⟨_, hFlow⟩ | ⟨_, hFlow⟩ |
              ⟨_, hLength, hFlow⟩ <;>
            cases hFlow
          · refine
              ⟨method, fileName, version, _, hReads, hCall,
                rfl, rfl, rfl, rfl, ?_⟩
            rintro rfl
            exact absurd rfl hNot
          · exact
              ⟨method, fileName, version, _, hReads, hCall,
                rfl, rfl, rfl, rfl, fun _ => hLength⟩
  · rcases
      atHeaders_of_refused hRead hState hUri hRefused with
      ⟨method, fileName, hBefore⟩
    unfold atAnalysis atBody at hDue
    rw [hBefore] at hDue
    cases hDue

/- A record with more analyses than another has its own. -/
theorem analyses_prefix
    {c c' : Conn}
    (h : c.Later c') :
    c.analyses <+: c'.analyses :=
  h.trace.filter _

theorem analyses_readStage
    (c : Conn) :
    c.readStage.conn.analyses = c.analyses := by
  rcases c.readStage_cases with h | h | h | h | h <;> rw [h]
  · rfl
  · exact analyses_failWith _ _ _
  · rfl
  · rfl
  · rfl

theorem analyses_uriStage
    {c : Conn}
    {flow : Flow}
    (hPos : c.http.nowReadPos = 0)
    (h : c.uriStage = .ok flow) :
    flow.conn.analyses = c.analyses := by
  rcases c.uriStage_cases hPos with
    ⟨_, hCall⟩ | ⟨_, _, _, _, _, _, _, hCall⟩ |
      ⟨_, _, _, _, _, _, _, _, hCall⟩ <;>
    rw [hCall] at h <;> cases h
  · rfl
  · exact analyses_failWith _ _ _
  · rfl

theorem analyses_headerStage
    {c : Conn}
    {flow : Flow}
    (h : c.headerStage = .ok flow) :
    flow.conn.analyses = c.analyses := by
  rcases headerStage_cases h with
    ⟨_, rfl⟩ | ⟨_, _, _, rfl⟩ | ⟨_, _, _, rfl⟩ |
      ⟨_, _, _, rfl⟩
  · rfl
  · rfl
  · exact analyses_failWith _ _ _
  · rfl

theorem analyses_bodyStage
    {c : Conn}
    {flow : Flow}
    (h : c.bodyStage = .ok flow) :
    flow.conn.analyses = c.analyses := by
  rcases bodyStage_cases h with
    ⟨_, rfl⟩ | ⟨_, rfl⟩ | ⟨_, rfl⟩ | ⟨_, _, rfl⟩
  · rfl
  · exact analyses_failWith _ _ _
  · rfl
  · rfl

/- Nothing is analysed before the last stage. -/
theorem analyses_atAnalysis
    {c : Conn}
    {flow : Flow}
    (hPos : c.http.nowReadPos = 0)
    (h : c.atAnalysis = .ok flow) :
    flow.conn.analyses = c.analyses := by
  have hRead := c.analyses_readStage
  have hOn := c.onward_readStage
  unfold atAnalysis atBody atHeaders at h
  cases hFirst : c.readStage with
  | brk c₁ =>
      rw [hFirst] at h hRead
      cases h
      exact hRead
  | go c₁ =>
      rw [hFirst] at h hRead hOn
      cases hUri : c₁.uriStage with
      | error f =>
          simp only [Flow.andThen, hUri, bind, Except.bind]
            at h
          cases h
      | ok flow₁ =>
          have hLine :=
            analyses_uriStage (hOn.nowReadPos.trans hPos)
              hUri
          simp only [Flow.andThen, hUri, bind, Except.bind]
            at h
          cases flow₁ with
          | brk c₂ =>
              cases h
              exact hLine.trans hRead
          | go c₂ =>
              cases hStage : c₂.headerStage with
              | error f =>
                  simp only [hStage] at h
                  cases h
              | ok flow₂ =>
                  have hHeaders := analyses_headerStage hStage
                  simp only [hStage] at h
                  cases flow₂ with
                  | brk c₃ =>
                      cases h
                      exact hHeaders.trans (hLine.trans hRead)
                  | go c₃ =>
                      exact
                        (analyses_bodyStage h).trans
                          (hHeaders.trans (hLine.trans hRead))

/- The analysis is the last thing that enters the record. -/
theorem analyses_analysisStage
    {c : Conn}
    {fs : FileSystem}
    {flow : Flow}
    (hState : c.http.state = .analysis)
    (h : c.analysisStage fs = .ok flow) :
    flow.conn.analyses =
      c.analyses ++
        [.analysisRequest c.http.method c.http.fileName
          c.http.httpVersion c.http.headers] := by
  rcases analysisStage_cases h with
    ⟨hNot, _⟩ | ⟨_, _, rfl⟩ | ⟨_, _, _, _, rfl⟩ |
      ⟨_, _, _, _, rfl⟩
  · exact absurd hState hNot
  · simp [Flow.conn, analyses, analysed,
      TraceEvent.isAnalysis]
  · simp [Flow.conn, analyses, analysed,
      TraceEvent.isAnalysis]
  · simp only [Flow.conn]
    rw [analyses_failWith]
    simp [analyses, answered, analysed,
      TraceEvent.isAnalysis]

/- Sending and concluding leave the record alone. -/
theorem trace_conclude
    (c : Conn) :
    c.sendPending.conclude.2.trace = c.trace := by
  rcases c.sendPending_frame with ⟨_, _, _, _, _, hFrame⟩
  have hSend : c.sendPending.trace = c.trace := by
    rw [hFrame]
  rcases c.sendPending.reset_frame with ⟨_, _, hReset⟩
  rw [← hSend]
  unfold conclude
  split_ifs
  · rfl
  · simp only
    rw [hReset]
  · rfl
  · rfl

/- A pass that breaks off early is the last one. -/
theorem pass_of_brk
    {c c₃ : Conn}
    (hDue : c.atAnalysis = .ok (.brk c₃))
    (hState : c₃.http.state ≠ .finish)
    (fs : FileSystem) :
    c.pass fs = .ok (false, c₃.sendPending.conclude.2) := by
  have hStages : c.stages fs = .ok c₃ := by
    rw [stages_eq, hDue]
    rfl
  rw [pass_eq, hStages]
  simp only [Except.map, Except.ok.injEq]
  cases hLast : c₃.sendPending.conclude with
  | mk again c' =>
      cases again with
      | false => rfl
      | true =>
          have hFinish := (conclude_again hLast).2.1
          rcases c₃.sendPending_frame with
            ⟨_, _, _, _, _, hFrame⟩
          rw [hFrame] at hFinish
          exact absurd hFinish hState

/- With an error, that is all of the pass. -/
theorem pass_of_brk_error
    {c c₃ : Conn}
    (hDue : c.atAnalysis = .ok (.brk c₃))
    (hState : c₃.http.state ≠ .finish)
    (hError : c₃.http.error = true)
    (fs : FileSystem) :
    c.pass fs = .ok (false, c₃) := by
  have hSend : c₃.sendPending = c₃ := by
    unfold sendPending
    rw [if_neg (by simp [hError])]
  have hConclude : c₃.conclude = (false, c₃) := if_pos hError
  rw [pass_of_brk hDue hState fs, hSend, hConclude]

/- Sending and concluding analyse nothing. -/
theorem analyses_conclude
    (c : Conn) :
    c.sendPending.conclude.2.analyses = c.analyses :=
  congrArg (List.filter _) c.trace_conclude

end Conn

/-
  A request that is not read as itself is not analysed, and
  is the last, or something else is analysed in its place.
-/
theorem Idle.pass_of_not_readFrom
    {c c₁ c' : Conn}
    {fs : FileSystem}
    {r : Request}
    {line more : Bytes}
    {again : Bool}
    (hIdle : Idle c)
    (hRead : c.readStage = .go c₁)
    (hIdle₁ : Idle c₁)
    (hBuffer :
      c₁.http.inBuffer =
        line ++ 13 :: 10 :: (headerBytes r.lines ++ more))
    (hShort : c₁.http.inBuffer.length < 2 ^ 31)
    (hLine : 13 ∉ line)
    (hNot : ¬ r.ReadFrom line)
    (hPass : c.pass fs = .ok (again, c')) :
    (again = false ∧ c'.analyses = c.analyses) ∨
      ∃ e, e ≠ r.analysis ∧
        c'.analyses = c.analyses ++ [e] := by
  cases hDue : c.atAnalysis with
  | error f =>
      rw [Conn.pass_eq, Conn.stages_eq, hDue] at hPass
      cases hPass
  | ok flow =>
      have hStart :=
        hIdle.atStart.atAnalysis hIdle.nowReadPos hDue
      have hBefore :=
        Conn.analyses_atAnalysis hIdle.nowReadPos hDue
      cases flow with
      | brk c₃ =>
          left
          rw [Conn.pass_of_brk hDue hStart fs] at hPass
          cases hPass
          exact ⟨rfl, c₃.analyses_conclude.trans hBefore⟩
      | go c₃ =>
          right
          rcases c₃.analysisStage_ok fs with ⟨flow, hLast⟩
          have hNew :=
            Conn.analyses_analysisStage hStart.1 hLast
          rw [Conn.pass_eq, Conn.stages_eq, hDue] at hPass
          simp only [Except.bind, Flow.andThen, hLast,
            Except.map, Except.ok.injEq] at hPass
          have hSame := flow.conn.analyses_conclude
          rw [hPass] at hSame
          refine ⟨_, ?_, by rw [hSame, hNew, ← hBefore]; rfl⟩
          intro hOwn
          rcases
            Conn.atAnalysis_go hRead hIdle₁.state
              hIdle₁.nowReadPos hBuffer hLine hDue with
            ⟨method, fileName, version, d, hReads, hCall,
              hMethod, hFile, hVersion, hHeaders, _⟩
          rw [hMethod, hFile, hVersion, hHeaders] at hOwn
          simp only [Request.analysis,
            TraceEvent.analysisRequest.injEq] at hOwn
          rcases hOwn with ⟨rfl, rfl, rfl, hOwn⟩
          have hLess :
              (10 :: (headerBytes r.lines ++ more)).length <
                2 ^ 31 := by
            rw [hBuffer] at hShort
            simp only [List.length_append, List.length_cons]
              at hShort ⊢
            omega
          rw [HttpData.parseHeaders_eq hLess] at hCall
          have hFields :=
            readsFields_of_parseHeadersBy
              (show (c₁.lineRead r.method r.fileName r.version
                (10 :: (headerBytes r.lines ++
                  more))).http.hState = .start from
                hIdle₁.hState)
              hIdle₁.headers rfl hCall hOwn
          exact hNot ⟨hReads, hFields⟩

end V3

end WebServer

------------------------------------------------------------
-- Lists Of Requests
------------------------------------------------------------

namespace WebServer

namespace V3

open StdString

/-
  What a call finds of a list of requests: the first with
  `line` as its request line, the others untouched.
-/
structure Finds
    (c : Conn)
    (line : Bytes)
    (r : Request)
    (rs : List Request) : Prop where
  idle : Idle c
  line_plain : 13 ∉ line
  bytes : ∃ bytes,
    Brings c.socket.reads bytes ∧
      c.http.inBuffer ++ bytes =
        line ++ 13 :: 10 ::
          (headerBytes r.lines ++ rs.flatMap Request.bytes)
  short :
    (line ++ 13 :: 10 ::
      (headerBytes r.lines ++
        rs.flatMap Request.bytes)).length < 2 ^ 31

/- What it has once it has read everything. -/
theorem Finds.readStage
    {c : Conn}
    {line : Bytes}
    {r : Request}
    {rs : List Request}
    (h : Finds c line r rs) :
    ∃ c₁,
      c.readStage = .go c₁ ∧
        Idle c₁ ∧
        c₁.http.inBuffer =
          line ++ 13 :: 10 ::
            (headerBytes r.lines ++
              rs.flatMap Request.bytes) ∧
        c₁.socket.reads = [] ∧
        c₁.trace = c.trace ∧
        c₁.output = c.output := by
  rcases h.bytes with ⟨bytes, hBrings, hBuffer⟩
  have hShort : bytes.length < 2 ^ 31 := by
    have hAll := h.short
    rw [← hBuffer, List.length_append] at hAll
    omega
  exact
    ⟨c.holding (c.http.inBuffer ++ bytes),
      readStage_of_brings hBrings hShort
        h.idle.connectionState,
      h.idle.holding _, hBuffer, rfl, rfl, rfl⟩

theorem Request.cr_not_mem_line
    (r : Request) :
    13 ∉ r.line := by
  intro hMem
  exact (Request.mem_line hMem).1 rfl

/-
  The call for the rest of the list finds the next request
  without its first byte.
-/
theorem finds_next
    {c : Conn}
    {r : Request}
    {rs : List Request}
    (hIdle : Idle c)
    (hReads : c.socket.reads = [])
    (hBuffer :
      c.http.inBuffer =
        ((r :: rs).flatMap Request.bytes).drop 1)
    (hShort :
      ((r :: rs).flatMap Request.bytes).length < 2 ^ 31) :
    Finds c (r.line.drop 1) r rs where
  idle := hIdle
  line_plain := fun hMem =>
    r.cr_not_mem_line (List.mem_of_mem_drop hMem)
  bytes := by
    refine ⟨[], hReads ▸ brings_nil, ?_⟩
    rw [hBuffer, List.append_nil, List.flatMap_cons,
      Request.bytes, List.append_assoc,
      List.drop_append_of_le_length
        (List.length_pos_iff.mpr r.line_ne)]
    simp
  short := by
    have hLine := List.length_pos_iff.mpr r.line_ne
    simp only [List.flatMap_cons, Request.bytes,
      List.length_append, List.length_cons,
      List.length_drop] at hShort ⊢
    omega

theorem Finds.short_others
    {c : Conn}
    {line : Bytes}
    {r : Request}
    {rs : List Request}
    (h : Finds c line r rs) :
    (rs.flatMap Request.bytes).length < 2 ^ 31 := by
  have hShort := h.short
  simp only [List.length_append, List.length_cons] at hShort
  omega

/- The pass that processes the first request of the list. -/
theorem Finds.pass_of_readFrom
    {c : Conn}
    {fs : FileSystem}
    {line : Bytes}
    {r : Request}
    {rs : List Request}
    (h : Finds c line r rs)
    (hServed : (r.response fs).isSome)
    (hFrom : r.ReadFrom line) :
    ∃ c',
      c.pass fs =
          .ok
            (decide ((rs.flatMap Request.bytes).drop 1 ≠ []),
              c') ∧
        Idle c' ∧
        c'.http.inBuffer =
          (rs.flatMap Request.bytes).drop 1 ∧
        c'.socket.reads = [] ∧
        c'.analyses = c.analyses ++ [r.analysis] ∧
        c'.output = c.output ++ (r.response fs).getD [] := by
  rcases h.readStage with
    ⟨c₁, hRead, hIdle, hBuffer, hReads, hTrace, hOutput⟩
  rcases Option.isSome_iff_exists.mp hServed with
    ⟨bytes, hResponse⟩
  rcases
    hIdle.pass_of_readFrom hRead hBuffer
      (by rw [hBuffer]; exact h.short) h.line_plain hFrom
      hResponse with
    ⟨c', hPass, hIdle', hRest, hReads', hTrace', hOutput'⟩
  refine
    ⟨c', hPass, hIdle', hRest, hReads'.trans hReads, ?_, ?_⟩
  · unfold Conn.analyses
    rw [hTrace', hTrace, List.filter_append]
    rfl
  · rw [hOutput', hOutput, hResponse]
    rfl

theorem drop_bytes_ne
    (r : Request)
    (rs : List Request) :
    ((r :: rs).flatMap Request.bytes).drop 1 ≠ [] := by
  intro hNil
  have hLen := congrArg List.length hNil
  simp [Request.bytes] at hLen

/-
  Requests that are all read as themselves are processed, by
  induction on the list.
-/
theorem processed_of_readFrom
    {fs : FileSystem}
    {rs : List Request}
    {r : Request}
    {c : Conn}
    {line : Bytes}
    {depth : Nat}
    (hFinds : Finds c line r rs)
    (hServed : ∀ q ∈ r :: rs, (q.response fs).isSome)
    (hFirst : r.ReadFrom line)
    (hOthers : ∀ q ∈ rs, q.ReadFrom (q.line.drop 1))
    (hDepth :
      Conn.handleReadAt fs depth c ≠ .error .tooDeep) :
    ∃ c', Conn.handleReadAt fs depth c = .ok c' ∧
      Processed fs (r :: rs) c c' := by
  rcases
    hFinds.pass_of_readFrom (hServed r List.mem_cons_self)
      hFirst with
    ⟨c₁, hPass, hIdle, hRest, hReads, hAnalyses, hOutput⟩
  induction rs generalizing r c line depth c₁ with
  | nil =>
      cases depth with
      | zero => exact absurd rfl hDepth
      | succ depth =>
          refine ⟨c₁, ?_, hAnalyses, ?_, hRest⟩
          · simp only [Conn.handleReadAt, hPass]
            rfl
          · rw [hOutput]
            simp
  | cons q rs ih =>
      cases depth with
      | zero => exact absurd rfl hDepth
      | succ depth =>
          rw [decide_eq_true (drop_bytes_ne q rs)] at hPass
          simp only [Conn.handleReadAt, hPass] at hDepth ⊢
          have hFinds' :=
            finds_next hIdle hReads hRest hFinds.short_others
          have hSecond := hOthers q List.mem_cons_self
          have hServed' := fun p hMem =>
            hServed p (List.mem_cons_of_mem _ hMem)
          rcases
            hFinds'.pass_of_readFrom
              (hServed' q List.mem_cons_self) hSecond with
            ⟨c₂, hPass', hIdle', hRest', hReads', hAnalyses',
              hOutput'⟩
          rcases
            ih hFinds' hServed' hSecond
              (fun p hMem =>
                hOthers p (List.mem_cons_of_mem _ hMem))
              hDepth c₂ hPass' hIdle' hRest' hReads'
              hAnalyses' hOutput' with
            ⟨c', hCall, hDone⟩
          refine ⟨c', hCall, ?_, ?_, hDone.inBuffer⟩
          · rw [hDone.analyses, hAnalyses]
            simp
          · rw [hDone.output, hOutput]
            simp

/- A request that is analysed as itself was read as itself. -/
theorem Finds.readFrom_of_analyses
    {fs : FileSystem}
    {rs : List Request}
    {r : Request}
    {c c' : Conn}
    {line : Bytes}
    {depth : Nat}
    {others : List TraceEvent}
    (h : Finds c line r rs)
    (hCall : Conn.handleReadAt fs depth c = .ok c')
    (hAnalyses :
      c'.analyses = c.analyses ++ r.analysis :: others) :
    r.ReadFrom line := by
  by_contra hNot
  rcases h.readStage with
    ⟨c₁, hRead, hIdle, hBuffer, _⟩
  cases depth with
  | zero => cases hCall
  | succ depth =>
      cases hPass : c.pass fs with
      | error f =>
          simp only [Conn.handleReadAt, hPass] at hCall
          cases hCall
      | ok result =>
          rcases result with ⟨again, c₂⟩
          simp only [Conn.handleReadAt, hPass] at hCall
          rcases
            h.idle.pass_of_not_readFrom hRead hIdle hBuffer
              (by rw [hBuffer]; exact h.short) h.line_plain
              hNot hPass with
            ⟨rfl, hSame⟩ | ⟨e, hOther, hNew⟩
          · cases hCall
            have hLen := congrArg List.length hAnalyses
            rw [hSame] at hLen
            simp at hLen
          · have hPrefix : c₂.analyses <+: c'.analyses := by
              have hPos :=
                (Conn.later_pass h.idle.nowReadPos
                  hPass).nowReadPos h.idle.nowReadPos
              cases again with
              | false =>
                  cases hCall
                  exact List.prefix_rfl
              | true =>
                  exact
                    Conn.analyses_prefix
                      (Conn.later_handleReadAt hPos hCall)
            rw [hNew, hAnalyses,
              List.prefix_append_right_inj,
              List.cons_prefix_cons] at hPrefix
            exact hOther hPrefix.1

/-
  Where all requests are analysed as themselves, each was
  read as itself, by induction on the list.
-/
theorem readFrom_of_analyses
    {fs : FileSystem}
    {rs : List Request}
    {r : Request}
    {c c' : Conn}
    {line : Bytes}
    {depth : Nat}
    (hFinds : Finds c line r rs)
    (hServed : ∀ q ∈ r :: rs, (q.response fs).isSome)
    (hCall : Conn.handleReadAt fs depth c = .ok c')
    (hAnalyses :
      c'.analyses =
        c.analyses ++ (r :: rs).map Request.analysis) :
    r.ReadFrom line ∧
      ∀ q ∈ rs, q.ReadFrom (q.line.drop 1) := by
  induction rs generalizing r c line depth with
  | nil =>
      exact
        ⟨hFinds.readFrom_of_analyses hCall hAnalyses,
          by simp⟩
  | cons q rs ih =>
      have hFrom :=
        hFinds.readFrom_of_analyses hCall hAnalyses
      refine ⟨hFrom, ?_⟩
      rcases
        hFinds.pass_of_readFrom (hServed r List.mem_cons_self)
          hFrom with
        ⟨c₁, hPass, hIdle, hRest, hReads, hFirst, _⟩
      cases depth with
      | zero => cases hCall
      | succ depth =>
          rw [decide_eq_true (drop_bytes_ne q rs)] at hPass
          simp only [Conn.handleReadAt, hPass] at hCall
          have hOthers :=
            ih
              (finds_next hIdle hReads hRest
                hFinds.short_others)
              (fun p hMem =>
                hServed p (List.mem_cons_of_mem _ hMem))
              hCall (by rw [hAnalyses, hFirst]; simp)
          intro p hMem
          rcases List.mem_cons.mp hMem with rfl | hMem
          · exact hOthers.1
          · exact hOthers.2 p hMem

/-
  Requests for files that can be served, together of less
  than 2^31 bytes, arrive in one event on an idle connection
  that can send everything. All of them are processed
  exactly when each keeps its headers, no name of another
  method comes first in the first request line, and the
  targets of the others name the request again.
-/
theorem processed_iff_readInTurn
    {c : Conn}
    {fs : FileSystem}
    {r : Request}
    {rs : List Request}
    (hIdle : Idle c)
    (hEmpty : c.http.inBuffer = [])
    (hBrings :
      Brings c.socket.reads
        ((r :: rs).flatMap Request.bytes))
    (hServed : ∀ q ∈ r :: rs, (q.response fs).isSome)
    (hShort :
      ((r :: rs).flatMap Request.bytes).length < 2 ^ 31) :
    (∃ c', c.handleRead fs = .ok c' ∧
        Processed fs (r :: rs) c c') ↔
      ReadInTurn (r :: rs) := by
  have hFinds : Finds c r.line r rs :=
    { idle := hIdle
      line_plain := r.cr_not_mem_line
      bytes :=
        ⟨_, hBrings, by
          rw [hEmpty]
          simp [Request.bytes]⟩
      short := by
        simpa [Request.bytes] using hShort }
  have hLines : ∀ q ∈ r :: rs,
      q.line.length < 2 ^ 31 := by
    intro q hMem
    rcases List.append_of_mem hMem with
      ⟨front, back, hSplit⟩
    rw [hSplit] at hShort
    simp only [List.flatMap_append, List.flatMap_cons,
      Request.bytes, List.length_append] at hShort
    omega
  have hHead := hLines r List.mem_cons_self
  unfold ReadInTurn
  constructor
  · rintro ⟨c', hCall, hDone⟩
    have hFrom :=
      readFrom_of_analyses hFinds hServed hCall
        hDone.analyses
    refine
      ⟨(Request.readFrom_line_iff hHead).mp hFrom.1, ?_⟩
    intro q hMem
    have hLine := hLines q (List.mem_cons_of_mem _ hMem)
    exact
      (Request.readFrom_drop_iff hLine).mp (hFrom.2 q hMem)
  · rintro ⟨hFirst, hOthers⟩
    refine
      processed_of_readFrom hFinds hServed
        ((Request.readFrom_line_iff hHead).mpr hFirst) ?_
        (Conn.handleRead_not_tooDeep fs hIdle.nowReadPos)
    intro q hMem
    have hLine := hLines q (List.mem_cons_of_mem _ hMem)
    exact
      (Request.readFrom_drop_iff hLine).mpr (hOthers q hMem)

/- A request for `hello` with one header line. -/
def helloRequest : Request where
  method := .get
  path := utf8 "hello"
  query := none
  version := .http11
  lines :=
    [{ key := utf8 "Host"
       text := utf8 " localhost"
       key_ne := by decide
       key_plain := by decide +kernel
       text_plain := by decide +kernel }]
  method_ne := by decide
  path_plain := by decide +kernel
  query_plain := by
    intro q hQuery
    cases hQuery

theorem idle_new
    (reads : List ReadResult)
    (sent : Bytes) :
    Idle (.new ⟨reads, [], sent⟩) :=
  ⟨rfl, rfl, rfl, rfl, rfl, rfl, rfl, rfl⟩

/- The same file, with its method named in the query. -/
def helloAgain : Request where
  method := .get
  path := utf8 "hello"
  query := some (utf8 "GET/hello")
  version := .http11
  lines := helloRequest.lines
  method_ne := by decide
  path_plain := by decide +kernel
  query_plain := by
    intro q hQuery
    cases hQuery
    decide +kernel

theorem fieldsKept_of_hello
    {r : Request}
    (hLines : r.lines = helloRequest.lines) :
    r.FieldsKept := by
  refine
    ⟨[(utf8 "Host", utf8 "localhost")], by simp, ?_, ?_⟩
  · rw [hLines]
    exact .line (by decide +kernel) (by decide +kernel) .nil
  · unfold Request.headers
    rw [hLines]
    rfl

theorem readInTurn_hello :
    ReadInTurn [helloRequest, helloAgain] := by
  refine
    ⟨⟨fun hHead => (by cases hHead),
      fieldsKept_of_hello rfl⟩, ?_⟩
  intro q hMem
  rw [List.mem_singleton.mp hMem]
  exact
    ⟨⟨7, utf8 "GET", utf8 "hello", by decide +kernel,
      by decide +kernel, by decide +kernel,
      by decide +kernel⟩, fieldsKept_of_hello rfl⟩

/- Two requests in one read, both processed. -/
theorem processed_iff_readInTurn_hello :
    ∃ c',
      (Conn.new
          ⟨[.data (helloRequest.bytes ++ helloAgain.bytes)],
            [], []⟩).handleRead noFiles = .ok c' ∧
        Processed noFiles [helloRequest, helloAgain]
          (.new
            ⟨[.data
              (helloRequest.bytes ++ helloAgain.bytes)],
              [], []⟩)
          c' :=
  (processed_iff_readInTurn (idle_new _ _) rfl
    (brings_data (by decide) (by decide)) (by decide)
    (by decide)).mpr readInTurn_hello

/-
  Of two requests that arrive together, the second is not
  processed: its method is read as `ET`.
-/
theorem second_request_misread :
    ¬ ∃ c',
      (Conn.new
          ⟨[.data (helloRequest.bytes ++ helloRequest.bytes)],
            [], []⟩).handleRead noFiles = .ok c' ∧
        Processed noFiles [helloRequest, helloRequest]
          (.new
            ⟨[.data
              (helloRequest.bytes ++ helloRequest.bytes)],
              [], []⟩)
          c' := by
  rintro ⟨c', hCall, hDone⟩
  have hOne :
      ((Conn.new
          ⟨[.data (helloRequest.bytes ++ helloRequest.bytes)],
            [], []⟩).handleRead noFiles).map
          (fun c => c.analyses.length) =
        .ok 1 := by
    decide +kernel
  rw [hCall] at hOne
  have hTwo := congrArg List.length hDone.analyses
  simp only [Except.map, Except.ok.injEq] at hOne
  rw [hOne] at hTwo
  simp [Conn.analyses, Conn.new] at hTwo

end V3

end WebServer
