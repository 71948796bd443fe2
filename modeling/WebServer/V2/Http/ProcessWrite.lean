import WebServer.Library.MessageFraming
import WebServer.V2.Http.Write
import WebServer.V2.MainLoop

/-
  Making a response in version 2.0
  (`http_conn::process_write` and the `add_` functions).

  A response is printed into `m_write_buffer`. Each piece is
  added behind the last one if it fits, and what a piece
  that does not fit leaves is not sent. `add_headers` ends
  without a `return`; no caller reads what it returns.

  Key definitions include:
    * `HttpConn.addResponse`
    * `HttpConn.addHeaders`
    * `HttpConn.processWrite`
    * `HttpConn.Holds`
    * `HttpCode.response`
    * `HttpCode.Responds`

  Key theorems include:
    * `HttpConn.Holds.addResponse`
    * `HttpConn.Holds.processWrite`
    * `HttpCode.responds`
-/

------------------------------------------------------------
-- Texts
------------------------------------------------------------

namespace WebServer

namespace V2

def ok200Title : Bytes := utf8 "OK"

def error400Title : Bytes := utf8 "Bad Request"

def error400Form : Bytes :=
  utf8
    "Your request had had syntax or is inherently impossible to satisfy.\n"

def error403Title : Bytes := utf8 "Forbidden"

def error403Form : Bytes :=
  utf8
    "You do not have permission to get file from this server.\n"

def error404Title : Bytes := utf8 "Not Found"

def error404Form : Bytes :=
  utf8 "The requested file was not found on this server.\n"

def error500Title : Bytes := utf8 "Internal Error"

def error500Form : Bytes :=
  utf8
    "There was an unusual problem serving the requested file.\n"

/- An `int` as `%d` prints it. -/
def decimal
    (n : Int) : Bytes :=
  (if n < 0 then [45] else []) ++ utf8 (toString n.natAbs)

/- `"%s %d %s\r\n"`. -/
def statusLine
    (status : Int)
    (title : Bytes) : Bytes :=
  utf8 "HTTP/1.1" ++ 32 :: decimal status ++ 32 :: title ++
    utf8 "\r\n"

/- `"Content-Length: %d\r\n"`. -/
def contentLengthLine
    (contentLen : Int) : Bytes :=
  utf8 "Content-Length: " ++ decimal contentLen ++ utf8 "\r\n"

/- `"Content-Type:%s\r\n"`. -/
def contentTypeLine : Bytes :=
  utf8 "Content-Type:" ++ utf8 "text/html" ++ utf8 "\r\n"

/- `"Connection:%s\r\n"`. -/
def lingerLine
    (linger : Bool) : Bytes :=
  utf8 "Connection:" ++
    (if linger then utf8 "keep=alive" else utf8 "close") ++
      utf8 "\r\n"

end V2

end WebServer

------------------------------------------------------------
-- Printing
------------------------------------------------------------

namespace WebServer

namespace V2

namespace HttpConn

/- `add_response(format, ..)`, given the text it formats. -/
def addResponse
    (conn : HttpConn)
    (text : Bytes) : Bool × HttpConn :=
  if writeBufferSize ≤ conn.writeIdx then
    (false, conn)
  else
    let room := writeBufferSize - 1 - conn.writeIdx
    let conn' :=
      { conn with
        writeBuffer :=
          CString.vsnprintf conn.writeBuffer
            conn.writeIdx.toNat room.toNat text }
    if room ≤ text.length then
      (false, conn')
    else
      (true,
        { conn' with
          writeIdx := conn.writeIdx + text.length })

/- `add_status_line(status, title)`. -/
def addStatusLine
    (conn : HttpConn)
    (status : Int)
    (title : Bytes) : Bool × HttpConn :=
  conn.addResponse (statusLine status title)

/- `add_content_length(content_len)`. -/
def addContentLength
    (conn : HttpConn)
    (contentLen : Int) : Bool × HttpConn :=
  conn.addResponse (contentLengthLine contentLen)

/- `add_content_type()`. -/
def addContentType
    (conn : HttpConn) : Bool × HttpConn :=
  conn.addResponse contentTypeLine

/- `add_linger()`. -/
def addLinger
    (conn : HttpConn) : Bool × HttpConn :=
  conn.addResponse (lingerLine conn.linger)

/- `add_blank_line()`. -/
def addBlankLine
    (conn : HttpConn) : Bool × HttpConn :=
  conn.addResponse (utf8 "\r\n")

/- `add_headers(content_len)`. -/
def addHeaders
    (conn : HttpConn)
    (contentLen : Int) : HttpConn :=
  let conn := (conn.addContentLength contentLen).2
  let conn := conn.addContentType.2
  let conn := conn.addLinger.2
  conn.addBlankLine.2

/- `add_content(content)`. -/
def addContent
    (conn : HttpConn)
    (content : Bytes) : Bool × HttpConn :=
  conn.addResponse content

/- The end of `process_write`: one iovec, for the buffer. -/
def describeBuffer
    (conn : HttpConn) : HttpConn :=
  { conn with
    iv0 := ⟨.writeBuffer, 0, conn.writeIdx.toNat⟩
    ivCount := 1
    bytesToSend := conn.writeIdx }

/- A case of `process_write` that answers with a form. -/
def errorResponse
    (conn : HttpConn)
    (status : Int)
    (title form : Bytes) : Bool × HttpConn :=
  let conn := (conn.addStatusLine status title).2
  let conn := conn.addHeaders form.length
  let (added, conn) := conn.addContent form
  if added then (true, conn.describeBuffer) else (false, conn)

/-
  `process_write(ret)`, where `m_file_stat` gives the size
  `stSize`.
-/
def processWrite
    (conn : HttpConn)
    (stSize : Nat) :
    HttpCode → Bool × HttpConn
| .noRequest =>
    conn.errorResponse 500 error500Title error500Form
| .getRequest =>
    let conn := (conn.addStatusLine 200 ok200Title).2
    (true, (conn.addHeaders 0).describeBuffer)
| .badRequest =>
    conn.errorResponse 400 error400Title error400Form
| .noResource =>
    conn.errorResponse 404 error404Title error404Form
| .forbiddenRequest =>
    conn.errorResponse 403 error403Title error403Form
| .fileRequest =>
    let conn := (conn.addStatusLine 200 ok200Title).2
    let conn := conn.addHeaders (toInt32 stSize)
    (true,
      { conn with
        iv0 := ⟨.writeBuffer, 0, conn.writeIdx.toNat⟩
        iv1 := ⟨.mapping, 0, stSize⟩
        ivCount := 2
        bytesToSend := toInt32 (conn.writeIdx + stSize) })
| .internalError =>
    -- the headers are added twice
    let conn := (conn.addStatusLine 500 error500Form).2
    let conn := conn.addHeaders error500Form.length
    let conn := conn.addHeaders error500Form.length
    let (added, conn) := conn.addContent error500Form
    if added then
      (true, conn.describeBuffer)
    else
      (false, conn)
| .closedConnection => (true, conn.describeBuffer)

end HttpConn

end V2

end WebServer

------------------------------------------------------------
-- What Was Printed
------------------------------------------------------------

namespace WebServer

namespace V2

/- The four lines that `add_headers` adds. -/
def headerLines
    (linger : Bool)
    (contentLen : Int) : Bytes :=
  contentLengthLine contentLen ++ contentTypeLine ++
    lingerLine linger ++ utf8 "\r\n"

/- What `process_write` puts into the write buffer. -/
def HttpCode.response
    (linger : Bool)
    (stSize : Nat) :
    HttpCode → Bytes
| .noRequest =>
    statusLine 500 error500Title ++
      headerLines linger error500Form.length ++ error500Form
| .getRequest =>
    statusLine 200 ok200Title ++ headerLines linger 0
| .badRequest =>
    statusLine 400 error400Title ++
      headerLines linger error400Form.length ++ error400Form
| .noResource =>
    statusLine 404 error404Title ++
      headerLines linger error404Form.length ++ error404Form
| .forbiddenRequest =>
    statusLine 403 error403Title ++
      headerLines linger error403Form.length ++ error403Form
| .fileRequest =>
    statusLine 200 ok200Title ++
      headerLines linger (toInt32 stSize)
| .internalError =>
    statusLine 500 error500Form ++
      headerLines linger error500Form.length ++
        headerLines linger error500Form.length ++ error500Form
| .closedConnection => []

namespace HttpConn

/- The write buffer holds `text` up to `m_write_idx`. -/
structure Holds
    (conn : HttpConn)
    (linger : Bool)
    (text : Bytes) : Prop where
  size : conn.writeBuffer.length = writeBufferSize
  idx : conn.writeIdx = text.length
  written : text <+: conn.writeBuffer
  linger_eq : conn.linger = linger

/- A piece that fits is added behind the others. -/
theorem Holds.addResponse
    {conn : HttpConn}
    {linger : Bool}
    {text : Bytes}
    (h : conn.Holds linger text)
    (more : Bytes)
    (hFits : (text ++ more).length + 1 < writeBufferSize) :
    (conn.addResponse more).1 = true ∧
      (conn.addResponse more).2.Holds linger
        (text ++ more) := by
  have hIdx := h.idx
  rw [List.length_append] at hFits
  have hRoom :
      ((writeBufferSize : Int) - 1 - conn.writeIdx).toNat =
        writeBufferSize - 1 - text.length := by
    omega
  have hPlace : conn.writeIdx.toNat = text.length := by
    omega
  have hFree :
      more.length < writeBufferSize - 1 - text.length := by
    omega
  have hInside :
      text.length + (writeBufferSize - 1 - text.length) ≤
        conn.writeBuffer.length := by
    rw [h.size]
    omega
  have hPrinted :=
    CString.vsnprintf_append h.written more hFree hInside
  unfold HttpConn.addResponse
  rw [if_neg (by omega)]
  simp only [hRoom, hPlace]
  rw [if_neg (by omega)]
  refine ⟨rfl, ?_⟩
  exact
    { size := hPrinted.2.trans h.size
      idx := by
        show conn.writeIdx + more.length =
          (text ++ more).length
        rw [List.length_append, hIdx]
        rfl
      written := hPrinted.1
      linger_eq := h.linger_eq }

theorem length_decimal
    {n : Int}
    (h : IsInt32 n) :
    (decimal n).length ≤ 11 := by
  have hDigits : (utf8 (toString n.natAbs)).length ≤ 10 := by
    apply MessageFraming.length_toString_le (by decide)
    unfold IsInt32 at h
    omega
  unfold decimal
  rw [List.length_append]
  split_ifs
  · simp only [List.length_singleton]
    omega
  · simp only [List.length_nil]
    omega

/- The headers are short. -/
theorem length_headerLines
    {n : Int}
    (h : IsInt32 n)
    (linger : Bool) :
    (headerLines linger n).length ≤ 78 := by
  have hDigits := length_decimal h
  have hName : (utf8 "Content-Length: ").length = 16 := by
    decide
  have hEnd : (utf8 "\r\n").length = 2 := by
    decide
  have hType : contentTypeLine.length = 24 := by
    decide
  have hLinger : (lingerLine linger).length ≤ 23 := by
    cases linger <;> decide
  unfold headerLines contentLengthLine
  simp only [List.length_append, hName, hEnd, hType]
  omega

/- `add_headers` adds its four lines where they fit. -/
theorem Holds.addHeaders
    {conn : HttpConn}
    {linger : Bool}
    {text : Bytes}
    {n : Int}
    (h : conn.Holds linger text)
    (hFits :
      (text ++ headerLines linger n).length + 1 <
        writeBufferSize) :
    (conn.addHeaders n).Holds linger
      (text ++ headerLines linger n) := by
  unfold headerLines at hFits
  simp only [List.length_append] at hFits
  have hLength : (conn.addContentLength n).2.Holds linger
      (text ++ contentLengthLine n) := by
    refine (h.addResponse _ ?_).2
    simp only [List.length_append]
    omega
  have hType :
      (conn.addContentLength n).2.addContentType.2.Holds linger
        (text ++ contentLengthLine n ++ contentTypeLine) := by
    refine (hLength.addResponse _ ?_).2
    simp only [List.length_append]
    omega
  have hLinger :
      (conn.addContentLength
          n).2.addContentType.2.addLinger.2.Holds linger
        (text ++ contentLengthLine n ++ contentTypeLine ++
          lingerLine linger) := by
    unfold addLinger
    rw [hType.linger_eq]
    refine (hType.addResponse _ ?_).2
    simp only [List.length_append]
    omega
  have hBlank :
      (conn.addHeaders n).Holds linger
        (text ++ contentLengthLine n ++ contentTypeLine ++
          lingerLine linger ++ utf8 "\r\n") := by
    refine (hLinger.addResponse _ ?_).2
    simp only [List.length_append]
    omega
  unfold headerLines
  simp only [List.append_assoc] at hBlank ⊢
  exact hBlank

/- A status line and the headers behind it. -/
theorem Holds.addHead
    {conn : HttpConn}
    {linger : Bool}
    (h : conn.Holds linger [])
    (status : Int)
    (title : Bytes)
    {n : Int}
    (hLength : IsInt32 n)
    (hFits :
      (statusLine status title).length + 79 <
        writeBufferSize) :
    ((conn.addStatusLine status title).2.addHeaders n).Holds
      linger (statusLine status title ++ headerLines linger n)
      := by
  have hHeaders := length_headerLines hLength linger
  have hStatus :
      (conn.addStatusLine status title).2.Holds linger
        (statusLine status title) := by
    refine (h.addResponse _ ?_).2
    rw [List.nil_append]
    omega
  apply hStatus.addHeaders
  rw [List.length_append]
  omega

theorem Holds.describeBuffer
    {conn : HttpConn}
    {linger : Bool}
    {text : Bytes}
    (h : conn.Holds linger text) :
    conn.describeBuffer.Holds linger text :=
  { h with }

/- The first iovec is what the buffer holds. -/
theorem Holds.block
    {conn : HttpConn}
    {linger : Bool}
    {text : Bytes}
    (h : conn.Holds linger text)
    (hIv : conn.iv0 = ⟨.writeBuffer, 0, conn.writeIdx.toNat⟩) :
    conn.block conn.iv0 = some text := by
  have hLong := h.written.length_le
  have hIdx := h.idx
  have hTake := List.prefix_iff_eq_take.mp h.written
  have hPlace : conn.writeIdx.toNat = text.length := by
    omega
  rw [hIv, hPlace]
  unfold HttpConn.block regionBytes
  simp only [bind, Option.bind]
  rw [if_pos (by omega)]
  exact congrArg some hTake.symm

/-
  What `process_write` leaves behind when it succeeds: the
  first iovec is what the write buffer holds.
-/
structure Ready
    (r : Bool × HttpConn)
    (linger : Bool)
    (text : Bytes) : Prop where
  success : r.1 = true
  holds : r.2.Holds linger text
  iv0 : r.2.iv0 = ⟨.writeBuffer, 0, r.2.writeIdx.toNat⟩
  ivCount : 0 < r.2.ivCount

theorem Holds.ready
    {conn : HttpConn}
    {linger : Bool}
    {text : Bytes}
    (h : conn.Holds linger text) :
    Ready (true, conn.describeBuffer) linger text where
  success := rfl
  holds := h.describeBuffer
  iv0 := rfl
  ivCount := Nat.one_pos

/- A form that fits is sent behind its headers. -/
theorem Holds.errorResponse
    {conn : HttpConn}
    {linger : Bool}
    {status : Int}
    {title form : Bytes}
    (h : conn.Holds linger [])
    (hFits :
      (statusLine status title).length + form.length + 79 <
        writeBufferSize) :
    Ready (conn.errorResponse status title form) linger
      (statusLine status title ++
        headerLines linger form.length ++ form) := by
  have hSize : writeBufferSize = 2048 := rfl
  have hLength : IsInt32 form.length := by
    unfold IsInt32
    omega
  have hHeaders := length_headerLines hLength linger
  have hHead := h.addHead status title hLength (by omega)
  have hForm := hHead.addResponse form (by
    simp only [List.length_append]
    omega)
  unfold HttpConn.errorResponse addContent
  simp only [hForm.1, if_true]
  exact hForm.2.ready

/- Every response fits into the write buffer. -/
theorem Holds.processWrite
    {conn : HttpConn}
    {linger : Bool}
    (h : conn.Holds linger [])
    (stSize : Nat)
    (code : HttpCode) :
    Ready (conn.processWrite stSize code) linger
      (code.response linger stSize) := by
  have hOk : (statusLine 200 ok200Title).length + 79 <
      writeBufferSize := by
    decide
  cases code with
  | noRequest => exact h.errorResponse (by decide)
  | getRequest =>
      have hZero : IsInt32 0 := by
        decide
      exact (h.addHead 200 ok200Title hZero hOk).ready
  | badRequest => exact h.errorResponse (by decide)
  | noResource => exact h.errorResponse (by decide)
  | forbiddenRequest => exact h.errorResponse (by decide)
  | fileRequest =>
      have hHead :=
        h.addHead 200 ok200Title
          (isInt32_toInt32 (stSize : Int)) hOk
      exact
        { success := rfl
          holds := { hHead with }
          iv0 := rfl
          ivCount := Nat.two_pos }
  | internalError =>
      have hSize : writeBufferSize = 2048 := rfl
      have hForm : error500Form.length = 57 := by
        decide
      have hLength : IsInt32 error500Form.length := by
        decide
      have hStatus :
          (statusLine 500 error500Form).length = 72 := by
        decide
      have hLines := length_headerLines hLength linger
      have hHead :=
        h.addHead 500 error500Form hLength (by omega)
      have hAgain := hHead.addHeaders (n := error500Form.length)
        (by
          simp only [List.length_append]
          omega)
      have hAll := hAgain.addResponse error500Form
        (by
          simp only [List.length_append]
          omega)
      unfold HttpConn.processWrite addContent
      simp only [hAll.1, if_true]
      exact hAll.2.ready
  | closedConnection => exact h.ready

/- Printing leaves the rest of the connection alone. -/
theorem addResponse_frame
    (conn : HttpConn)
    (text : Bytes) :
    (conn.addResponse text).2.fileAddress =
        conn.fileAddress ∧
      (conn.addResponse text).2.bytesHaveSend =
        conn.bytesHaveSend := by
  unfold HttpConn.addResponse
  simp only
  split_ifs <;> exact ⟨rfl, rfl⟩

theorem addHeaders_frame
    (conn : HttpConn)
    (n : Int) :
    (conn.addHeaders n).fileAddress = conn.fileAddress ∧
      (conn.addHeaders n).bytesHaveSend =
        conn.bytesHaveSend := by
  unfold HttpConn.addHeaders addContentLength addContentType
    addLinger addBlankLine
  simp only [addResponse_frame, and_self]

/-
  A file request makes the response that `write()` sends:
  the header, and the file as it was mapped.
-/
theorem Holds.fileRequest
    {conn : HttpConn}
    {linger : Bool}
    {file : Bytes}
    (h : conn.Holds linger [])
    (hFile : conn.fileAddress = some file)
    (hSent : conn.bytesHaveSend = 0) :
    ∃ r : FileResponse,
      conn.processWrite file.length .fileRequest =
          (true, HttpConn.fileRequest r) ∧
        r.header =
            HttpCode.fileRequest.response linger file.length ∧
          r.file = file ∧ r.linger = linger := by
  generalize hConn :
    (conn.addStatusLine 200 ok200Title).2.addHeaders
      (toInt32 file.length) = conn'
  have hHead : conn'.Holds linger
      (HttpCode.fileRequest.response linger file.length) := by
    rw [← hConn]
    exact h.addHead _ _ (isInt32_toInt32 _) (by decide)
  have hFrame :
      conn'.fileAddress = some file ∧
        conn'.bytesHaveSend = 0 := by
    have hHeaders :=
      addHeaders_frame (conn.addStatusLine 200 ok200Title).2
        (toInt32 file.length)
    have hStatus :=
      addResponse_frame conn (statusLine 200 ok200Title)
    rw [← hConn]
    exact
      ⟨hHeaders.1.trans (hStatus.1.trans hFile),
        hHeaders.2.trans (hStatus.2.trans hSent)⟩
  have hIdx := hHead.idx
  let r : FileResponse :=
    { writeBuffer := conn'.writeBuffer
      writeIdx :=
        (HttpCode.fileRequest.response linger
          file.length).length
      file := file
      linger := linger
      buffer_size := hHead.size
      idx_pos := by
        unfold HttpCode.response statusLine
        simp only [List.length_append]
        have hName : (utf8 "HTTP/1.1").length = 8 := by
          decide
        omega
      idx_le := hHead.size ▸ hHead.written.length_le }
  refine
    ⟨r, ?_, (List.prefix_iff_eq_take.mp hHead.written).symm,
      rfl, rfl⟩
  unfold HttpConn.processWrite HttpConn.fileRequest
  simp only [hConn, hIdx, Int.toNat_natCast]
  rw [Prod.mk.injEq, HttpConn.mk.injEq]
  exact
    ⟨rfl, rfl, rfl, hHead.linger_eq, hFrame.1, rfl, rfl, rfl,
      rfl, hFrame.2⟩

end HttpConn

end V2

end WebServer

------------------------------------------------------------
-- Codes That Are Answered
------------------------------------------------------------

namespace WebServer

namespace V2

namespace HttpCode

/-
  `process()` sends a response for this code: it asks for
  EPOLLOUT, and what `writev` then finds in the first iovec
  begins with a status line.
-/
structure Responds
    (code : HttpCode) : Prop where
  ready :
    ∀ (conn : HttpConn) (stSize : Nat),
      conn.writeIdx = 0 →
        conn.writeBuffer.length = writeBufferSize →
          ∃ conn' status title rest,
            conn.processWrite stSize code = (true, conn') ∧
              0 < conn'.ivCount ∧
                conn'.block conn'.iv0 =
                  some (statusLine status title ++ rest)
  armed :
    ∀ (st : Serving) (worker : Nat) (fd : Fd),
      st.pool.requestOf worker = some fd →
        st.process worker code true =
          some (st.rearm worker fd .epollOut)

theorem response_eq
    {code : HttpCode}
    (hOpen : code ≠ .closedConnection)
    (linger : Bool)
    (stSize : Nat) :
    ∃ status title rest,
      code.response linger stSize =
        statusLine status title ++ rest := by
  cases code with
  | closedConnection => exact absurd rfl hOpen
  | noRequest => exact ⟨_, _, _, List.append_assoc _ _ _⟩
  | getRequest => exact ⟨_, _, _, rfl⟩
  | badRequest => exact ⟨_, _, _, List.append_assoc _ _ _⟩
  | noResource => exact ⟨_, _, _, List.append_assoc _ _ _⟩
  | forbiddenRequest =>
      exact ⟨_, _, _, List.append_assoc _ _ _⟩
  | fileRequest => exact ⟨_, _, _, rfl⟩
  | internalError =>
      refine
        ⟨500, error500Form,
          headerLines linger error500Form.length ++
            (headerLines linger error500Form.length ++
              error500Form), ?_⟩
      simp only [response, List.append_assoc]

/- All codes but two are answered. -/
theorem responds
    {code : HttpCode}
    (hAnswer : code ≠ .noRequest)
    (hOpen : code ≠ .closedConnection) :
    code.Responds where
  ready := by
    intro conn stSize hIdx hSize
    have hEmpty : conn.Holds conn.linger [] :=
      ⟨hSize, hIdx, List.nil_prefix, rfl⟩
    have hReady := hEmpty.processWrite stSize code
    rcases response_eq hOpen conn.linger stSize with
      ⟨status, title, rest, hText⟩
    refine
      ⟨(conn.processWrite stSize code).2, status, title, rest,
        Prod.ext hReady.success rfl, hReady.ivCount, ?_⟩
    rw [← hText]
    exact hReady.holds.block hReady.iv0
  armed := by
    intro st worker fd hWorker
    unfold Serving.process
    rw [hWorker]
    exact if_neg hAnswer

end HttpCode

end V2

end WebServer
