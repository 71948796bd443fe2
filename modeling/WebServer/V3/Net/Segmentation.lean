import WebServer.V3.Net.Exceptions
import WebServer.V3.Net.PartialHeaders
import WebServer.V3.Net.Pipelining

/-
  One request that arrives in several readable events in
  version 3.0.

  A request should come out the same wherever its bytes are
  cut. `parseURI` does not wait for the CR, and
  `parseHeaders` forgets where a line began. This file
  settles that the only cuts that do no harm are the two at
  the end of the request line, behind its CR and behind its
  LF.

  Key definitions include:
    * `Segmentation`
    * `SameEnd`
    * `Request.ReadInFull`
    * `Segmentation.AtLineEnd`

  Key theorems include:
    * `Lost.step`
    * `Lost.last`
    * `sameEnd_iff`
-/

------------------------------------------------------------
-- Segmentations
------------------------------------------------------------

namespace WebServer

namespace V3

open StdString

/- One readable event, and the bytes its `read` calls bring. -/
structure Chunk where
  reads : List ReadResult
  bytes : Bytes
  brings : Brings reads bytes
  bytes_ne : bytes ≠ []

/- A cut of a byte string, one readable event for each piece. -/
structure Segmentation
    (s : Bytes) where
  chunks : List Chunk
  joined : chunks.flatMap Chunk.bytes = s

/- The event, with the results of the `write` calls in it. -/
def Chunk.event
    (fs : FileSystem)
    (writes : List WriteResult)
    (chunk : Chunk) : ReadEvent :=
  .readable fs chunk.reads writes

/- The events of the pieces lead from one state to another. -/
def Delivers
    (fs : FileSystem)
    (writes : List WriteResult)
    (c : Conn)
    (chunks : List Chunk)
    (c' : Conn) : Prop :=
  readMachine.Reaches c (chunks.map (Chunk.event fs writes)) c'

/- Two connections on which the same came about. -/
structure SameEnd
    (c₁ c₂ : Conn) : Prop where
  analyses : c₁.analyses = c₂.analyses
  state : c₁.http.state = c₂.http.state
  error : c₁.http.error = c₂.http.error
  inBuffer : c₁.http.inBuffer = c₂.http.inBuffer
  output : c₁.output = c₂.output

/-
  The request is analysed when it arrives at once: its
  request line is accepted and its header lines are read to
  their end. Where the line is read as that of a `POST`
  request, no body is due.
-/
def Request.ReadInFull
    (r : Request) : Prop :=
  ∃ method fields,
    r.LineMethod method ∧
      fields ≠ [] ∧
      ReadsFields r.lines fields ∧
      (method = .post →
        ∃ value n,
          setFields (fun _ => none) fields
              (utf8 "Content-length") = some value ∧
            stoi value = .ok n ∧
            n ≤ 0)

/- Every cut is behind the CR or the LF of the request line. -/
def Segmentation.AtLineEnd
    {r : Request}
    (cut : Segmentation r.bytes) : Prop :=
  ∀ front back,
    cut.chunks = front ++ back →
      front ≠ [] →
        back ≠ [] →
          front.flatMap Chunk.bytes = r.line ++ [13] ∨
            front.flatMap Chunk.bytes = r.line ++ [13, 10]

end V3

end WebServer

------------------------------------------------------------
-- Calls
------------------------------------------------------------

namespace WebServer

namespace V3

open StdString

namespace Conn

theorem handleRead_of_pass
    {c c' : Conn}
    {fs : FileSystem}
    (hPass : c.pass fs = .ok (false, c')) :
    c.handleRead fs = .ok c' := by
  simp only [handleRead, readDepth, handleReadAt, hPass]

theorem handleRead_eq
    (c : Conn)
    (fs : FileSystem) :
    ∃ depth, c.handleRead fs = handleReadAt fs (depth + 1) c :=
  ⟨_, rfl⟩

/- A call that returns is one pass, or goes on from there. -/
theorem pass_of_handleRead
    {c c' : Conn}
    {fs : FileSystem}
    (hCall : c.handleRead fs = .ok c') :
    c.pass fs = .ok (false, c') ∨
      ∃ c₁ depth,
        c.pass fs = .ok (true, c₁) ∧
          handleReadAt fs depth c₁ = .ok c' := by
  rcases c.handleRead_eq fs with ⟨depth, hEq⟩
  rw [hEq] at hCall
  cases hPass : c.pass fs with
  | error f =>
      simp only [handleReadAt, hPass] at hCall
      cases hCall
  | ok result =>
      rcases result with ⟨again, c₁⟩
      simp only [handleReadAt, hPass] at hCall
      cases again with
      | false =>
          cases hCall
          exact .inl rfl
      | true => exact .inr ⟨c₁, depth, rfl, hCall⟩

theorem atAnalysis_of_brk
    {c c₁ : Conn}
    (hBefore : c.atHeaders = .ok (.brk c₁)) :
    c.atAnalysis = .ok (.brk c₁) := by
  unfold atAnalysis atBody
  rw [hBefore]
  rfl

end Conn

/- One event, if its call returns. -/
theorem delivers_cons
    {fs : FileSystem}
    {writes : List WriteResult}
    {c c' : Conn}
    {chunk : Chunk}
    {chunks : List Chunk} :
    Delivers fs writes c (chunk :: chunks) c' ↔
      c.http.error = false ∧
        ∃ c₁,
          (c.wake chunk.reads writes).handleRead fs =
              .ok c₁ ∧
            Delivers fs writes c₁ chunks c' := by
  constructor
  · intro h
    cases h with
    | cons hEnabled hStep hRest =>
        exact
          ⟨hEnabled, _, readMachine_readable.mp hStep, hRest⟩
  · rintro ⟨hEnabled, c₁, hCall, hRest⟩
    exact
      .cons hEnabled (readMachine_readable.mpr hCall) hRest

theorem delivers_nil
    {fs : FileSystem}
    {writes : List WriteResult}
    {c c' : Conn} :
    Delivers fs writes c [] c' ↔ c' = c := by
  constructor
  · intro h
    cases h
    rfl
  · rintro rfl
    exact .nil _

/-
  A connection that has read the request line and waits for
  header lines, with nothing analysed beyond `before`.
-/
structure Resting
    (before : List TraceEvent)
    (c : Conn) : Prop where
  analyses : c.analyses = before
  state : c.http.state = .parseHeaders
  nowReadPos : c.http.nowReadPos = 0
  error : c.http.error = false
  connectionState : c.http.connectionState = .connected
  outBuffer : c.http.outBuffer = []

/- The bytes of the next event are read. -/
theorem Resting.atHeaders
    {before : List TraceEvent}
    {c : Conn}
    (h : Resting before c)
    (chunk : Chunk)
    (hLess : chunk.bytes.length < 2 ^ 31)
    (writes : List WriteResult) :
    (c.wake chunk.reads writes).atHeaders =
      .ok
        (.go
          ((c.wake chunk.reads writes).holding
            (c.http.inBuffer ++ chunk.bytes))) := by
  have hState : c.http.state ≠ .parseUri := by
    rw [h.state]
    exact ProcessState.noConfusion
  have hRead :
      (c.wake chunk.reads writes).readStage = _ :=
    readStage_of_brings chunk.brings hLess h.connectionState
  unfold Conn.atHeaders
  rw [hRead]
  simp only [Flow.andThen, Conn.uriStage]
  exact if_neg hState

theorem Resting.holding
    {before : List TraceEvent}
    {c : Conn}
    (h : Resting before c)
    (chunk : Chunk)
    (writes : List WriteResult) :
    Resting before
      ((c.wake chunk.reads writes).holding
        (c.http.inBuffer ++ chunk.bytes)) where
  analyses := h.analyses
  state := h.state
  nowReadPos := h.nowReadPos
  error := h.error
  connectionState := h.connectionState
  outBuffer := h.outBuffer

/- A call that waits for more header lines. -/
theorem Resting.handleRead_again
    {before : List TraceEvent}
    {c c₁ : Conn}
    {d : HttpData}
    (h : Resting before c₁)
    (hDue : c.atHeaders = .ok (.go c₁))
    (hCall : c₁.http.parseHeaders = .ok (.again, d))
    (fs : FileSystem) :
    c.handleRead fs =
        .ok { c₁ with http := d }.addEpollIn ∧
      Resting before { c₁ with http := d }.addEpollIn := by
  rcases Conn.parseHeaders_frame hCall with ⟨scan, k, rfl⟩
  have hStage :
      c.atAnalysis =
        .ok
          (.brk
            { c₁ with
              http :=
                { c₁.http.setScan scan with
                  inBuffer := c₁.http.inBuffer.drop k } }) := by
    unfold Conn.atAnalysis Conn.atBody
    rw [hDue]
    simp only [bind, Except.bind, Flow.andThen,
      Conn.headerStage, if_pos h.state, hCall]
  have hState : c₁.http.state ≠ .finish := by
    rw [h.state]
    exact ProcessState.noConfusion
  have hUp : c₁.http.connectionState ≠ .disconnected := by
    rw [h.connectionState]
    exact ConnectionState.noConfusion
  constructor
  · apply Conn.handleRead_of_pass
    rw [Conn.pass_of_brk hStage hState]
    congr 2
    have hQuiet : ∀ c₂ : Conn, c₂.http.error = false →
        c₂.http.outBuffer = [] →
          c₂.http.state ≠ .finish →
            c₂.http.connectionState ≠ .disconnected →
              c₂.sendPending.conclude.2 = c₂.addEpollIn := by
      intro c₂ hError hOut hNot hOpen
      unfold Conn.sendPending
      rw [if_neg (fun hSend => hSend.2 hOut)]
      unfold Conn.conclude
      rw [if_neg (by simp [hError]), if_neg hNot,
        if_pos hOpen]
    exact hQuiet _ h.error h.outBuffer hState hUp
  · exact
      ⟨h.analyses, h.state, h.nowReadPos, h.error,
        h.connectionState, h.outBuffer⟩

/- A call that answers an error in the header lines. -/
theorem Resting.handleRead_error
    {before : List TraceEvent}
    {c c₁ : Conn}
    {d : HttpData}
    (h : Resting before c₁)
    (hDue : c.atHeaders = .ok (.go c₁))
    (hCall : c₁.http.parseHeaders = .ok (.error, d))
    (fs : FileSystem) :
    ∃ c',
      c.handleRead fs = .ok c' ∧
        c'.http.error = true ∧ c'.analyses = before := by
  obtain ⟨c₂, hC₂⟩ :
      ∃ c₂ : Conn,
        c₂ =
          { c₁ with http := d }.failWith 400
            (utf8 "Bad Request") :=
    ⟨_, rfl⟩
  have hStage : c.atAnalysis = .ok (.brk c₂) := by
    unfold Conn.atAnalysis Conn.atBody
    rw [hDue]
    simp only [bind, Except.bind, Flow.andThen,
      Conn.headerStage, if_pos h.state, hCall, hC₂]
  have hState : c₂.http.state ≠ .finish := by
    rcases Conn.parseHeaders_frame hCall with ⟨scan, k, rfl⟩
    rw [hC₂]
    show c₁.http.state ≠ .finish
    rw [h.state]
    exact ProcessState.noConfusion
  have hError : c₂.http.error = true := by
    rw [hC₂]
    rfl
  refine
    ⟨c₂,
      Conn.handleRead_of_pass
        (Conn.pass_of_brk_error hStage hState hError fs),
      hError, ?_⟩
  rw [hC₂, Conn.analyses_failWith]
  exact h.analyses

/- An event that leaves `error_` unset met no such call. -/
theorem Resting.parseHeaders_ne_error
    {before : List TraceEvent}
    {c c₁ c' : Conn}
    {fs : FileSystem}
    (h : Resting before c₁)
    (hDue : c.atHeaders = .ok (.go c₁))
    (hRead : c.handleRead fs = .ok c')
    (hError : c'.http.error = false)
    (d : HttpData) :
    c₁.http.parseHeaders ≠ .ok (.error, d) := by
  intro hCall
  rcases h.handleRead_error hDue hCall fs with
    ⟨x₁, hRead', hTrue, _⟩
  rw [hRead'] at hRead
  cases hRead
  rw [hError] at hTrue
  cases hTrue

/- A call that raises in the header lines. -/
theorem handleRead_of_fault
    {c c₁ : Conn}
    {f : Fault}
    (hDue : c.atHeaders = .ok (.go c₁))
    (hState : c₁.http.state = .parseHeaders)
    (hCall : c₁.http.parseHeaders = .error f)
    (fs : FileSystem) :
    c.handleRead fs = .error (.fault f) := by
  have hStage : c.atAnalysis = .error f := by
    unfold Conn.atAnalysis Conn.atBody
    rw [hDue]
    simp only [bind, Except.bind, Flow.andThen,
      Conn.headerStage, if_pos hState, hCall]
  have hPass : c.pass fs = .error f := by
    rw [Conn.pass_eq, Conn.stages_eq, hStage]
    rfl
  simp only [Conn.handleRead, Conn.readDepth,
    Conn.handleReadAt, hPass]

end V3

end WebServer

------------------------------------------------------------
-- Bytes Of A Request
------------------------------------------------------------

namespace WebServer

namespace V3

namespace Request

variable {r : Request}

/- The lines of a request are not empty, and have no CR. -/
theorem contents_plain
    (r : Request) :
    ∀ content ∈ r.line :: r.lines.map HeaderLine.content,
      content ≠ [] ∧ 13 ∉ content := by
  intro content hMem
  rcases List.mem_cons.mp hMem with rfl | hMem
  · exact ⟨r.line_ne, r.cr_not_mem_line⟩
  · rcases List.mem_map.mp hMem with ⟨l, _, rfl⟩
    exact ⟨by simp [HeaderLine.content], l.cr_not_mem_content⟩

/- After CR, LF and CR there is only one LF left. -/
theorem bytes_of_suffix
    {bytes : Bytes}
    (hPrefix : bytes <+: r.bytes)
    (hSuffix : [13, 10, 13] <:+ bytes) :
    bytes ++ [10] = r.bytes := by
  rcases hSuffix with ⟨u, rfl⟩
  rw [bytes_eq] at hPrefix ⊢
  have hBlock :=
    block_of_prefix r.contents_plain (by simp) hPrefix
  simpa using hBlock

/- The whole blank line is there at the end only. -/
theorem bytes_of_infix
    {bytes : Bytes}
    (hPrefix : bytes <+: r.bytes)
    (hInfix : [13, 10, 13, 10] <:+: bytes) :
    bytes = r.bytes := by
  rcases hInfix with ⟨u, v, rfl⟩
  have hFront : u ++ [13, 10, 13] <+: r.bytes := by
    refine List.IsPrefix.trans ?_ hPrefix
    exact ⟨10 :: v, by simp⟩
  have hWhole :=
    bytes_of_suffix hFront (List.suffix_append _ _)
  have hLong := hPrefix.length_le
  rw [← hWhole] at hLong
  apply hPrefix.eq_of_length_le
  rw [← hWhole]
  simp only [List.length_append, List.length_cons,
    List.length_nil]
  omega

/- Every piece of a short request is short. -/
theorem short_of_prefix
    {bytes more : Bytes}
    (hSize : r.bytes.length < 2 ^ 31)
    (hPrefix : bytes ++ more <+: r.bytes) :
    bytes.length + more.length < 2 ^ 31 := by
  have hLong := hPrefix.length_le
  rw [List.length_append] at hLong
  omega

theorem bytes_cr
    (r : Request) :
    r.bytes = r.line ++ 13 :: 10 :: headerBytes r.lines :=
  rfl

/- The bytes up to a CR begin with the request line. -/
theorem line_of_prefix
    {line rest : Bytes}
    (hPrefix : line ++ 13 :: rest <+: r.bytes)
    (hLine : 13 ∉ line) :
    line = r.line ∧ rest <+: 10 :: headerBytes r.lines := by
  rcases
    prefix_append_split r.cr_not_mem_line hPrefix with
    ⟨v, rfl, hRest⟩
  cases v with
  | nil =>
      exact
        ⟨List.append_nil _, (List.cons_prefix_cons.mp hRest).2⟩
  | cons b v =>
      have hHead := (List.cons_prefix_cons.mp hRest).1
      exact absurd (by simp [hHead]) hLine

/- A piece without a CR is part of the request line. -/
theorem mem_of_prefix
    {bytes : Bytes}
    (hPrefix : bytes <+: r.bytes)
    (hNone : 13 ∉ bytes)
    {b : Byte}
    (hMem : b ∈ bytes) :
    b ∈ r.line := by
  have hShort : bytes.length ≤ r.line.length := by
    by_contra hLong
    apply hNone
    have hFront : r.line ++ [13] <+: bytes := by
      apply
        @List.prefix_of_prefix_length_le _ _ _ r.bytes ?_
          hPrefix
      · simp only [List.length_append, List.length_cons,
          List.length_nil]
        omega
      · exact ⟨10 :: headerBytes r.lines, by simp [bytes_cr]⟩
    exact hFront.subset (by simp)
  have hLine : bytes <+: r.line :=
    List.prefix_of_prefix_length_le hPrefix
      (List.prefix_append _ _) hShort
  exact hLine.subset hMem

/- The first byte of the header lines is one of a name. -/
theorem mem_headerBytes
    {q : Bytes}
    (hLines : r.lines ≠ [])
    (hPrefix : q <+: headerBytes r.lines)
    (hSome : q ≠ []) :
    ∃ b ∈ q, b ≠ 13 ∧ b ≠ 10 := by
  rcases List.exists_cons_of_ne_nil hLines with
    ⟨l, lines, hCase⟩
  rcases List.exists_cons_of_ne_nil l.key_ne with
    ⟨b, key, hKey⟩
  rcases List.exists_cons_of_ne_nil hSome with
    ⟨c, q, rfl⟩
  rw [hCase, headerBytes, List.flatMap_cons,
    HeaderLine.bytes, HeaderLine.content, hKey] at hPrefix
  have hHead := (List.cons_prefix_cons.mp hPrefix).1
  have hPlain := l.key_plain b (by simp [hKey])
  exact ⟨c, by simp, hHead ▸ hPlain.2⟩

end Request

/- A longer piece of the bytes read ends in the same way. -/
theorem Unfinished.of_suffix
    {bytes more : Bytes}
    {d : HttpData}
    (h : Unfinished bytes d)
    (hSuffix : bytes <:+ more) :
    Unfinished more d := by
  rcases h with hLine | hLf | ⟨hState, hBuffer, hEnd⟩
  · exact .inl hLine
  · exact .inr (.inl hLf)
  · exact .inr (.inr ⟨hState, hBuffer, hEnd.trans hSuffix⟩)

/- The LF in front does not belong to what is ended. -/
theorem Unfinished.of_cons
    {bytes : Bytes}
    {d : HttpData}
    (h : Unfinished (10 :: bytes) d) :
    Unfinished bytes d := by
  rcases h with hLine | hLf | ⟨hState, hBuffer, hEnd⟩
  · exact .inl hLine
  · exact .inr (.inl hLf)
  · rcases List.suffix_cons_iff.mp hEnd with hAll | hTail
    · cases hAll
    · exact .inr (.inr ⟨hState, hBuffer, hTail⟩)

theorem infix_of_cons
    {bytes : Bytes}
    (h : [13, 10, 13, 10] <:+: 10 :: bytes) :
    [13, 10, 13, 10] <:+: bytes := by
  rcases List.infix_cons_iff.mp h with hHead | hTail
  · have hFirst := (List.cons_prefix_cons.mp hHead).1
    cases hFirst
  · exact hTail

end V3

end WebServer

------------------------------------------------------------
-- Request Lines That Arrive Whole
------------------------------------------------------------

namespace WebServer

namespace V3

open StdString

/- A connection that read the request line in this event. -/
def Conn.due
    (c : Conn)
    (writes : List WriteResult)
    (method : HttpMethod)
    (fileName : Bytes)
    (version : HttpVersion)
    (rest : Bytes) : Conn :=
  { c with
    socket :=
      { c.socket with
        reads := []
        writes := writes }
    channel := c.channel.setEvents .none
    http :=
      { c.http.setLine method fileName version with
        inBuffer := rest
        state := .parseHeaders } }

theorem Idle.resting_due
    {c : Conn}
    (h : Idle c)
    (writes : List WriteResult)
    (method : HttpMethod)
    (fileName : Bytes)
    (version : HttpVersion)
    (rest : Bytes) :
    Resting c.analyses
      (c.due writes method fileName version rest) where
  analyses := rfl
  state := rfl
  nowReadPos := h.nowReadPos
  error := h.error
  connectionState := h.connectionState
  outBuffer := h.outBuffer

section

variable {c : Conn}
variable {r : Request}
variable {fs : FileSystem}
variable {writes : List WriteResult}
variable {method : HttpMethod}
variable {fileName : Bytes}
variable {version : HttpVersion}

/-
  After these bytes of the request, an event that brings the
  rest of the request line leaves the request line read.
-/
structure Ready
    (c : Conn)
    (r : Request)
    (writes : List WriteResult)
    (method : HttpMethod)
    (fileName : Bytes)
    (version : HttpVersion)
    (bytes : Bytes)
    (x : Conn) : Prop where
  error : x.http.error = false
  atHeaders : ∀ (chunk : Chunk) (rest : Bytes),
    bytes ++ chunk.bytes = r.line ++ 13 :: rest →
      chunk.bytes.length < 2 ^ 31 →
        (x.wake chunk.reads writes).atHeaders =
          .ok
            (.go
              (c.due writes method fileName version rest))

theorem ready_start
    (hIdle : Idle c)
    (hEmpty : c.http.inBuffer = [])
    (hReads : ReadsAs r.line method fileName version) :
    Ready c r writes method fileName version [] c where
  error := hIdle.error
  atHeaders := by
    intro chunk rest hBytes hLess
    have hRead :
        (c.wake chunk.reads writes).readStage = _ :=
      readStage_of_brings chunk.brings hLess
        hIdle.connectionState
    have hBuffer :
        ((c.wake chunk.reads writes).holding
            (c.http.inBuffer ++ chunk.bytes)).http.inBuffer =
          r.line ++ 13 :: rest := by
      rw [← hBytes, hEmpty]
      rfl
    exact
      Conn.atHeaders_of_readsAs hRead hIdle.state
        (HttpData.parseURI_of_cr hIdle.nowReadPos hBuffer
          r.cr_not_mem_line)
        hReads

theorem ready_due
    (hIdle : Idle c)
    (rest : Bytes) :
    Ready c r writes method fileName version
      (r.line ++ 13 :: rest)
      (c.due writes method fileName version
        rest).addEpollIn where
  error := hIdle.error
  atHeaders := by
    intro chunk more hBytes hLess
    have hMore : more = rest ++ chunk.bytes := by
      rw [List.append_assoc, List.append_cancel_left_eq,
        List.cons_append, List.cons.injEq] at hBytes
      exact hBytes.2.symm
    have hRest :
        Resting c.analyses
          (c.due writes method fileName version
            rest).addEpollIn :=
      { hIdle.resting_due writes method fileName version
          rest with }
    rw [hMore]
    exact hRest.atHeaders chunk hLess writes

/- Without header lines the loop keeps what it has. -/
theorem parseHeaders_of_line_end
    {d : HttpData}
    (hState : d.hState = .start)
    (hBuffer : d.inBuffer = [] ∨ d.inBuffer = [10]) :
    d.parseHeaders = .ok (.again, d) := by
  have hScan :
      ∃ i,
        d.scanHeaders .exact =
          .ok (.stopped i ⟨d.hState, d.headers, .init⟩) := by
    unfold HttpData.scanHeaders
    rcases hBuffer with hBuffer | hBuffer
    · rw [hBuffer]
      exact ⟨0, rfl⟩
    · rw [hBuffer, hState]
      exact ⟨1, rfl⟩
  rcases hScan with ⟨i, hScan⟩
  have hLess : d.inBuffer.length < 2 ^ 31 := by
    rcases hBuffer with hBuffer | hBuffer <;>
      rw [hBuffer] <;> decide
  rw [HttpData.parseHeaders_eq hLess,
    HttpData.parseHeadersBy_of_again hScan
      (by rw [hState]; exact ParseState.noConfusion)
      (Int.natCast_nonneg _)]
  rfl

/- An event that ends at the end of the request line. -/
theorem Ready.handleRead_short
    {bytes rest : Bytes}
    {x : Conn}
    {chunk : Chunk}
    (h : Ready c r writes method fileName version bytes x)
    (hIdle : Idle c)
    (hBytes : bytes ++ chunk.bytes = r.line ++ 13 :: rest)
    (hLess : chunk.bytes.length < 2 ^ 31)
    (hShort : rest = [] ∨ rest = [10]) :
    (x.wake chunk.reads writes).handleRead fs =
      .ok
        (c.due writes method fileName version
          rest).addEpollIn := by
  have hRest :=
    hIdle.resting_due writes method fileName version rest
  have hCall :
      (c.due writes method fileName version
          rest).http.parseHeaders =
        .ok
          (.again,
            (c.due writes method fileName version
              rest).http) :=
    parseHeaders_of_line_end hIdle.hState hShort
  exact
    (hRest.handleRead_again
      (h.atHeaders chunk rest hBytes hLess) hCall fs).1

/-
  A connection on which the request is lost: a call stopped
  short of the blank line.
-/
structure Lost
    (before : List TraceEvent)
    (bytes : Bytes)
    (x : Conn) : Prop where
  resting : Resting before x
  unfinished : Unfinished bytes x.http
  held : x.http.inBuffer.length ≤ bytes.length

/- A call that stops short of the blank line. -/
theorem Resting.lost
    {before : List TraceEvent}
    {bytes : Bytes}
    {x y z : Conn}
    {d : HttpData}
    (h : Resting before y)
    (hDue : z.atHeaders = .ok (.go y))
    (hCall : y.http.parseHeaders = .ok (.again, d))
    (hEnd : Unfinished bytes d)
    (hHeld : y.http.inBuffer.length ≤ bytes.length)
    (hRead : z.handleRead fs = .ok x) :
    Lost before bytes x := by
  have hAgain := h.handleRead_again hDue hCall fs
  rw [hAgain.1] at hRead
  cases hRead
  refine ⟨hAgain.2, hEnd, ?_⟩
  rcases Conn.parseHeaders_frame hCall with ⟨scan, k, rfl⟩
  show (y.http.inBuffer.drop k).length ≤ bytes.length
  rw [List.length_drop]
  omega

/-
  An event that ends inside the header lines, and does not
  set `error_`, loses the request.
-/
theorem Ready.handleRead_inside
    {bytes q : Bytes}
    {x x' : Conn}
    {chunk : Chunk}
    (h : Ready c r writes method fileName version bytes x)
    (hIdle : Idle c)
    (hLines : r.lines ≠ [])
    (hSize : r.bytes.length < 2 ^ 31)
    (hBytes : bytes ++ chunk.bytes = r.line ++ 13 :: 10 :: q)
    (hPrefix : bytes ++ chunk.bytes <+: r.bytes)
    (hProper : bytes ++ chunk.bytes ≠ r.bytes)
    (hSome : q ≠ [])
    (hRead :
      (x.wake chunk.reads writes).handleRead fs = .ok x')
    (hError : x'.http.error = false) :
    Lost c.analyses (bytes ++ chunk.bytes) x' := by
  have hLengths := Request.short_of_prefix hSize hPrefix
  have hDue :=
    h.atHeaders chunk (10 :: q) hBytes (by omega)
  have hRest :=
    hIdle.resting_due writes method fileName version
      (10 :: q)
  have hHeader : q <+: headerBytes r.lines := by
    rw [hBytes] at hPrefix
    have hTail :=
      (Request.line_of_prefix hPrefix r.cr_not_mem_line).2
    exact (List.cons_prefix_cons.mp hTail).2
  have hSuffix : q <:+ bytes ++ chunk.bytes := by
    rw [hBytes]
    exact ⟨r.line ++ [13, 10], by simp⟩
  have hText :
      ∃ b ∈
        (c.due writes method fileName version
          (10 :: q)).http.inBuffer,
        b ≠ 13 ∧ b ≠ 10 := by
    rcases Request.mem_headerBytes hLines hHeader hSome with
      ⟨b, hMem, hPlain⟩
    exact ⟨b, List.mem_cons_of_mem _ hMem, hPlain⟩
  have hHeld :
      (10 :: q).length ≤ (bytes ++ chunk.bytes).length := by
    rw [hBytes]
    simp only [List.length_append, List.length_cons]
    omega
  have hLess : (10 :: q).length < 2 ^ 31 := by
    rw [List.length_append] at hHeld
    omega
  rcases
    HttpData.parseHeadersBy_of_start
      (d :=
        (c.due writes method fileName version
          (10 :: q)).http)
      hIdle.hState hText with
    ⟨flag, d, hCall, hEnd⟩
  rw [← HttpData.parseHeaders_eq hLess] at hCall
  cases flag with
  | again =>
      have hMore : Unfinished (bytes ++ chunk.bytes) d :=
        (Unfinished.of_cons hEnd).of_suffix hSuffix
      exact hRest.lost hDue hCall hMore hHeld hRead
  | error =>
      exact
        absurd hCall
          (hRest.parseHeaders_ne_error hDue hRead hError d)
  | success =>
      have hInfix := infix_of_cons hEnd
      exact
        absurd
          (Request.bytes_of_infix hPrefix
            (hInfix.trans hSuffix.isInfix))
          hProper

end

end V3

end WebServer

------------------------------------------------------------
-- Requests That Are Lost
------------------------------------------------------------

namespace WebServer

namespace V3

open StdString

section

variable {c : Conn}
variable {r : Request}
variable {fs : FileSystem}
variable {writes : List WriteResult}

/-
  A first event that ends inside the request line, and does
  not set `error_`, loses the request: the piece is taken
  for a request line, and again for header lines.
-/
theorem Idle.handleRead_inside
    {x : Conn}
    {chunk : Chunk}
    (hIdle : Idle c)
    (hEmpty : c.http.inBuffer = [])
    (hSize : r.bytes.length < 2 ^ 31)
    (hPrefix : chunk.bytes <+: r.bytes)
    (hNone : 13 ∉ chunk.bytes)
    (hRead :
      (c.wake chunk.reads writes).handleRead fs = .ok x)
    (hError : x.http.error = false) :
    Lost c.analyses chunk.bytes x := by
  have hLess : chunk.bytes.length < 2 ^ 31 :=
    Nat.lt_of_le_of_lt hPrefix.length_le hSize
  have hFirst :
      (c.wake chunk.reads writes).readStage =
        .go
          ((c.wake chunk.reads writes).holding
            chunk.bytes) := by
    have hStage :
        (c.wake chunk.reads writes).readStage = _ :=
      readStage_of_brings chunk.brings hLess
        hIdle.connectionState
    rw [hStage]
    show Flow.go (Conn.holding _ (c.http.inBuffer ++ _)) = _
    rw [hEmpty]
    rfl
  obtain ⟨y, hY⟩ :
      ∃ y : Conn,
        y = (c.wake chunk.reads writes).holding chunk.bytes :=
    ⟨_, rfl⟩
  have hState : y.http.state = .parseUri := by
    rw [hY]
    exact hIdle.state
  have hUri :
      y.http.parseURI =
        { y.http with inBuffer := chunk.bytes }.parseRequestLine
          chunk.bytes := by
    rw [hY]
    exact HttpData.parseURI_of_no_cr hIdle.nowReadPos hNone
  rw [← hY] at hFirst
  rcases parseRequestLine_cases chunk.bytes with
    ⟨method, fileName, version, hReads⟩ | hRefused
  · -- the piece stays, and is read as a header line
    have hDue :
        (c.wake chunk.reads writes).atHeaders =
          .ok
            (.go
              (c.due writes method fileName version
                chunk.bytes)) := by
      rw [Conn.atHeaders_of_readsAs hFirst hState hUri hReads,
        hY]
      rfl
    have hRest :=
      hIdle.resting_due writes method fileName version
        chunk.bytes
    have hText :
        ∃ b ∈
          (c.due writes method fileName version
            chunk.bytes).http.inBuffer,
          b ≠ 13 ∧ b ≠ 10 := by
      rcases List.exists_mem_of_ne_nil _ chunk.bytes_ne with
        ⟨b, hMem⟩
      exact
        ⟨b, hMem,
          Request.mem_line
            (Request.mem_of_prefix hPrefix hNone hMem)⟩
    rcases
      HttpData.parseHeadersBy_of_start
        (d :=
          (c.due writes method fileName version
            chunk.bytes).http)
        hIdle.hState hText with
      ⟨flag, d, hCall, hEnd⟩
    rw [← HttpData.parseHeaders_eq hLess] at hCall
    cases flag with
    | again =>
        exact
          hRest.lost hDue hCall hEnd (Nat.le_refl _) hRead
    | error =>
        exact
          absurd hCall
            (hRest.parseHeaders_ne_error hDue hRead hError d)
    | success =>
        have hCr : (13 : Byte) ∈ chunk.bytes :=
          hEnd.subset (by simp)
        exact absurd hCr hNone
  · -- the piece is refused
    exfalso
    rcases
      Conn.atHeaders_of_refused hFirst hState hUri
        hRefused with
      ⟨method, fileName, hBefore⟩
    have hBrk := Conn.atAnalysis_of_brk hBefore
    have hNot : y.http.state ≠ .finish := by
      rw [hState]
      exact ProcessState.noConfusion
    rw [Conn.handleRead_of_pass
      (Conn.pass_of_brk_error hBrk hNot rfl fs)] at hRead
    cases hRead
    cases hError

/-
  Where the LF after a header line was kept, a call reads
  the new bytes behind it.
-/
theorem parseHeaders_behind_lf
    {x : Conn}
    {chunk : Chunk}
    (hLf : x.http.hState = .lf)
    (hBuffer : x.http.inBuffer = [10])
    (hLess :
      (x.http.inBuffer ++ chunk.bytes).length < 2 ^ 31) :
    ∃ flag d,
      ((x.wake chunk.reads writes).holding
          (x.http.inBuffer ++ chunk.bytes)).http.parseHeaders =
        .ok (flag, d) ∧
      match flag with
      | .again => Unfinished (10 :: chunk.bytes) d
      | .success =>
          [13, 10, 13, 10] <:+: 10 :: chunk.bytes ∧
            Tainted d.headers
      | .error => True := by
  have hWhole :
      ((x.wake chunk.reads writes).holding
          (x.http.inBuffer ++ chunk.bytes)).http.inBuffer =
        10 :: chunk.bytes := by
    show x.http.inBuffer ++ chunk.bytes = _
    rw [hBuffer]
    rfl
  have hEq :=
    HttpData.parseHeaders_eq
      (d :=
        ((x.wake chunk.reads writes).holding
          (x.http.inBuffer ++ chunk.bytes)).http)
      hLess
  rw [hEq, ← hWhole]
  exact HttpData.parseHeadersBy_of_lf hLf hWhole

/-
  A lost request stays lost: an event that leaves part of
  the request to come sets `error_`, raises, or stops short
  of the blank line again.
-/
theorem Lost.step
    {before : List TraceEvent}
    {bytes : Bytes}
    {x x' : Conn}
    {chunk : Chunk}
    (h : Lost before bytes x)
    (hSize : r.bytes.length < 2 ^ 31)
    (hPrefix : bytes ++ chunk.bytes <+: r.bytes)
    (hProper : bytes ++ chunk.bytes ≠ r.bytes)
    (hRead :
      (x.wake chunk.reads writes).handleRead fs = .ok x')
    (hError : x'.http.error = false) :
    Lost before (bytes ++ chunk.bytes) x' := by
  have hLengths := Request.short_of_prefix hSize hPrefix
  have hHeld :
      (x.http.inBuffer ++ chunk.bytes).length ≤
        (bytes ++ chunk.bytes).length := by
    have hOld := h.held
    rw [List.length_append, List.length_append]
    omega
  have hLess :
      (x.http.inBuffer ++ chunk.bytes).length < 2 ^ 31 := by
    rw [List.length_append] at hHeld ⊢
    rw [List.length_append] at hHeld
    omega
  have hDue := h.resting.atHeaders chunk (by omega) writes
  have hRest := h.resting.holding chunk writes
  have hNoError : ∀ d,
      ((x.wake chunk.reads writes).holding
          (x.http.inBuffer ++ chunk.bytes)).http.parseHeaders ≠
        .ok (.error, d) :=
    hRest.parseHeaders_ne_error hDue hRead hError
  rcases h.unfinished with
    hLine | ⟨hLf, hBuffer⟩ | ⟨hEndCr, hBuffer, hSuffix⟩
  · have hCases :=
      HttpData.parseHeadersBy_of_inLine
        ((x.wake chunk.reads writes).holding
          (x.http.inBuffer ++ chunk.bytes)).http
        hLine
    rw [← HttpData.parseHeaders_eq hLess] at hCases
    rcases hCases with
      hRaise | ⟨d, hCall⟩ | ⟨scan, hScan, hCall⟩
    · rw [handleRead_of_fault hDue hRest.state hRaise fs]
        at hRead
      cases hRead
    · exact absurd hCall (hNoError d)
    · exact
        hRest.lost hDue hCall (.inl hScan) hHeld hRead
  · rcases parseHeaders_behind_lf hLf hBuffer hLess with
      ⟨flag, d, hCall, hEnd⟩
    cases flag with
    | again =>
        exact
          hRest.lost hDue hCall
            ((Unfinished.of_cons hEnd).of_suffix
              (List.suffix_append _ _))
            hHeld hRead
    | error => exact absurd hCall (hNoError d)
    | success =>
        have hInfix := infix_of_cons hEnd.1
        exact
          absurd
            (Request.bytes_of_infix hPrefix
              (hInfix.trans
                (List.suffix_append _ _).isInfix))
            hProper
  · -- there is only one byte to come
    exfalso
    have hFront : bytes <+: r.bytes :=
      (List.prefix_append _ _).trans hPrefix
    have hAll := Request.bytes_of_suffix hFront hSuffix
    apply hProper
    apply hPrefix.eq_of_length_le
    rw [← hAll]
    have hLong := List.length_pos_iff.mpr chunk.bytes_ne
    simp only [List.length_append, List.length_cons,
      List.length_nil]
    omega

end

end V3

end WebServer

------------------------------------------------------------
-- The Last Event
------------------------------------------------------------

namespace WebServer

namespace V3

open StdString

namespace Conn

/- Sending and concluding read nothing. -/
theorem inBuffer_conclude
    (c : Conn) :
    c.sendPending.conclude.2.http.inBuffer =
        c.http.inBuffer ∧
      c.sendPending.conclude.2.socket.reads =
        c.socket.reads := by
  rcases c.sendPending_frame with
    ⟨socket, _, _, _, hReads, hFrame⟩
  have hSend :
      c.sendPending.http.inBuffer = c.http.inBuffer ∧
        c.sendPending.socket.reads = c.socket.reads := by
    rw [hFrame]
    exact ⟨rfl, hReads⟩
  rcases c.sendPending.reset_frame with ⟨_, _, hReset⟩
  rw [← hSend.1, ← hSend.2]
  unfold conclude
  split_ifs
  · exact ⟨rfl, rfl⟩
  · simp only
    rw [hReset]
    exact ⟨rfl, rfl⟩
  · exact ⟨rfl, rfl⟩
  · exact ⟨rfl, rfl⟩

theorem inBuffer_analysisStage
    {c : Conn}
    {fs : FileSystem}
    {flow : Flow}
    (h : c.analysisStage fs = .ok flow) :
    flow.conn.http.inBuffer = c.http.inBuffer ∧
      flow.conn.socket.reads = c.socket.reads := by
  rcases analysisStage_cases h with
    ⟨_, rfl⟩ | ⟨_, _, rfl⟩ | ⟨_, _, _, _, rfl⟩ |
      ⟨_, _, _, _, rfl⟩
  · exact ⟨rfl, rfl⟩
  · exact ⟨rfl, rfl⟩
  · exact ⟨rfl, rfl⟩
  · exact ⟨rfl, rfl⟩

/- A pass that reads the header lines to their end. -/
theorem pass_of_success
    {c c₁ x : Conn}
    {d : HttpData}
    {fs : FileSystem}
    {again : Bool}
    (hDue : c.atHeaders = .ok (.go c₁))
    (hState : c₁.http.state = .parseHeaders)
    (hCall : c₁.http.parseHeaders = .ok (.success, d))
    (hPass : c.pass fs = .ok (again, x)) :
    (again = false ∧ x.analyses = c₁.analyses) ∨
      (x.analyses =
          c₁.analyses ++
            [.analysisRequest d.method d.fileName
              d.httpVersion d.headers] ∧
        x.http.inBuffer = d.inBuffer ∧
        x.socket.reads = c₁.socket.reads) := by
  have hBody :
      c.atBody =
        .ok
          (.go
            { c₁ with
              http := { d with state := afterHeaders d } }) := by
    unfold atBody
    rw [hDue]
    simp only [bind, Except.bind, Flow.andThen, headerStage,
      if_pos hState, hCall]
    rfl
  have hDue' :
      c.atAnalysis =
        { c₁ with
          http :=
            { d with state := afterHeaders d } }.bodyStage := by
    unfold atAnalysis
    rw [hBody]
    rfl
  have hLate : ∀ c₃ : Conn,
      c.atAnalysis = .ok (.go c₃) →
        c₃.http.state = .analysis →
          x.analyses =
              c₃.analyses ++
                [.analysisRequest c₃.http.method
                  c₃.http.fileName c₃.http.httpVersion
                  c₃.http.headers] ∧
            x.http.inBuffer = c₃.http.inBuffer ∧
            x.socket.reads = c₃.socket.reads := by
    intro c₃ hGo hAnalysis
    rcases c₃.analysisStage_ok fs with ⟨flow, hLast⟩
    have hNew := analyses_analysisStage hAnalysis hLast
    have hKept := inBuffer_analysisStage hLast
    rw [pass_eq, stages_eq, hGo] at hPass
    simp only [Except.bind, Flow.andThen, hLast, Except.map,
      Except.ok.injEq] at hPass
    have hSame := flow.conn.analyses_conclude
    have hBuffer := flow.conn.inBuffer_conclude
    rw [hPass] at hSame hBuffer
    exact
      ⟨hSame.trans hNew, hBuffer.1.trans hKept.1,
        hBuffer.2.trans hKept.2⟩
  cases hStage :
      { c₁ with
        http :=
          { d with state := afterHeaders d } }.bodyStage with
  | error f =>
      rw [pass_eq, stages_eq, hDue', hStage] at hPass
      cases hPass
  | ok flow =>
      rw [hStage] at hDue'
      rcases bodyStage_cases hStage with
        ⟨hNot, rfl⟩ | ⟨hBodyState, rfl⟩ | ⟨hBodyState, rfl⟩ |
          ⟨_, _, rfl⟩
      · right
        refine hLate _ hDue' ?_
        show afterHeaders d = .analysis
        unfold afterHeaders at hNot ⊢
        split_ifs at hNot ⊢
        · exact absurd rfl hNot
        · rfl
      · left
        rw [pass_of_brk hDue' (afterHeaders_ne_finish d) fs]
          at hPass
        cases hPass
        refine ⟨rfl, ?_⟩
        rw [analyses_conclude, analyses_failWith]
        rfl
      · left
        rw [pass_of_brk hDue' (afterHeaders_ne_finish d) fs]
          at hPass
        cases hPass
        refine ⟨rfl, ?_⟩
        rw [analyses_conclude]
        rfl
      · right
        exact hLate _ hDue' rfl

end Conn

/- A line with nothing but an LF is refused. -/
theorem refused_lf :
    Refused [10] := by
  intro d
  exact ⟨d.method, d.fileName, rfl⟩

/- A nested call that finds only an LF. -/
theorem handleReadAt_lf
    {x x' : Conn}
    {fs : FileSystem}
    {depth : Nat}
    (hStart : x.AtStart)
    (hPos : x.http.nowReadPos = 0)
    (hUp : x.http.connectionState = .connected)
    (hReads : x.socket.reads = [])
    (hBuffer : x.http.inBuffer = [10])
    (hCall : Conn.handleReadAt fs depth x = .ok x') :
    x'.http.error = true ∧ x'.http.state = .parseUri := by
  cases depth with
  | zero => cases hCall
  | succ depth =>
      have hBrings : Brings x.socket.reads [] := by
        rw [hReads]
        exact brings_nil
      have hRead :=
        readStage_of_brings hBrings (by decide) hUp
      rw [hBuffer, List.append_nil] at hRead
      have hUri :
          (x.holding [10]).http.parseURI =
            { (x.holding [10]).http with
              inBuffer := [10] }.parseRequestLine [10] :=
        HttpData.parseURI_of_no_cr
          (d := (x.holding [10]).http) hPos
          (show (13 : Byte) ∉ [10] by decide)
      rcases
        Conn.atHeaders_of_refused hRead hStart.1 hUri
          refused_lf with
        ⟨method, fileName, hBefore⟩
      have hNot : x.http.state ≠ .finish := by
        rw [hStart.1]
        exact ProcessState.noConfusion
      have hPass :=
        Conn.pass_of_brk_error
          (Conn.atAnalysis_of_brk hBefore) hNot rfl fs
      simp only [Conn.handleReadAt, hPass] at hCall
      cases hCall
      exact ⟨rfl, hStart.1⟩

end V3

end WebServer

namespace WebServer

namespace V3

open StdString

/-
  What shows that a request has not come out as it does when
  it arrives at once.
-/
def Astray
    (before : List TraceEvent)
    (x : Conn) : Prop :=
  x.analyses = before ∨
    (∃ method fileName version headers rest,
      x.analyses =
          before ++
            .analysisRequest method fileName version
              headers :: rest ∧
        Tainted headers) ∨
    x.http.inBuffer ≠ [] ∨
    (x.http.error = true ∧ x.http.state = .parseUri)

/- A call that succeeds with the key that begins with LF. -/
theorem Lost.astray_of_tainted
    {before : List TraceEvent}
    {bytes : Bytes}
    {fs : FileSystem}
    {writes : List WriteResult}
    {x x' : Conn}
    {chunk : Chunk}
    {d : HttpData}
    (h : Lost before bytes x)
    (hLess : chunk.bytes.length < 2 ^ 31)
    (hCall :
      ((x.wake chunk.reads writes).holding
          (x.http.inBuffer ++ chunk.bytes)).http.parseHeaders =
        .ok (.success, d))
    (hTaint : Tainted d.headers)
    (hRead :
      (x.wake chunk.reads writes).handleRead fs = .ok x') :
    Astray before x' := by
  have hDue := h.resting.atHeaders chunk hLess writes
  have hRest := h.resting.holding chunk writes
  have hPos : (x.wake chunk.reads writes).http.nowReadPos = 0 :=
    h.resting.nowReadPos
  rcases Conn.pass_of_handleRead hRead with
    hPass | ⟨x₁, depth, hPass, hMore⟩
  · rcases
      Conn.pass_of_success hDue hRest.state hCall hPass with
      ⟨_, hSame⟩ | ⟨hNew, _⟩
    · exact .inl (hSame.trans hRest.analyses)
    · rw [hRest.analyses] at hNew
      exact .inr (.inl ⟨_, _, _, _, [], hNew, hTaint⟩)
  · rcases
      Conn.pass_of_success hDue hRest.state hCall hPass with
      ⟨hNot, _⟩ | ⟨hNew, _⟩
    · cases hNot
    · rw [hRest.analyses] at hNew
      have hLater := Conn.later_pass hPos hPass
      rcases
        Conn.analyses_prefix
          (Conn.later_handleReadAt
            (hLater.nowReadPos hPos) hMore) with
        ⟨rest, hAll⟩
      rw [hNew, List.append_assoc] at hAll
      exact
        .inr
          (.inl ⟨_, _, _, _, rest, hAll.symm, hTaint⟩)

/- A call that succeeds and leaves an LF behind. -/
theorem Lost.astray_of_lf
    {before : List TraceEvent}
    {bytes : Bytes}
    {fs : FileSystem}
    {writes : List WriteResult}
    {x x' : Conn}
    {chunk : Chunk}
    {d : HttpData}
    (h : Lost before bytes x)
    (hLess : chunk.bytes.length < 2 ^ 31)
    (hCall :
      ((x.wake chunk.reads writes).holding
          (x.http.inBuffer ++ chunk.bytes)).http.parseHeaders =
        .ok (.success, d))
    (hLf : d.inBuffer = [10])
    (hRead :
      (x.wake chunk.reads writes).handleRead fs = .ok x') :
    Astray before x' := by
  have hDue := h.resting.atHeaders chunk hLess writes
  have hRest := h.resting.holding chunk writes
  have hPos : (x.wake chunk.reads writes).http.nowReadPos = 0 :=
    h.resting.nowReadPos
  rcases Conn.pass_of_handleRead hRead with
    hPass | ⟨x₁, depth, hPass, hMore⟩
  · rcases
      Conn.pass_of_success hDue hRest.state hCall hPass with
      ⟨_, hSame⟩ | ⟨_, hLeft, _⟩
    · exact .inl (hSame.trans hRest.analyses)
    · refine .inr (.inr (.inl ?_))
      rw [hLeft, hLf]
      exact List.cons_ne_nil _ _
  · rcases
      Conn.pass_of_success hDue hRest.state hCall hPass with
      ⟨hNot, _⟩ | ⟨_, hLeft, hReads⟩
    · cases hNot
    · have hLater := Conn.later_pass hPos hPass
      rcases Conn.pass_again hPass with
        ⟨_, _, _, _, hReset, _, hOpen⟩
      have hUp :=
        (hLater.connectionState.resolve_right hOpen).trans
          h.resting.connectionState
      have hStart : x₁.AtStart := by
        rw [hReset]
        exact Conn.atStart_reset _
      have hGone :=
        handleReadAt_lf hStart (hLater.nowReadPos hPos) hUp
          hReads (hLeft.trans hLf) hMore
      exact .inr (.inr (.inr hGone))

/- The event that brings the rest of a lost request. -/
theorem Lost.last
    {before : List TraceEvent}
    {bytes : Bytes}
    {r : Request}
    {fs : FileSystem}
    {writes : List WriteResult}
    {x x' : Conn}
    {chunk : Chunk}
    (h : Lost before bytes x)
    (hSize : r.bytes.length < 2 ^ 31)
    (hBytes : bytes ++ chunk.bytes = r.bytes)
    (hRead :
      (x.wake chunk.reads writes).handleRead fs = .ok x') :
    Astray before x' := by
  have hLengths :=
    Request.short_of_prefix hSize
      (hBytes ▸ List.prefix_rfl : bytes ++ chunk.bytes <+: _)
  have hLess :
      (x.http.inBuffer ++ chunk.bytes).length < 2 ^ 31 := by
    have hOld := h.held
    rw [List.length_append]
    omega
  have hNew : chunk.bytes.length < 2 ^ 31 := by omega
  have hDue := h.resting.atHeaders chunk hNew writes
  have hRest := h.resting.holding chunk writes
  have hAgain : ∀ d,
      ((x.wake chunk.reads writes).holding
          (x.http.inBuffer ++ chunk.bytes)).http.parseHeaders =
        .ok (.again, d) →
      Astray before x' := by
    intro d hCall
    have hWaits := hRest.handleRead_again hDue hCall fs
    rw [hWaits.1] at hRead
    cases hRead
    exact .inl hWaits.2.analyses
  have hError : ∀ d,
      ((x.wake chunk.reads writes).holding
          (x.http.inBuffer ++ chunk.bytes)).http.parseHeaders =
        .ok (.error, d) →
      Astray before x' := by
    intro d hCall
    rcases hRest.handleRead_error hDue hCall fs with
      ⟨x₁, hRead', _, hSame⟩
    rw [hRead'] at hRead
    cases hRead
    exact .inl hSame
  rcases h.unfinished with
    hLine | ⟨hLf, hBuffer⟩ | ⟨hEndCr, hBuffer, hSuffix⟩
  · have hCases :=
      HttpData.parseHeadersBy_of_inLine
        ((x.wake chunk.reads writes).holding
          (x.http.inBuffer ++ chunk.bytes)).http
        hLine
    rw [← HttpData.parseHeaders_eq hLess] at hCases
    rcases hCases with
      hRaise | ⟨d, hCall⟩ | ⟨scan, _, hCall⟩
    · rw [handleRead_of_fault hDue hRest.state hRaise fs]
        at hRead
      cases hRead
    · exact hError d hCall
    · exact hAgain _ hCall
  · -- the LF that was kept is read as part of a key
    rcases parseHeaders_behind_lf hLf hBuffer hLess with
      ⟨flag, d, hCall, hEnd⟩
    cases flag with
    | again => exact hAgain d hCall
    | error => exact hError d hCall
    | success =>
        exact h.astray_of_tainted hNew hCall hEnd.2 hRead
  · -- only the LF of the blank line was to come
    have hFront : bytes <+: r.bytes := ⟨_, hBytes⟩
    have hAll := Request.bytes_of_suffix hFront hSuffix
    rw [← hBytes, List.append_cancel_left_eq] at hAll
    have hWhole :
        ((x.wake chunk.reads writes).holding
            (x.http.inBuffer ++ chunk.bytes)).http.inBuffer =
          10 :: 13 :: [10] := by
      show x.http.inBuffer ++ chunk.bytes = _
      rw [hBuffer, ← hAll]
      rfl
    have hCall :=
      HttpData.parseHeadersBy_of_endCr
        (d :=
          ((x.wake chunk.reads writes).holding
            (x.http.inBuffer ++ chunk.bytes)).http)
        hEndCr hWhole
    rw [← HttpData.parseHeaders_eq hLess] at hCall
    exact h.astray_of_lf hNew hCall rfl hRead

end V3

end WebServer

------------------------------------------------------------
-- Requests That Arrive At Once
------------------------------------------------------------

namespace WebServer

namespace V3

open StdString

/- With an error the state is left as it was. -/
theorem Conn.state_conclude
    {c : Conn}
    (hError :
      c.sendPending.conclude.2.http.error = true) :
    c.sendPending.conclude.2.http.state = c.http.state := by
  rcases c.sendPending_frame with ⟨_, _, _, _, _, hFrame⟩
  have hSend : c.sendPending.http.state = c.http.state := by
    rw [hFrame]
  rcases c.sendPending.reset_frame with ⟨_, _, hReset⟩
  unfold conclude at hError ⊢
  split_ifs at hError ⊢ with hTrue hFinish
  · exact hSend
  · rw [hReset] at hError
    exact absurd hError hTrue
  · exact hSend
  · exact hSend

/- The names of the header lines do not begin with LF. -/
theorem not_tainted_of_readsFields
    {lines : List HeaderLine}
    {fields : List (Bytes × Bytes)}
    (hFields : ReadsFields lines fields)
    {headers : Headers}
    (hClean : ¬ Tainted headers) :
    ¬ Tainted (setFields headers fields) := by
  have hStored : ∀ (l : HeaderLine) (headers : Headers)
      (value : Bytes),
      ¬ Tainted headers →
        ¬ Tainted
          (Function.update headers l.key (some value)) := by
    rintro l headers value hClean ⟨name, old, hSome⟩
    have hNot : 10 :: name ≠ l.key := by
      intro hEq
      exact (l.key_plain 10 (by simp [← hEq])).2.2 rfl
    rw [Function.update_of_ne hNot] at hSome
    exact hClean ⟨name, old, hSome⟩
  induction hFields generalizing headers with
  | nil => exact hClean
  | line _ _ _ ih => exact ih (hStored _ headers _ hClean)
  | empty _ _ _ ih => exact ih (hStored _ headers _ hClean)

/-
  Header lines that a single call reads to the blank line
  are read to their end.
-/
theorem readsFields_of_success
    {d d' : HttpData}
    {lines : List HeaderLine}
    (hState : d.hState = .start)
    (hBuffer : d.inBuffer = 10 :: headerBytes lines)
    (hCall : d.parseHeadersBy .exact = .ok (.success, d')) :
    ∃ fields,
      fields ≠ [] ∧
        ReadsFields lines fields ∧
        d'.headers = setFields d.headers fields ∧
        d'.inBuffer = [] := by
  have hBuffer' :
      d.inBuffer = 10 :: (headerBytes lines ++ []) := by
    rw [hBuffer, List.append_nil]
  by_cases hRead : ∃ fields, ReadsFields lines fields
  · rcases hRead with ⟨fields, hFields⟩
    have hNonempty : fields ≠ [] := by
      rintro rfl
      cases hFields
      have hScan :
          d.scanHeaders .exact =
            .ok (.stopped 3 ⟨.start, d.headers, .init⟩) := by
        unfold HttpData.scanHeaders
        rw [hState, hBuffer]
        rfl
      rw [HttpData.parseHeadersBy_of_again hScan
        ParseState.noConfusion (Int.natCast_nonneg _)] at hCall
      cases hCall
    refine ⟨fields, hNonempty, hFields, ?_⟩
    rw [HttpData.parseHeadersBy_of_readsFields hState hBuffer'
      hFields hNonempty] at hCall
    cases hCall
    exact ⟨rfl, rfl⟩
  · exfalso
    rw [not_exists] at hRead
    have hBetween :
        (⟨.start, d.headers, .init⟩ : HeaderScan).Between :=
      .inl rfl
    have hStr : d.inBuffer.drop 1 = headerBytes lines ++ [] := by
      rw [hBuffer']
      rfl
    rcases
      stuckOver_of_not_readsFields hRead hBetween hStr with
      ⟨scan, hError⟩ | ⟨_, j, scan, hLoop, hDrop, hLf, hLine⟩
    · have hScan : d.scanHeaders .exact = .ok (.error scan) := by
        rw [HttpData.scanHeaders_skip hState hBuffer, hError]
      rw [HttpData.parseHeadersBy_of_error hScan] at hCall
      cases hCall
    · have hScan :
          d.scanHeaders .exact = .ok (.stopped j scan) := by
        rw [HttpData.scanHeaders_skip hState hBuffer, hLoop]
        rfl
      have hBounds :=
        d.scanHeaders_of_not_inLine (by rw [hState]; rfl)
      rw [hScan] at hBounds
      rw [HttpData.parseHeadersBy_of_again hScan
        (by rw [hLf]; exact ParseState.noConfusion)
        hBounds.2] at hCall
      cases hCall

/- No body is waited for where none is announced. -/
theorem Conn.bodyStage_of_no_body
    {y : Conn}
    {d : HttpData}
    (hLeft : d.inBuffer = [])
    (hPost : d.method = .post →
      ∃ value n,
        d.headers (utf8 "Content-length") = some value ∧
          stoi value = .ok n ∧
          n ≤ 0) :
    { y with
      http :=
        { d with state := Conn.afterHeaders d } }.bodyStage =
      .ok
        (.go
          { y with http := { d with state := .analysis } }) := by
  unfold Conn.afterHeaders
  by_cases hIs : d.method = .post
  · rcases hPost hIs with ⟨value, n, hValue, hNumber, hSmall⟩
    have hEnough : ¬ toInt32 d.inBuffer.length < n := by
      rw [hLeft]
      exact Int.not_lt.mpr hSmall
    rw [if_pos hIs]
    unfold Conn.bodyStage
    simp only [if_true, hValue, hNumber, bind, Except.bind]
    rw [if_neg hEnough]
  · rw [if_neg hIs]
    exact if_neg ProcessState.noConfusion

/- A pass that leaves no bytes is the last one. -/
theorem Conn.conclude_of_empty
    {c : Conn}
    (hEmpty : c.conclude.2.http.inBuffer = []) :
    c.conclude = (false, c.conclude.2) := by
  cases hCase : c.conclude with
  | mk again c' =>
      cases again with
      | false => rfl
      | true =>
          rw [hCase] at hEmpty
          exact
            absurd hEmpty (Conn.conclude_again hCase).2.2.2.1

/- The analysis does not end in the first state. -/
theorem Conn.analysisStage_ne_parseUri
    {c : Conn}
    {fs : FileSystem}
    {flow : Flow}
    (hAnalysis : c.http.state = .analysis)
    (hLast : c.analysisStage fs = .ok flow) :
    flow.conn.http.state ≠ .parseUri := by
  rcases Conn.analysisStage_cases hLast with
    ⟨hNot, _⟩ | ⟨_, _, rfl⟩ | ⟨_, _, _, _, rfl⟩ |
      ⟨_, _, _, _, rfl⟩
  · exact absurd hAnalysis hNot
  · show c.http.state ≠ .parseUri
    rw [hAnalysis]
    exact ProcessState.noConfusion
  · exact ProcessState.noConfusion
  · show c.http.state ≠ .parseUri
    rw [hAnalysis]
    exact ProcessState.noConfusion

section

variable {c : Conn}
variable {r : Request}
variable {fs : FileSystem}
variable {writes : List WriteResult}

/- A request that is read in full is analysed. -/
theorem Idle.handleRead_of_due
    {method : HttpMethod}
    {fields : List (Bytes × Bytes)}
    (hIdle : Idle c)
    (hSize : r.bytes.length < 2 ^ 31)
    (hNonempty : fields ≠ [])
    (hFields : ReadsFields r.lines fields)
    (hPost : method = .post →
      ∃ value n,
        setFields (fun _ => none) fields
            (utf8 "Content-length") = some value ∧
          stoi value = .ok n ∧
          n ≤ 0)
    (fs : FileSystem)
    (writes : List WriteResult)
    (fileName : Bytes)
    (version : HttpVersion) :
    ∃ c₁,
      (∀ z : Conn,
        z.atHeaders =
          .ok
            (.go
              (c.due writes method fileName version
                (10 :: headerBytes r.lines))) →
          z.handleRead fs = .ok c₁) ∧
        c₁.analyses =
          c.analyses ++
            [.analysisRequest method fileName version
              (setFields (fun _ => none) fields)] ∧
        c₁.http.inBuffer = [] ∧
        (c₁.http.error = true →
          c₁.http.state ≠ .parseUri) := by
  obtain ⟨y, hY⟩ :
      ∃ y : Conn,
        y =
          c.due writes method fileName version
            (10 :: headerBytes r.lines) :=
    ⟨_, rfl⟩
  obtain ⟨d, hD⟩ :
      ∃ d : HttpData,
        d =
          { y.http with
            hState := .endLf
            headers := setFields (fun _ => none) fields
            inBuffer := [] } :=
    ⟨_, rfl⟩
  have hCall : y.http.parseHeaders = .ok (.success, d) := by
    have hBuffer :
        y.http.inBuffer =
          10 :: (headerBytes r.lines ++ []) := by
      rw [hY, List.append_nil]
      rfl
    have hStart : y.http.hState = .start := by
      rw [hY]
      exact hIdle.hState
    have hNone : y.http.headers = fun _ => none := by
      rw [hY]
      exact hIdle.headers
    have hLess : y.http.inBuffer.length < 2 ^ 31 := by
      rw [Request.bytes_cr] at hSize
      rw [hBuffer, List.append_nil]
      simp only [List.length_append, List.length_cons]
        at hSize ⊢
      omega
    rw [HttpData.parseHeaders_eq hLess,
      HttpData.parseHeadersBy_of_readsFields hStart hBuffer
        hFields hNonempty, hNone, hD]
    rfl
  have hBody :
      { y with
        http :=
          { d with state := Conn.afterHeaders d } }.bodyStage =
        .ok
          (.go
            { y with
              http := { d with state := .analysis } }) := by
    have hMethod : d.method = method := by
      rw [hD, hY]
      rfl
    apply Conn.bodyStage_of_no_body
    · rw [hD]
    · rw [hMethod, hD]
      exact hPost
  obtain ⟨c₃, hC₃⟩ :
      ∃ c₃ : Conn,
        c₃ = { y with http := { d with state := .analysis } } :=
    ⟨_, rfl⟩
  have hAnalysis : c₃.http.state = .analysis := by
    rw [hC₃]
  rcases c₃.analysisStage_ok fs with ⟨flow, hLast⟩
  have hBuffer : flow.conn.http.inBuffer = [] := by
    rw [(Conn.inBuffer_analysisStage hLast).1, hC₃, hD]
  have hEmpty :
      flow.conn.sendPending.conclude.2.http.inBuffer = [] := by
    rw [flow.conn.inBuffer_conclude.1, hBuffer]
  have hOnce := Conn.conclude_of_empty hEmpty
  refine
    ⟨flow.conn.sendPending.conclude.2, ?_, ?_, hEmpty, ?_⟩
  · intro z hDue
    have hStage : z.atAnalysis = .ok (.go c₃) := by
      have hState : y.http.state = .parseHeaders := by
        rw [hY]
        rfl
      unfold Conn.atAnalysis Conn.atBody
      rw [hDue, ← hY]
      simp only [bind, Except.bind, Flow.andThen,
        Conn.headerStage, if_pos hState, hCall]
      rw [hC₃]
      exact hBody
    apply Conn.handleRead_of_pass
    rw [Conn.pass_eq, Conn.stages_eq, hStage]
    simp only [Except.bind, Flow.andThen, hLast, Except.map]
    rw [hOnce]
  · rw [flow.conn.analyses_conclude,
      Conn.analyses_analysisStage hAnalysis hLast, hC₃, hD, hY]
    rfl
  · intro hError
    rw [Conn.state_conclude hError]
    exact Conn.analysisStage_ne_parseUri hAnalysis hLast

/- A request that is analysed was read in full. -/
theorem Idle.readInFull_of_analyses
    {x : Conn}
    {chunk : Chunk}
    (hIdle : Idle c)
    (hEmpty : c.http.inBuffer = [])
    (hSize : r.bytes.length < 2 ^ 31)
    (hBytes : chunk.bytes = r.bytes)
    (hRead :
      (c.wake chunk.reads writes).handleRead fs = .ok x)
    (hNew : x.analyses ≠ c.analyses) :
    r.ReadInFull := by
  have hStart : (c.wake chunk.reads writes).AtStart :=
    hIdle.atStart
  have hPos : (c.wake chunk.reads writes).http.nowReadPos = 0 :=
    hIdle.nowReadPos
  have hFirst :
      (c.wake chunk.reads writes).readStage = _ :=
    readStage_of_brings chunk.brings (hBytes ▸ hSize)
      hIdle.connectionState
  have hBuffer :
      ((c.wake chunk.reads writes).holding
          (c.http.inBuffer ++ chunk.bytes)).http.inBuffer =
        r.line ++ 13 :: 10 :: headerBytes r.lines := by
    rw [hEmpty, hBytes]
    rfl
  cases hDue : (c.wake chunk.reads writes).atAnalysis with
  | error f =>
      have hPass :
          (c.wake chunk.reads writes).pass fs = .error f := by
        rw [Conn.pass_eq, Conn.stages_eq, hDue]
        rfl
      rcases Conn.pass_of_handleRead hRead with
        hOk | ⟨_, _, hOk, _⟩
      · rw [hPass] at hOk
        cases hOk
      · rw [hPass] at hOk
        cases hOk
  | ok flow =>
      have hState := hStart.atAnalysis hPos hDue
      cases flow with
      | brk c₃ =>
          exfalso
          rw [Conn.handleRead_of_pass
            (Conn.pass_of_brk hDue hState fs)] at hRead
          cases hRead
          apply hNew
          rw [c₃.analyses_conclude]
          exact Conn.analyses_atAnalysis hPos hDue
      | go c₃ =>
          rcases
            Conn.atAnalysis_go hFirst hIdle.state
              hIdle.nowReadPos hBuffer r.cr_not_mem_line
              hDue with
            ⟨method, fileName, version, d, hReads, hCall, _,
              _, _, _, hLength⟩
          have hCalled :
              ∃ y : HttpData,
                y.hState = .start ∧
                  y.headers = c.http.headers ∧
                  y.inBuffer = 10 :: headerBytes r.lines ∧
                  y.parseHeaders = .ok (.success, d) := by
            refine ⟨_, ?_, ?_, ?_, hCall⟩
            · exact hIdle.hState
            · rfl
            · rfl
          rcases hCalled with ⟨y, hAt, hOwn, hHeld, hCall⟩
          have hParts := hSize
          simp only [Request.bytes, List.length_append,
            List.length_cons] at hParts
          have hLess : y.inBuffer.length < 2 ^ 31 := by
            rw [hHeld, List.length_cons]
            omega
          rw [HttpData.parseHeaders_eq hLess] at hCall
          rcases readsFields_of_success hAt hHeld hCall with
            ⟨fields, hNonempty, hFields, hHeaders, hLeft⟩
          have hNone :
              setFields c.http.headers fields =
                setFields (fun _ => none) fields := by
            rw [hIdle.headers]
          refine
            ⟨method, fields,
              (Request.lineMethod_iff (by omega) method).mpr
                ⟨fileName, version, hReads⟩,
              hNonempty, hFields, ?_⟩
          intro hIs
          rcases hLength hIs with
            ⟨value, n, hValue, hNumber, hSmall⟩
          rw [hLeft] at hSmall
          rw [hHeaders, hOwn] at hValue
          refine ⟨value, n, ?_, hNumber, hSmall⟩
          rw [← hNone]
          exact hValue

end

end V3

end WebServer

------------------------------------------------------------
-- Cuts
------------------------------------------------------------

namespace WebServer

namespace V3

open StdString

section

variable {c : Conn}
variable {r : Request}
variable {fs : FileSystem}
variable {writes : List WriteResult}
variable {method : HttpMethod}
variable {fileName : Bytes}
variable {version : HttpVersion}

/-
  Cuts at the end of the request line do no harm, by
  induction on the pieces.
-/
theorem Ready.delivers
    {c₁ x : Conn}
    {bytes : Bytes}
    {chunks : List Chunk}
    (h : Ready c r writes method fileName version bytes x)
    (hIdle : Idle c)
    (hSize : r.bytes.length < 2 ^ 31)
    (hWhole : ∀ z : Conn,
      z.atHeaders =
        .ok
          (.go
            (c.due writes method fileName version
              (10 :: headerBytes r.lines))) →
        z.handleRead fs = .ok c₁)
    (hBytes :
      bytes ++ chunks.flatMap Chunk.bytes = r.bytes)
    (hSome : chunks ≠ [])
    (hCuts : ∀ front back,
      chunks = front ++ back → front ≠ [] → back ≠ [] →
        bytes ++ front.flatMap Chunk.bytes =
            r.line ++ [13] ∨
          bytes ++ front.flatMap Chunk.bytes =
            r.line ++ [13, 10]) :
    Delivers fs writes x chunks c₁ := by
  induction chunks generalizing bytes x with
  | nil => exact absurd rfl hSome
  | cons chunk chunks ih =>
      have hPrefix : bytes ++ chunk.bytes <+: r.bytes := by
        rw [List.flatMap_cons, ← List.append_assoc] at hBytes
        exact ⟨_, hBytes⟩
      have hLengths := Request.short_of_prefix hSize hPrefix
      have hNew : chunk.bytes.length < 2 ^ 31 := by omega
      rw [delivers_cons]
      refine ⟨h.error, ?_⟩
      cases chunks with
      | nil =>
          have hLast :
              bytes ++ chunk.bytes =
                r.line ++ 13 :: 10 :: headerBytes r.lines := by
            rw [← Request.bytes_cr, ← hBytes]
            simp
          exact
            ⟨c₁, hWhole _ (h.atHeaders chunk _ hLast hNew),
              delivers_nil.mpr rfl⟩
      | cons next chunks =>
          obtain ⟨rest, hShort, hCut⟩ :
              ∃ rest,
                (rest = [] ∨ rest = [10]) ∧
                  bytes ++ chunk.bytes =
                    r.line ++ 13 :: rest := by
            have hCut :=
              hCuts [chunk] (next :: chunks) rfl (by simp)
                (by simp)
            rw [List.flatMap_singleton] at hCut
            rcases hCut with hCut | hCut
            · exact ⟨[], .inl rfl, hCut⟩
            · exact ⟨[10], .inr rfl, hCut⟩
          refine
            ⟨_, h.handleRead_short hIdle hCut hNew hShort,
              ih (ready_due hIdle rest) ?_ (by simp) ?_⟩
          · rw [← hCut, ← hBytes]
            simp
          · intro front back hSplit hFront hBack
            have hNext :=
              hCuts (chunk :: front) back (by rw [hSplit]; rfl)
                (by simp) hBack
            rw [List.flatMap_cons, ← List.append_assoc, hCut]
              at hNext
            exact hNext

/-
  Before the last event: nothing came yet, or the bytes so
  far end at the end of the request line, or the request is
  lost.
-/
def Trail
    (c : Conn)
    (r : Request)
    (writes : List WriteResult)
    (method : HttpMethod)
    (fileName : Bytes)
    (version : HttpVersion)
    (bytes : Bytes)
    (x : Conn) : Prop :=
  (bytes = [] ∧ x = c) ∨
    (∃ rest,
      (rest = [] ∨ rest = [10]) ∧
        bytes = r.line ++ 13 :: rest ∧
        x =
          (c.due writes method fileName version
            rest).addEpollIn) ∨
    Lost c.analyses bytes x

/- An event on a connection that is ready. -/
theorem Ready.trail
    {x x' : Conn}
    {bytes rest : Bytes}
    {chunk : Chunk}
    (h : Ready c r writes method fileName version bytes x)
    (hIdle : Idle c)
    (hLines : r.lines ≠ [])
    (hSize : r.bytes.length < 2 ^ 31)
    (hBytes : bytes ++ chunk.bytes = r.line ++ 13 :: rest)
    (hPrefix : bytes ++ chunk.bytes <+: r.bytes)
    (hProper : bytes ++ chunk.bytes ≠ r.bytes)
    (hRead :
      (x.wake chunk.reads writes).handleRead fs = .ok x')
    (hError : x'.http.error = false) :
    Trail c r writes method fileName version
      (bytes ++ chunk.bytes) x' := by
  have hLengths := Request.short_of_prefix hSize hPrefix
  have hNew : chunk.bytes.length < 2 ^ 31 := by omega
  have hRest : rest <+: 10 :: headerBytes r.lines := by
    rw [hBytes] at hPrefix
    exact
      (Request.line_of_prefix hPrefix r.cr_not_mem_line).2
  have hShort : rest = [] ∨ rest = [10] →
      Trail c r writes method fileName version
        (bytes ++ chunk.bytes) x' := by
    intro hShort
    rw [h.handleRead_short hIdle hBytes hNew hShort] at hRead
    cases hRead
    exact .inr (.inl ⟨rest, hShort, hBytes, rfl⟩)
  cases rest with
  | nil => exact hShort (.inl rfl)
  | cons b q =>
      have hFirst := (List.cons_prefix_cons.mp hRest).1
      subst hFirst
      by_cases hNil : q = []
      · exact hShort (.inr (by rw [hNil]))
      · exact
          .inr
            (.inr
              (h.handleRead_inside hIdle hLines hSize hBytes
                hPrefix hProper hNil hRead hError))

theorem Trail.step
    {x x' : Conn}
    {bytes : Bytes}
    {chunk : Chunk}
    (h : Trail c r writes method fileName version bytes x)
    (hIdle : Idle c)
    (hEmpty : c.http.inBuffer = [])
    (hLines : r.lines ≠ [])
    (hSize : r.bytes.length < 2 ^ 31)
    (hReads : ReadsAs r.line method fileName version)
    (hPrefix : bytes ++ chunk.bytes <+: r.bytes)
    (hProper : bytes ++ chunk.bytes ≠ r.bytes)
    (hRead :
      (x.wake chunk.reads writes).handleRead fs = .ok x')
    (hError : x'.http.error = false) :
    Trail c r writes method fileName version
      (bytes ++ chunk.bytes) x' := by
  rcases h with ⟨rfl, rfl⟩ | ⟨rest, _, rfl, rfl⟩ | hLost
  · rw [List.nil_append] at hPrefix
    by_cases hCr : 13 ∈ chunk.bytes
    · rcases List.eq_append_cons_of_mem hCr with
        ⟨line, rest, hSplit, hLine⟩
      rw [hSplit] at hPrefix
      have hOwn := (Request.line_of_prefix hPrefix hLine).1
      have hBytes :
          [] ++ chunk.bytes = r.line ++ 13 :: rest := by
        rw [hSplit, hOwn]
        rfl
      rw [← hSplit] at hPrefix
      exact
        (ready_start hIdle hEmpty hReads).trail hIdle hLines
          hSize hBytes hPrefix hProper hRead hError
    · exact
        .inr
          (.inr
            (hIdle.handleRead_inside hEmpty hSize hPrefix hCr
              hRead hError))
  · have hBytes :
        r.line ++ 13 :: rest ++ chunk.bytes =
          r.line ++ 13 :: (rest ++ chunk.bytes) := by
      simp
    exact
      (ready_due hIdle rest).trail hIdle hLines hSize hBytes
        hPrefix hProper hRead hError
  · exact
      .inr
        (.inr
          (hLost.step hSize hPrefix hProper hRead hError))

/- All events before a cut, by induction on the pieces. -/
theorem Trail.delivers
    {x x' : Conn}
    {bytes : Bytes}
    {chunks : List Chunk}
    (h : Trail c r writes method fileName version bytes x)
    (hIdle : Idle c)
    (hEmpty : c.http.inBuffer = [])
    (hLines : r.lines ≠ [])
    (hSize : r.bytes.length < 2 ^ 31)
    (hReads : ReadsAs r.line method fileName version)
    (hPrefix :
      bytes ++ chunks.flatMap Chunk.bytes <+: r.bytes)
    (hProper :
      bytes ++ chunks.flatMap Chunk.bytes ≠ r.bytes)
    (hRun : Delivers fs writes x chunks x')
    (hError : x'.http.error = false) :
    Trail c r writes method fileName version
      (bytes ++ chunks.flatMap Chunk.bytes) x' := by
  induction chunks generalizing bytes x with
  | nil =>
      rw [delivers_nil] at hRun
      rw [List.flatMap_nil, List.append_nil, hRun]
      exact h
  | cons chunk chunks ih =>
      rw [delivers_cons] at hRun
      rcases hRun with ⟨_, x₁, hRead, hRest⟩
      have hQuiet : x₁.http.error = false := by
        cases chunks with
        | nil =>
            rw [delivers_nil] at hRest
            rw [← hRest]
            exact hError
        | cons next chunks => exact (delivers_cons.mp hRest).1
      rw [List.flatMap_cons, ← List.append_assoc]
        at hPrefix hProper ⊢
      have hFirst :
          bytes ++ chunk.bytes <+: r.bytes :=
        (List.prefix_append _ _).trans hPrefix
      have hShort : bytes ++ chunk.bytes ≠ r.bytes := by
        intro hAll
        apply hProper
        have hLong := hPrefix.length_le
        rw [← hAll] at hLong ⊢
        simp only [List.length_append] at hLong
        have hNil :
            chunks.flatMap Chunk.bytes = [] :=
          List.eq_nil_of_length_eq_zero (by omega)
        rw [hNil, List.append_nil]
      exact
        ih
          (h.step hIdle hEmpty hLines hSize hReads hFirst
            hShort hRead hQuiet)
          hPrefix hProper hRest

end

/- All events after a cut that lost the request. -/
theorem Lost.delivers
    {before : List TraceEvent}
    {r : Request}
    {fs : FileSystem}
    {writes : List WriteResult}
    {x x' : Conn}
    {bytes : Bytes}
    {chunks : List Chunk}
    (h : Lost before bytes x)
    (hSize : r.bytes.length < 2 ^ 31)
    (hBytes :
      bytes ++ chunks.flatMap Chunk.bytes = r.bytes)
    (hSome : chunks ≠ [])
    (hRun : Delivers fs writes x chunks x') :
    Astray before x' := by
  induction chunks generalizing bytes x with
  | nil => exact absurd rfl hSome
  | cons chunk chunks ih =>
      rw [delivers_cons] at hRun
      rcases hRun with ⟨_, x₁, hRead, hRest⟩
      cases chunks with
      | nil =>
          rw [delivers_nil] at hRest
          subst hRest
          exact h.last hSize (by simpa using hBytes) hRead
      | cons next chunks =>
          rw [List.flatMap_cons, ← List.append_assoc]
            at hBytes
          have hProper : bytes ++ chunk.bytes ≠ r.bytes := by
            intro hAll
            have hLong := List.length_pos_iff.mpr next.bytes_ne
            have hLen := congrArg List.length hBytes
            rw [← hAll] at hLen
            simp only [List.flatMap_cons, List.length_append]
              at hLen
            omega
          exact
            ih
              (h.step hSize ⟨_, hBytes⟩ hProper hRead
                (delivers_cons.mp hRest).1)
              hBytes (by simp) hRest

/- What came about at once did not go astray. -/
theorem Astray.not_sameEnd
    {before : List TraceEvent}
    {method : HttpMethod}
    {fileName : Bytes}
    {version : HttpVersion}
    {headers : Headers}
    {c₁ c₂ : Conn}
    (h : Astray before c₂)
    (hAnalyses :
      c₁.analyses =
        before ++
          [.analysisRequest method fileName version headers])
    (hClean : ¬ Tainted headers)
    (hLeft : c₁.http.inBuffer = [])
    (hState : c₁.http.error = true →
      c₁.http.state ≠ .parseUri) :
    ¬ SameEnd c₁ c₂ := by
  intro hSame
  rcases h with
    hNone | ⟨_, _, _, headers', rest, hNew, hTaint⟩ |
      hMore | ⟨hError, hAt⟩
  · have hLen := congrArg List.length hAnalyses
    rw [hSame.analyses, hNone] at hLen
    simp at hLen
  · rw [hSame.analyses, hNew, List.append_cancel_left_eq,
      List.cons.injEq, TraceEvent.analysisRequest.injEq]
      at hAnalyses
    rw [hAnalyses.1.2.2.2] at hTaint
    exact hClean hTaint
  · exact hMore (hSame.inBuffer ▸ hLeft)
  · exact
      hState (hSame.error.trans hError)
        (hSame.state.trans hAt)

theorem bytes_flatMap_ne
    {chunks : List Chunk}
    (hSome : chunks ≠ []) :
    chunks.flatMap Chunk.bytes ≠ [] := by
  rcases List.exists_cons_of_ne_nil hSome with
    ⟨chunk, chunks, rfl⟩
  intro hNil
  rw [List.flatMap_cons, List.append_eq_nil_iff] at hNil
  exact chunk.bytes_ne hNil.1

/-
  A cut elsewhere than at the end of the request line loses
  the request.
-/
theorem lost_of_cut
    {c x : Conn}
    {r : Request}
    {fs : FileSystem}
    {writes : List WriteResult}
    {method : HttpMethod}
    {fileName : Bytes}
    {version : HttpVersion}
    {front back : List Chunk}
    (hIdle : Idle c)
    (hEmpty : c.http.inBuffer = [])
    (hLines : r.lines ≠ [])
    (hSize : r.bytes.length < 2 ^ 31)
    (hReads : ReadsAs r.line method fileName version)
    (hBytes :
      front.flatMap Chunk.bytes ++
          back.flatMap Chunk.bytes =
        r.bytes)
    (hFront : front ≠ [])
    (hBack : back ≠ [])
    (hRun : Delivers fs writes c front x)
    (hError : x.http.error = false)
    (hElsewhere :
      ¬ (front.flatMap Chunk.bytes = r.line ++ [13] ∨
        front.flatMap Chunk.bytes = r.line ++ [13, 10])) :
    Lost c.analyses (front.flatMap Chunk.bytes) x := by
  have hStart :
      Trail c r writes method fileName version [] c :=
    .inl ⟨rfl, rfl⟩
  have hProper : front.flatMap Chunk.bytes ≠ r.bytes := by
    intro hAll
    rw [hAll, List.append_right_eq_self] at hBytes
    exact bytes_flatMap_ne hBack hBytes
  have hTrail :=
    hStart.delivers hIdle hEmpty hLines hSize hReads
      ⟨_, hBytes⟩ hProper hRun hError
  rw [List.nil_append] at hTrail
  rcases hTrail with ⟨hNil, _⟩ | ⟨rest, hShort, hAt, _⟩ | hLost
  · exact absurd hNil (bytes_flatMap_ne hFront)
  · rcases hShort with rfl | rfl
    · exact absurd (.inl hAt) hElsewhere
    · exact absurd (.inr hAt) hElsewhere
  · exact hLost

/-
  One request of less than 2^31 bytes on an idle connection.
  However it is cut, it comes out as it does when it arrives
  at once, exactly when it is read in full and every cut is
  at the end of the request line.
-/
theorem sameEnd_iff
    {c : Conn}
    (hIdle : Idle c)
    (hEmpty : c.http.inBuffer = [])
    {r : Request}
    (hSize : r.bytes.length < 2 ^ 31)
    (fs : FileSystem)
    (writes : List WriteResult)
    (whole : { chunk : Chunk // chunk.bytes = r.bytes })
    (cut : Segmentation r.bytes) :
    (∃ c₁ c₂,
      Delivers fs writes c [whole.1] c₁ ∧
        Delivers fs writes c cut.chunks c₂ ∧
        c₁.analyses ≠ c.analyses ∧
        SameEnd c₁ c₂) ↔
      r.ReadInFull ∧ cut.AtLineEnd := by
  rcases whole with ⟨whole, hWholeBytes⟩
  have hNew : whole.bytes.length < 2 ^ 31 :=
    hWholeBytes ▸ hSize
  have hLineSize : r.line.length < 2 ^ 31 := by
    rw [Request.bytes, List.length_append] at hSize
    omega
  have hOnce :
      [] ++ whole.bytes =
        r.line ++ 13 :: 10 :: headerBytes r.lines :=
    hWholeBytes
  constructor
  · rintro ⟨c₁, c₂, hFirst, hCut, hOwn, hSame⟩
    rcases delivers_cons.mp hFirst with
      ⟨_, x, hRead, hEnd⟩
    rw [delivers_nil] at hEnd
    subst hEnd
    have hFull :=
      hIdle.readInFull_of_analyses hEmpty hSize hWholeBytes
        hRead hOwn
    refine ⟨hFull, ?_⟩
    rcases hFull with
      ⟨method, fields, hMethod, hNonempty, hFields, hPost⟩
    rcases
      (Request.lineMethod_iff hLineSize method).mp hMethod
      with ⟨fileName, version, hReads⟩
    rcases
      hIdle.handleRead_of_due hSize hNonempty hFields hPost
        fs writes fileName version with
      ⟨x, hCall, hAnalyses, hLeft, hState⟩
    have hReady :
        Ready c r writes method fileName version [] c :=
      ready_start hIdle hEmpty hReads
    rw [hCall _ (hReady.atHeaders whole _ hOnce hNew)] at hRead
    cases hRead
    have hLines : r.lines ≠ [] := by
      intro hNil
      rw [hNil] at hFields
      cases hFields
      exact hNonempty rfl
    have hClean :
        ¬ Tainted (setFields (fun _ => none) fields) := by
      apply not_tainted_of_readsFields hFields
      rintro ⟨_, _, hSome⟩
      cases hSome
    intro front back hSplit hFront hBack
    by_contra hElsewhere
    have hBytes := cut.joined
    rw [hSplit, List.flatMap_append] at hBytes
    rw [hSplit, Delivers, List.map_append] at hCut
    rcases hCut.append_inv with ⟨x, hBefore, hAfter⟩
    have hQuiet : x.http.error = false := by
      rcases List.exists_cons_of_ne_nil hBack with
        ⟨chunk, chunks, rfl⟩
      exact (delivers_cons.mp hAfter).1
    have hLost :=
      lost_of_cut hIdle hEmpty hLines hSize hReads hBytes
        hFront hBack hBefore hQuiet hElsewhere
    exact
      (hLost.delivers hSize hBytes hBack hAfter).not_sameEnd
        hAnalyses hClean hLeft hState hSame
  · rintro
      ⟨⟨method, fields, hMethod, hNonempty, hFields, hPost⟩,
        hCuts⟩
    rcases
      (Request.lineMethod_iff hLineSize method).mp hMethod
      with ⟨fileName, version, hReads⟩
    rcases
      hIdle.handleRead_of_due hSize hNonempty hFields hPost
        fs writes fileName version with
      ⟨c₁, hCall, hAnalyses, _, _⟩
    have hReady :
        Ready c r writes method fileName version [] c :=
      ready_start hIdle hEmpty hReads
    refine ⟨c₁, c₁, ?_, ?_, ?_, rfl, rfl, rfl, rfl, rfl⟩
    · rw [delivers_cons]
      exact
        ⟨hIdle.error, c₁,
          hCall _ (hReady.atHeaders whole _ hOnce hNew),
          delivers_nil.mpr rfl⟩
    · refine
        hReady.delivers hIdle hSize hCall cut.joined ?_ hCuts
      intro hNil
      have hBytes := cut.joined
      rw [hNil, Request.bytes] at hBytes
      simp at hBytes
    · rw [hAnalyses]
      intro hEq
      have hLen := congrArg List.length hEq
      simp at hLen

/- An event with one `read` call. -/
def Chunk.single
    (bytes : Bytes)
    (bytes_ne : bytes ≠ [])
    (short : bytes.length ≤ maxBuff) : Chunk where
  reads := [.data bytes]
  bytes := bytes
  brings := brings_data bytes_ne short
  bytes_ne := bytes_ne

/- The cut behind the first `n` bytes. -/
def Segmentation.inTwo
    {s : Bytes}
    (n : Nat)
    (front_ne : s.take n ≠ [])
    (back_ne : s.drop n ≠ [])
    (short : s.length ≤ maxBuff) : Segmentation s where
  chunks :=
    [.single (s.take n) front_ne
      (Nat.le_trans (List.length_take_le' n s) short),
     .single (s.drop n) back_ne
      (by rw [List.length_drop]; omega)]
  joined := by simp [Chunk.single]

def helloWhole :
    { chunk : Chunk // chunk.bytes = helloRequest.bytes } :=
  ⟨.single helloRequest.bytes (by decide) (by decide), rfl⟩

/- A cut between CR and LF of the request line. -/
theorem sameEnd_iff_hello :
    (∃ c₁ c₂,
      Delivers noFiles [] (.new ⟨[], [], []⟩)
          [helloWhole.1] c₁ ∧
        Delivers noFiles [] (.new ⟨[], [], []⟩)
          (Segmentation.inTwo (s := helloRequest.bytes) 20
            (by decide) (by decide) (by decide)).chunks c₂ ∧
        c₁.analyses ≠ (Conn.new ⟨[], [], []⟩).analyses ∧
        SameEnd c₁ c₂) ↔
      helloRequest.ReadInFull ∧
        (Segmentation.inTwo (s := helloRequest.bytes) 20
          (by decide) (by decide) (by decide)).AtLineEnd :=
  sameEnd_iff (idle_new _ _) rfl (by decide +kernel)
    noFiles [] helloWhole _

/-
  A request cut behind its first two bytes is answered with
  400, and the rest of it is not read.
-/
theorem cut_in_method_refused :
    ¬ ∃ c₁ c₂,
      Delivers noFiles [] (.new ⟨[], [], []⟩)
          [helloWhole.1] c₁ ∧
        Delivers noFiles [] (.new ⟨[], [], []⟩)
          (Segmentation.inTwo (s := helloRequest.bytes) 2
            (by decide) (by decide) (by decide)).chunks c₂ ∧
        c₁.analyses ≠ (Conn.new ⟨[], [], []⟩).analyses ∧
        SameEnd c₁ c₂ := by
  rintro ⟨c₁, c₂, _, hCut, _⟩
  rcases delivers_cons.mp hCut with ⟨_, x, hRead, hRest⟩
  have hQuiet := (delivers_cons.mp hRest).1
  have hRefused :
      (((Conn.new ⟨[], [], []⟩).wake
          [.data (helloRequest.bytes.take 2)] []).handleRead
            noFiles).map (fun c => c.http.error) =
        .ok true := by
    decide +kernel
  rw [show
    ((Conn.new ⟨[], [], []⟩).wake
        [.data (helloRequest.bytes.take 2)] []).handleRead
          noFiles =
      .ok x from hRead] at hRefused
  simp only [Except.map, hQuiet] at hRefused
  cases hRefused

end V3

end WebServer
