import WebServer.V3.Net.Exceptions

/-
  The order of the responses of version 3.0.

  What a client has been sent and what waits in `outBuffer_`
  should together be the responses to its requests, in the
  order of the requests. `writen` sends `outBuffer_` from
  the front, and the answer to a file is appended to it.

  Three things break the order. The answer to `hello` is
  assigned to `outBuffer_`. An error reply is written to the
  socket past what waits there. A file that cannot be opened
  or mapped clears `outBuffer_`. This file shows that the
  order is kept in every run in which none of them meets
  output that waits.

  Key definitions include:
    * `response`
    * `owing`
    * `Conn.InOrder`
    * `Conn.Answers`
    * `Conn.Appends`
    * `Conn.PassKeeps`

  Key theorems include:
    * `Conn.stages_answers`
    * `Conn.pass_answers`
    * `responses_in_order`
-/

------------------------------------------------------------
-- What A Client Is Owed
------------------------------------------------------------

namespace WebServer

namespace V3

open StdString

/- The header and the body of an error reply. -/
def errorReply
    (errNum : Nat)
    (shortMsg : Bytes) : Bytes :=
  Conn.errorHeader errNum shortMsg ++
    Conn.errorBody errNum shortMsg

/- The answer to a file that can be served. -/
def FileSystem.serves
    (fs : FileSystem)
    (method : HttpMethod)
    (fileName header mime : Bytes) : Option Bytes :=
  match fs.stat (cStr fileName) with
  | none => none
  | some size =>
      let head := header ++ contentHeader mime size
      if method = .head then
        some head
      else if fs.openRdonly (cStr fileName) then
        (fs.mmap (cStr fileName) size).map (head ++ ·)
      else
        none

/- The type that `fileType` finds. -/
def HttpData.mime
    (d : HttpData) : Bytes :=
  match d.fileType with
  | .ok mime => mime
  | .error _ => []

/-
  The response that the server owes for a request. A request
  that cannot be served is owed none: its error reply has an
  event of its own.
-/
def HttpData.answer
    (fs : FileSystem)
    (d : HttpData) : Bytes :=
  if d.method = .post then
    []
  else if d.fileName = utf8 "hello" then
    helloResponse
  else if d.fileName = utf8 "favicon.ico" then
    d.statusHeader ++
      contentHeader (utf8 "image/png") favicon.length ++
        favicon
  else
    (fs.serves d.method d.fileName d.statusHeader
      d.mime).getD []

/- The bytes that each recorded event adds. -/
def response
    (fs : FileSystem) :
    TraceEvent → Bytes
| .analysisRequest method fileName version headers =>
    { HttpData.new with
      method := method
      fileName := fileName
      httpVersion := version
      headers := headers }.answer fs
| .handleError errNum shortMsg => errorReply errNum shortMsg

/- What a call adds to the responses owed. -/
def due
    (c : Conn) :
    ReadEvent → Bytes
| .readable fs reads writes =>
    match (c.wake reads writes).handleRead fs with
    | .ok c' =>
        (c'.trace.drop c.trace.length).flatMap (response fs)
    | .error _ => []
| .writable _ => []

/- One connection and the responses owed so far, in order. -/
def owing : Machine (Conn × Bytes) ReadEvent :=
  readMachine.recording fun c e owed => owed ++ due c e

/- The bytes sent and the bytes that wait are those owed. -/
def Conn.InOrder
    (r : Conn × Bytes) : Prop :=
  r.1.socket.sent ++ r.1.http.outBuffer = r.2

end V3

end WebServer

------------------------------------------------------------
-- What A Pass Must Not Meet
------------------------------------------------------------

namespace WebServer

namespace V3

open StdString

/-
  Calls that stop leave no multiple of 2^32 bytes of a
  string, or 2^31 bytes are sent.
-/
def WritenResult.KeepsRest
    (result : WritenResult)
    (sbuff : Bytes) : Prop :=
  result.failed = false →
    result.writeSum < sbuff.length →
      ¬ (result.writeSum < 2 ^ 31 ∧
        (sbuff.length - result.writeSum) % 2 ^ 32 = 0)

instance decidableKeepsRest
    (result : WritenResult)
    (sbuff : Bytes) : Decidable (result.KeepsRest sbuff) :=
  inferInstanceAs (Decidable (_ → _ → _))

namespace Conn

/-
  The pass ends without an error reply and assigns nothing
  to `outBuffer_`: what it reads, the request line, the
  header lines and the body are accepted, the name is not
  `hello`, and the file can be served.
-/
structure Appends
    (c : Conn)
    (fs : FileSystem) : Prop where
  reads :
    c.http.connectionState = .disconnecting ∨
      0 ≤ toInt32 (c.socket.readn c.http.inBuffer).readNum
  line :
    ∀ c₁ line rest, c.readStage = .go c₁ →
      c₁.http.state = .parseUri →
        CutsLine c₁.http.inBuffer line rest →
          ¬ Refused line
  headers :
    ∀ c₁ d, c.atHeaders = .ok (.go c₁) →
      c₁.http.state = .parseHeaders →
        c₁.http.parseHeaders ≠ .ok (.error, d)
  length :
    ∀ c₂, c.atBody = .ok (.go c₂) →
      c₂.http.state = .recvBody →
        c₂.http.headers (utf8 "Content-length") ≠ none
  name :
    ∀ c₃, c.atAnalysis = .ok (.go c₃) →
      c₃.http.state = .analysis →
        c₃.http.method ≠ .post →
          c₃.http.fileName ≠ utf8 "hello"
  file :
    ∀ c₃, c.atAnalysis = .ok (.go c₃) →
      c₃.http.state = .analysis →
        c₃.http.method ≠ .post →
          c₃.http.fileName ≠ utf8 "favicon.ico" →
            fs.serves c₃.http.method c₃.http.fileName
              c₃.http.statusHeader c₃.http.mime ≠ none

/-
  The calls of `write` neither stop, after less than 2^31
  bytes of `outBuffer_`, with a multiple of 2^32 bytes left,
  nor fail after a part of it was accepted.
-/
def SendsFront
    (c : Conn) : Prop :=
  (writenLoop c.socket.writes
      c.http.outBuffer).KeepsRest c.http.outBuffer ∧
    ((writenLoop c.socket.writes c.http.outBuffer).failed =
        true →
      (writenLoop c.socket.writes
        c.http.outBuffer).writeSum = 0)

instance
    (c : Conn) : Decidable c.SendsFront :=
  inferInstanceAs (Decidable (_ ∧ (_ → _)))

/- An error reply is accepted in full. -/
def AcceptsReply
    (c : Conn)
    (errNum : Nat)
    (shortMsg : Bytes) : Prop :=
  (c.handleError errNum shortMsg).socket.sent =
    c.socket.sent ++ errorReply errNum shortMsg

/-
  What every pass must meet. `replies` is about the kernel:
  the error replies of the pass are accepted in full.
-/
structure PassKeeps
    (c : Conn)
    (fs : FileSystem) : Prop where
  appends : c.http.outBuffer ≠ [] → c.Appends fs
  sends :
    ∀ c₁, c.stages fs = .ok c₁ →
      c₁.http.error = false → c₁.SendsFront
  replies :
    ∀ c₁ errNum shortMsg, c.stages fs = .ok c₁ →
      .handleError errNum shortMsg ∈
          c₁.trace.drop c.trace.length →
        c.AcceptsReply errNum shortMsg

end Conn

/- What every pass of a call must meet. -/
def CallKeeps
    (c : Conn) :
    ReadEvent → Prop
| .readable fs reads writes =>
    ∀ c', Conn.NestedCall fs (c.wake reads writes) c' →
      c'.PassKeeps fs
| .writable writes => (c.wake [] writes).SendsFront

end V3

end WebServer

------------------------------------------------------------
-- Answers
------------------------------------------------------------

namespace WebServer

namespace V3

open StdString

namespace Conn

/-
  The bytes sent and those that wait grow by the responses
  to what was recorded, and by nothing else.
-/
def Answers
    (fs : FileSystem)
    (c c' : Conn) : Prop :=
  ∃ record,
    c'.trace = c.trace ++ record ∧
      c'.socket.sent ++ c'.http.outBuffer =
        c.socket.sent ++ c.http.outBuffer ++
          record.flatMap (response fs)

theorem Answers.refl
    (fs : FileSystem)
    (c : Conn) :
    c.Answers fs c :=
  ⟨[], by simp⟩

theorem Answers.trans
    {fs : FileSystem}
    {c₁ c₂ c₃ : Conn}
    (h₁ : c₁.Answers fs c₂)
    (h₂ : c₂.Answers fs c₃) :
    c₁.Answers fs c₃ := by
  rcases h₁ with ⟨record₁, hTrace₁, hBytes₁⟩
  rcases h₂ with ⟨record₂, hTrace₂, hBytes₂⟩
  refine ⟨record₁ ++ record₂, ?_, ?_⟩
  · rw [hTrace₂, hTrace₁, List.append_assoc]
  · rw [hBytes₂, hBytes₁, List.flatMap_append,
      List.append_assoc]

/- What was recorded can be read off the two traces. -/
theorem Answers.bytes
    {fs : FileSystem}
    {c c' : Conn}
    (h : c.Answers fs c') :
    c'.socket.sent ++ c'.http.outBuffer =
      c.socket.sent ++ c.http.outBuffer ++
        (c'.trace.drop c.trace.length).flatMap
          (response fs) := by
  rcases h with ⟨record, hTrace, hBytes⟩
  rw [hBytes, hTrace, List.drop_left]

/- What the stages before the answer leave alone. -/
structure Untouched
    (c c' : Conn) : Prop where
  trace : c'.trace = c.trace
  sent : c'.socket.sent = c.socket.sent
  writes : c'.socket.writes = c.socket.writes
  outBuffer : c'.http.outBuffer = c.http.outBuffer

theorem Untouched.refl
    (c : Conn) :
    c.Untouched c :=
  ⟨rfl, rfl, rfl, rfl⟩

theorem Untouched.trans
    {c₁ c₂ c₃ : Conn}
    (h₁ : c₁.Untouched c₂)
    (h₂ : c₂.Untouched c₃) :
    c₁.Untouched c₃ where
  trace := h₂.trace.trans h₁.trace
  sent := h₂.sent.trans h₁.sent
  writes := h₂.writes.trans h₁.writes
  outBuffer := h₂.outBuffer.trans h₁.outBuffer

theorem Untouched.answers
    {c c' : Conn}
    (h : c.Untouched c')
    (fs : FileSystem) :
    c.Answers fs c' :=
  ⟨[], by
    simp [h.trace, h.sent, h.outBuffer]⟩

/- The reply reaches the same socket. -/
theorem Untouched.acceptsReply
    {c c' : Conn}
    (h : c.Untouched c')
    {errNum : Nat}
    {shortMsg : Bytes}
    (hAccepts : c.AcceptsReply errNum shortMsg) :
    c'.AcceptsReply errNum shortMsg := by
  unfold AcceptsReply handleError Socket.writen at hAccepts ⊢
  simp only [h.sent, h.writes] at hAccepts ⊢
  exact hAccepts

/- A reply that nothing waits in front of is in order. -/
theorem answers_failWith
    {c : Conn}
    {errNum : Nat}
    {shortMsg : Bytes}
    (hEmpty : c.http.outBuffer = [])
    (hAccepts : c.AcceptsReply errNum shortMsg)
    (fs : FileSystem) :
    c.Answers fs (c.failWith errNum shortMsg) := by
  have hSent :
      (c.failWith errNum shortMsg).socket.sent =
        c.socket.sent ++ errorReply errNum shortMsg :=
    hAccepts
  refine ⟨[.handleError errNum shortMsg], rfl, ?_⟩
  have hOut :
      (c.failWith errNum shortMsg).http.outBuffer = [] :=
    hEmpty
  rw [hSent, hOut, hEmpty]
  simp [response]

/-
  How a stage before the answer ends: it leaves the output
  alone, or breaks off with an error reply that nothing
  waits in front of.
-/
def Ends
    (c : Conn) :
    Flow → Prop
| .go c₁ => c.Untouched c₁
| .brk c₁ =>
    c.Untouched c₁ ∨
      c.http.outBuffer = [] ∧
        ∃ c₂ errNum shortMsg,
          c.Untouched c₂ ∧
            c₁ = c₂.failWith errNum shortMsg

theorem ends_readStage
    {c : Conn}
    (hReads :
      c.http.outBuffer ≠ [] →
        c.http.connectionState = .disconnecting ∨
          0 ≤
            toInt32
              (c.socket.readn c.http.inBuffer).readNum) :
    c.Ends c.readStage := by
  unfold readStage
  simp only
  split_ifs with hDown hFailed
  · exact .inl ⟨rfl, rfl, rfl, rfl⟩
  · refine
      .inr
        ⟨?_, c.received, 400, utf8 "Bad Request",
          ⟨rfl, rfl, rfl, rfl⟩, rfl⟩
    by_contra hPending
    rcases hReads hPending with hDown' | hRead
    · exact hDown hDown'
    · omega
  · exact .inl ⟨rfl, rfl, rfl, rfl⟩
  · exact ⟨rfl, rfl, rfl, rfl⟩
  · exact ⟨rfl, rfl, rfl, rfl⟩

theorem ends_uriStage
    {c : Conn}
    {flow : Flow}
    (hPos : c.http.nowReadPos = 0)
    (hLine :
      c.http.outBuffer ≠ [] →
        ∀ line rest, c.http.state = .parseUri →
          CutsLine c.http.inBuffer line rest →
            ¬ Refused line)
    (h : c.uriStage = .ok flow) :
    c.Ends flow := by
  rcases c.uriStage_cases hPos with
    ⟨_, hCall⟩ |
      ⟨hState, line, rest, hCut, hRefused, method, fileName,
        hCall⟩ |
      ⟨_, line, rest, method, fileName, version, _, _,
        hCall⟩ <;>
    rw [hCall] at h <;> cases h
  · exact .refl c
  · right
    refine ⟨?_, _, _, _, ?_, rfl⟩
    · by_contra hPending
      exact hLine hPending line rest hState hCut hRefused
    · exact ⟨rfl, rfl, rfl, rfl⟩
  · exact ⟨rfl, rfl, rfl, rfl⟩

theorem ends_headerStage
    {c : Conn}
    {flow : Flow}
    (hHeaders :
      c.http.outBuffer ≠ [] →
        ∀ d, c.http.state = .parseHeaders →
          c.http.parseHeaders ≠ .ok (.error, d))
    (h : c.headerStage = .ok flow) :
    c.Ends flow := by
  have hDrop : ∀ {flag d},
      c.http.parseHeaders = .ok (flag, d) →
        c.Untouched { c with http := d } := by
    intro flag d hCall
    rcases parseHeaders_frame hCall with ⟨scan, k, rfl⟩
    exact ⟨rfl, rfl, rfl, rfl⟩
  rcases headerStage_cases h with
    ⟨_, rfl⟩ | ⟨_, d, hCall, rfl⟩ |
      ⟨hState, d, hCall, rfl⟩ | ⟨_, d, hCall, rfl⟩
  · exact .refl c
  · exact .inl (hDrop hCall)
  · right
    refine ⟨?_, _, _, _, hDrop hCall, rfl⟩
    by_contra hPending
    exact hHeaders hPending d hState hCall
  · exact { hDrop hCall with }

theorem ends_bodyStage
    {c : Conn}
    {flow : Flow}
    (hLength :
      c.http.outBuffer ≠ [] →
        c.http.state = .recvBody →
          c.http.headers (utf8 "Content-length") ≠ none)
    (h : c.bodyStage = .ok flow) :
    c.Ends flow := by
  unfold bodyStage at h
  by_cases hState : c.http.state = .recvBody
  · rw [if_pos hState] at h
    cases hValue : c.http.headers (utf8 "Content-length") with
    | none =>
        rw [hValue] at h
        cases h
        right
        refine ⟨?_, c, _, _, .refl c, rfl⟩
        by_contra hPending
        exact hLength hPending hState hValue
    | some value =>
        rw [hValue] at h
        cases hNumber : stoi value with
        | error f =>
            simp only [hNumber] at h
            cases h
        | ok n =>
            simp only [hNumber, bind, Except.bind] at h
            split_ifs at h
            · cases h
              exact .inl (.refl c)
            · cases h
              exact ⟨rfl, rfl, rfl, rfl⟩
  · rw [if_neg hState] at h
    cases h
    exact .refl c

theorem Ends.andThen
    {c : Conn}
    {flow flow' : Flow}
    {stage : Conn → Except Fault Flow}
    (hFlow : c.Ends flow)
    (hStage :
      ∀ c₁, flow = .go c₁ → c.Untouched c₁ →
        stage c₁ = .ok flow' → c₁.Ends flow')
    (h : flow.andThen stage = .ok flow') :
    c.Ends flow' := by
  cases flow with
  | brk c₁ =>
      cases h
      exact hFlow
  | go c₁ =>
      have hSame : c.Untouched c₁ := hFlow
      have hNext := hStage c₁ rfl hSame h
      cases flow' with
      | go c₂ => exact hSame.trans hNext
      | brk c₂ =>
          rcases hNext with
            hLast | ⟨hEmpty, c₃, errNum, shortMsg, hLast, hReply⟩
          · exact .inl (hSame.trans hLast)
          · exact
              .inr
                ⟨hSame.outBuffer ▸ hEmpty, c₃, errNum,
                  shortMsg, hSame.trans hLast, hReply⟩

theorem ends_atHeaders
    {c : Conn}
    {fs : FileSystem}
    {flow : Flow}
    (hPos : c.http.nowReadPos = 0)
    (hAppends : c.http.outBuffer ≠ [] → c.Appends fs)
    (h : c.atHeaders = .ok flow) :
    c.Ends flow := by
  have hRead :=
    ends_readStage fun hPending => (hAppends hPending).reads
  apply hRead.andThen ?_ h
  intro c₁ hFlow hSame hCall
  have hOn := c.onward_readStage
  rw [hFlow] at hOn
  have hPos₁ : c₁.http.nowReadPos = 0 :=
    hOn.nowReadPos.trans hPos
  apply ends_uriStage hPos₁ ?_ hCall
  intro hPending line rest
  rw [hSame.outBuffer] at hPending
  exact (hAppends hPending).line c₁ line rest hFlow

theorem ends_atBody
    {c : Conn}
    {fs : FileSystem}
    {flow : Flow}
    (hPos : c.http.nowReadPos = 0)
    (hAppends : c.http.outBuffer ≠ [] → c.Appends fs)
    (h : c.atBody = .ok flow) :
    c.Ends flow := by
  rcases atBody_ok h with ⟨before, hBefore, hStage⟩
  apply
    (ends_atHeaders hPos hAppends hBefore).andThen ?_ hStage
  rintro c₁ rfl hSame hCall
  apply ends_headerStage ?_ hCall
  intro hPending d
  rw [hSame.outBuffer] at hPending
  exact (hAppends hPending).headers c₁ d hBefore

theorem ends_atAnalysis
    {c : Conn}
    {fs : FileSystem}
    {flow : Flow}
    (hPos : c.http.nowReadPos = 0)
    (hAppends : c.http.outBuffer ≠ [] → c.Appends fs)
    (h : c.atAnalysis = .ok flow) :
    c.Ends flow := by
  rcases atAnalysis_ok h with ⟨before, hBefore, hStage⟩
  apply (ends_atBody hPos hAppends hBefore).andThen ?_ hStage
  rintro c₂ rfl hSame hCall
  apply ends_bodyStage ?_ hCall
  intro hPending
  rw [hSame.outBuffer] at hPending
  exact (hAppends hPending).length c₂ hBefore

end Conn

end V3

end WebServer

------------------------------------------------------------
-- The Answer
------------------------------------------------------------

namespace WebServer

namespace V3

open StdString

/- `serveFile` appends the answer, or clears and replies. -/
theorem Conn.serveFile_eq
    (c : Conn)
    (fs : FileSystem)
    (header mime : Bytes) :
    (∃ answer,
      fs.serves c.http.method c.http.fileName header mime =
          some answer ∧
        c.serveFile fs header mime =
          (.success, c.appendOut answer)) ∨
      (fs.serves c.http.method c.http.fileName header mime =
          none ∧
        ∃ out,
          (out = c.http.outBuffer ∨ out = []) ∧
            c.serveFile fs header mime =
              (.error,
                (c.setOut out).handleError 404
                  (utf8 "Not Found!"))) := by
  unfold FileSystem.serves
  cases hStat : fs.stat (cStr c.http.fileName) with
  | none =>
      right
      refine ⟨rfl, c.http.outBuffer, .inl rfl, ?_⟩
      simp only [serveFile, hStat]
      rfl
  | some size =>
      by_cases hHead : c.http.method = .head
      · left
        refine
          ⟨header ++ contentHeader mime size, if_pos hHead,
            ?_⟩
        simp only [serveFile, hStat]
        exact if_pos hHead
      · by_cases hOpen : fs.openRdonly (cStr c.http.fileName)
        · cases hMap :
              fs.mmap (cStr c.http.fileName) size with
          | none =>
              right
              refine ⟨?_, [], .inr rfl, ?_⟩
              · simp only [hHead, if_false, hOpen, if_true,
                  hMap, Option.map_none]
              · simp only [serveFile, hStat, appendOut, hHead,
                  if_false, hOpen, if_true, hMap]
                rfl
          | some bytes =>
              left
              refine
                ⟨header ++ contentHeader mime size ++ bytes,
                  ?_, ?_⟩
              · simp only [hHead, if_false, hOpen, if_true,
                  hMap, Option.map_some]
              · simp only [serveFile, hStat, appendOut, hHead,
                  if_false, hOpen, if_true, hMap,
                  List.append_assoc]
        · right
          refine ⟨?_, [], .inr rfl, ?_⟩
          · simp only [hHead, if_false, hOpen,
              Bool.false_eq_true]
          · simp only [serveFile, hStat, appendOut, hHead,
              if_false, hOpen]
            rfl

namespace HttpData

theorem answer_post
    {d : HttpData}
    (hPost : d.method = .post)
    (fs : FileSystem) :
    d.answer fs = [] :=
  if_pos hPost

theorem answer_hello
    {d : HttpData}
    (hPost : d.method ≠ .post)
    (hName : d.fileName = utf8 "hello")
    (fs : FileSystem) :
    d.answer fs = helloResponse := by
  unfold answer
  rw [if_neg hPost, if_pos hName]

theorem answer_favicon
    {d : HttpData}
    (hPost : d.method ≠ .post)
    (hHello : d.fileName ≠ utf8 "hello")
    (hName : d.fileName = utf8 "favicon.ico")
    (fs : FileSystem) :
    d.answer fs =
      d.statusHeader ++
        contentHeader (utf8 "image/png") favicon.length ++
          favicon := by
  unfold answer
  rw [if_neg hPost, if_neg hHello, if_pos hName]

theorem answer_file
    {d : HttpData}
    (hPost : d.method ≠ .post)
    (hHello : d.fileName ≠ utf8 "hello")
    (hName : d.fileName ≠ utf8 "favicon.ico")
    (fs : FileSystem) :
    d.answer fs =
      (fs.serves d.method d.fileName d.statusHeader
        d.mime).getD [] := by
  unfold answer
  rw [if_neg hPost, if_neg hHello, if_neg hName]

end HttpData

namespace Conn

/- The record of a request, and its answer at the end. -/
theorem answers_append
    {c c' : Conn}
    {fs : FileSystem}
    (hTrace : c'.trace = c.analysed.trace)
    (hSent : c'.socket.sent = c.socket.sent)
    (hOut :
      c'.http.outBuffer =
        c.http.outBuffer ++ c.http.answer fs) :
    c.Answers fs c' := by
  refine ⟨_, hTrace, ?_⟩
  rw [hSent, hOut, ← List.append_assoc]
  simp only [List.flatMap_singleton]
  rfl

/-
  An error reply after the record of a request that is owed
  no answer.
-/
theorem answers_reply
    {c : Conn}
    {fs : FileSystem}
    {errNum : Nat}
    {shortMsg : Bytes}
    (keepAlive : Bool)
    (hEmpty : c.http.outBuffer = [])
    (hAnswer : c.http.answer fs = [])
    (hAccepts : c.AcceptsReply errNum shortMsg) :
    c.Answers fs
      ((c.analysed.answered keepAlive []).handleError
        errNum shortMsg) := by
  have hFirst :
      c.Answers fs (c.analysed.answered keepAlive []) := by
    refine answers_append (by rfl) (by rfl) ?_
    rw [hEmpty, hAnswer]
    rfl
  refine hFirst.trans ⟨[.handleError errNum shortMsg], rfl, ?_⟩
  have hSent :
      ((c.analysed.answered keepAlive []).handleError errNum
          shortMsg).socket.sent =
        c.socket.sent ++ errorReply errNum shortMsg :=
    hAccepts
  rw [hSent, List.flatMap_singleton]
  simp only [response, handleError, answered, analysed,
    List.append_nil]

/-
  `analysisRequest` appends the answer to what waits, or
  replies while nothing waits.
-/
theorem answers_analysisRequest
    {c c' : Conn}
    {fs : FileSystem}
    {flag : AnalysisState}
    (hName :
      c.http.outBuffer ≠ [] → c.http.method ≠ .post →
        c.http.fileName ≠ utf8 "hello")
    (hFile :
      c.http.outBuffer ≠ [] → c.http.method ≠ .post →
        c.http.fileName ≠ utf8 "favicon.ico" →
          fs.serves c.http.method c.http.fileName
            c.http.statusHeader c.http.mime ≠ none)
    (hReplies :
      ∀ errNum shortMsg,
        .handleError errNum shortMsg ∈
            c'.trace.drop c.trace.length →
          c.AcceptsReply errNum shortMsg)
    (h : c.analysisRequest fs = .ok (flag, c')) :
    c.Answers fs c' := by
  by_cases hPost : c.http.method = .post
  · have hCall :
        c.analysisRequest fs = .ok (.error, c.analysed) := by
      simp only [analysisRequest, if_pos hPost]
      rfl
    rw [hCall] at h
    cases h
    refine answers_append (by rfl) (by rfl) ?_
    rw [HttpData.answer_post hPost, List.append_nil]
    rfl
  · rcases fileType_ok c.http with ⟨mime, hMime⟩
    have hSame : c.http.mime = mime := by
      simp only [HttpData.mime, hMime]
    rcases analysisRequest_eq hPost hMime fs with
      ⟨keepAlive, hCall⟩
    rw [hCall] at h
    unfold serveName at h
    split_ifs at h with hHello hFavicon
    · cases h
      refine answers_append (by rfl) (by rfl) ?_
      have hEmpty : c.http.outBuffer = [] := by
        by_contra hPending
        exact hName hPending hPost hHello
      rw [HttpData.answer_hello hPost hHello, hEmpty]
      rfl
    · cases h
      refine answers_append (by rfl) (by rfl) ?_
      rw [HttpData.answer_favicon hPost hHello hFavicon]
      rfl
    · rcases
        serveFile_eq
          (c.analysed.answered keepAlive c.http.outBuffer)
          fs c.http.statusHeader mime with
        ⟨answer, hServes, hServe⟩ |
          ⟨hServes, out, hOut, hServe⟩
      · rw [hServe] at h
        cases h
        refine answers_append (by rfl) (by rfl) ?_
        have hAnswer : c.http.answer fs = answer := by
          rw [HttpData.answer_file hPost hHello hFavicon,
            hSame]
          exact congrArg (Option.getD · []) hServes
        rw [hAnswer]
        rfl
      · rw [hServe] at h
        cases h
        have hEmpty : c.http.outBuffer = [] := by
          by_contra hPending
          apply hFile hPending hPost hFavicon
          rw [hSame]
          exact hServes
        have hNone : out = [] := by
          rcases hOut with hKept | hCleared
          · exact hKept.trans hEmpty
          · exact hCleared
        have hAnswer : c.http.answer fs = [] := by
          rw [HttpData.answer_file hPost hHello hFavicon,
            hSame]
          exact congrArg (Option.getD · []) hServes
        have hAccepts :
            c.AcceptsReply 404 (utf8 "Not Found!") := by
          apply hReplies
          simp [handleError, setOut, answered, analysed]
        rw [hNone]
        exact answers_reply keepAlive hEmpty hAnswer hAccepts

theorem answers_analysisStage
    {c : Conn}
    {fs : FileSystem}
    {flow : Flow}
    (hName :
      c.http.outBuffer ≠ [] → c.http.state = .analysis →
        c.http.method ≠ .post →
          c.http.fileName ≠ utf8 "hello")
    (hFile :
      c.http.outBuffer ≠ [] → c.http.state = .analysis →
        c.http.method ≠ .post →
          c.http.fileName ≠ utf8 "favicon.ico" →
            fs.serves c.http.method c.http.fileName
              c.http.statusHeader c.http.mime ≠ none)
    (hReplies :
      ∀ errNum shortMsg,
        .handleError errNum shortMsg ∈
            flow.conn.trace.drop c.trace.length →
          c.AcceptsReply errNum shortMsg)
    (h : c.analysisStage fs = .ok flow) :
    c.Answers fs flow.conn := by
  unfold analysisStage at h
  by_cases hState : c.http.state = .analysis
  · rw [if_pos hState] at h
    cases hCall : c.analysisRequest fs with
    | error f =>
        rw [hCall] at h
        cases h
    | ok result =>
        rcases result with ⟨flag, c'⟩
        rw [hCall] at h
        have hTrace : flow.conn.trace = c'.trace := by
          cases flag <;> cases h <;> rfl
        rw [hTrace] at hReplies
        have hAnswers :=
          answers_analysisRequest
            (fun hPending => hName hPending hState)
            (fun hPending => hFile hPending hState)
            hReplies hCall
        cases flag <;> cases h <;> exact hAnswers
  · rw [if_neg hState] at h
    cases h
    exact .refl fs c

/- What a pass does before it sends. -/
theorem stages_answers
    {c c' : Conn}
    {fs : FileSystem}
    (hPos : c.http.nowReadPos = 0)
    (hKeeps : c.PassKeeps fs)
    (h : c.stages fs = .ok c') :
    c.Answers fs c' := by
  have hReplies := hKeeps.replies c'
  have hStages := h
  rw [stages_eq] at h
  cases hBefore : c.atAnalysis with
  | error f =>
      rw [hBefore] at h
      cases h
  | ok before =>
      have hEnds := ends_atAnalysis hPos hKeeps.appends hBefore
      simp only [hBefore, Except.bind] at h
      cases before with
      | brk c₃ =>
          cases h
          rcases hEnds with
            hSame | ⟨hEmpty, c₂, errNum, shortMsg, hSame, hReply⟩
          · exact hSame.answers fs
          · have hAccepts : c.AcceptsReply errNum shortMsg := by
              apply hReplies errNum shortMsg hStages
              rw [hReply]
              simp [Flow.conn, failWith, handleError,
                hSame.trace]
            rw [hReply]
            apply (hSame.answers fs).trans
            exact
              answers_failWith
                (hSame.outBuffer.trans hEmpty)
                (hSame.acceptsReply hAccepts) fs
      | go c₃ =>
          have hSame : c.Untouched c₃ := hEnds
          cases hLast : c₃.analysisStage fs with
          | error f =>
              simp only [Flow.andThen, hLast] at h
              cases h
          | ok flow =>
              simp only [Flow.andThen, hLast] at h
              cases h
              apply (hSame.answers fs).trans
              apply answers_analysisStage ?_ ?_ ?_ hLast
              · intro hPending
                rw [hSame.outBuffer] at hPending
                exact (hKeeps.appends hPending).name c₃ hBefore
              · intro hPending
                rw [hSame.outBuffer] at hPending
                exact (hKeeps.appends hPending).file c₃ hBefore
              · intro errNum shortMsg hMem
                rw [hSame.trace] at hMem
                exact
                  hSame.acceptsReply
                    (hReplies errNum shortMsg hStages hMem)

end Conn

end V3

end WebServer

------------------------------------------------------------
-- Sending In Order
------------------------------------------------------------

namespace WebServer

namespace V3

/- Below four gigabytes no such rest can be left. -/
theorem WritenResult.keepsRest_of_small
    (result : WritenResult)
    {sbuff : Bytes}
    (hSmall : sbuff.length < 2 ^ 32) :
    result.KeepsRest sbuff := by
  intro _ hLess hRest
  omega

/- `writen` cuts exactly what it sent off the front. -/
theorem Socket.writenString_in_order
    (socket : Socket)
    {sbuff : Bytes}
    (hRest :
      (writenLoop socket.writes sbuff).KeepsRest sbuff)
    (hFails :
      (writenLoop socket.writes sbuff).failed = true →
        (writenLoop socket.writes sbuff).writeSum = 0) :
    (socket.writenString sbuff).1.sent ++
        (socket.writenString sbuff).2.1 =
      socket.sent ++ sbuff := by
  unfold writenString
  simp only
  split_ifs with hFailed hAll
  · rw [hFails hFailed]
    simp only [List.take_zero, List.append_nil]
  · have hInt :
        toInt32 (sbuff.length : Int) =
          Int.bmod sbuff.length (2 ^ 32) :=
      rfl
    rw [Int.bmod_def] at hInt
    have hLong :
        sbuff.length ≤
          (writenLoop socket.writes sbuff).writeSum := by
      by_contra hLess
      apply hRest (by simpa using hFailed)
        (Nat.lt_of_not_le hLess)
      omega
    rw [List.take_of_length_le hLong, List.append_nil]
  · rw [List.append_assoc, List.take_append_drop]

namespace Conn

/- Bytes move from `outBuffer_` to the client, in order. -/
structure KeepsBytes
    (c c' : Conn) : Prop where
  trace : c'.trace = c.trace
  bytes :
    c'.socket.sent ++ c'.http.outBuffer =
      c.socket.sent ++ c.http.outBuffer

theorem KeepsBytes.refl
    (c : Conn) :
    c.KeepsBytes c :=
  ⟨rfl, rfl⟩

theorem KeepsBytes.trans
    {c₁ c₂ c₃ : Conn}
    (h₁ : c₁.KeepsBytes c₂)
    (h₂ : c₂.KeepsBytes c₃) :
    c₁.KeepsBytes c₃ where
  trace := h₂.trace.trans h₁.trace
  bytes := h₂.bytes.trans h₁.bytes

theorem KeepsBytes.answers
    {c c' : Conn}
    (h : c.KeepsBytes c')
    (fs : FileSystem) :
    c.Answers fs c' := by
  refine ⟨[], ?_, ?_⟩
  · rw [h.trace, List.append_nil]
  · rw [h.bytes, List.flatMap_nil, List.append_nil]

theorem keepsBytes_askToWrite
    (c : Conn) :
    c.KeepsBytes c.askToWrite := by
  unfold askToWrite
  split_ifs
  · exact ⟨rfl, rfl⟩
  · exact .refl c

theorem keepsBytes_handleWrite
    {c : Conn}
    (hSends : c.http.error = false → c.SendsFront) :
    c.KeepsBytes c.handleWrite := by
  unfold handleWrite
  split_ifs with hSend
  · have hError : c.http.error = false := by
      simpa using hSend.1
    have hOrder :=
      c.socket.writenString_in_order (hSends hError).1
        (hSends hError).2
    rcases hWrite :
        c.socket.writenString c.http.outBuffer with
      ⟨socket, outBuffer, failed⟩
    rw [hWrite] at hOrder
    refine KeepsBytes.trans ?_ (keepsBytes_askToWrite _)
    cases failed with
    | false => exact ⟨rfl, hOrder⟩
    | true => exact ⟨rfl, hOrder⟩
  · exact .refl c

theorem keepsBytes_sendPending
    {c : Conn}
    (hSends : c.http.error = false → c.SendsFront) :
    c.KeepsBytes c.sendPending := by
  unfold sendPending
  split_ifs
  · exact keepsBytes_handleWrite hSends
  · exact .refl c

theorem keepsBytes_conclude
    (c : Conn) :
    c.KeepsBytes c.conclude.2 := by
  unfold conclude
  split_ifs
  · exact .refl c
  · rcases c.reset_frame with ⟨timer, timers, hReset⟩
    simp only [hReset]
    exact ⟨rfl, rfl⟩
  · exact ⟨rfl, rfl⟩
  · exact .refl c

/- A pass that meets the condition keeps the order. -/
theorem pass_answers
    {c c' : Conn}
    {fs : FileSystem}
    {again : Bool}
    (hPos : c.http.nowReadPos = 0)
    (hKeeps : c.PassKeeps fs)
    (h : c.pass fs = .ok (again, c')) :
    c.Answers fs c' := by
  rcases exists_stages h with ⟨c₁, hStages, hEnd⟩
  have hSent :=
    keepsBytes_sendPending (hKeeps.sends c₁ hStages)
  have hLast := keepsBytes_conclude c₁.sendPending
  rw [hEnd] at hLast
  exact
    (stages_answers hPos hKeeps hStages).trans
      ((hSent.trans hLast).answers fs)

/- What the passes before a nested call amount to. -/
theorem NestedCall.snoc
    {fs : FileSystem}
    {c c₁ c₂ : Conn}
    (h : NestedCall fs c c₁)
    (hPass : c₁.pass fs = .ok (true, c₂)) :
    NestedCall fs c c₂ := by
  induction h with
  | refl c => exact .next hPass (.refl c₂)
  | next hFirst _ ih => exact .next hFirst (ih hPass)

/- A call all of whose passes meet the condition does, too. -/
theorem handleReadAt_answers
    {fs : FileSystem}
    {depth : Nat}
    {c c' : Conn}
    (hPos : c.http.nowReadPos = 0)
    (hKeeps : ∀ c₁, NestedCall fs c c₁ → c₁.PassKeeps fs)
    (h : handleReadAt fs depth c = .ok c') :
    c.Answers fs c' := by
  apply
    handleReadAt_rule
      (I := fun c₁ =>
        NestedCall fs c c₁ ∧ c₁.http.nowReadPos = 0 ∧
          c.Answers fs c₁)
      (R := fun c₁ => c.Answers fs c₁) ?_ ?_
      ⟨.refl c, hPos, .refl fs c⟩ h
  · rintro c₁ c₂ ⟨hNested, hPos₁, hAnswers⟩ hPass
    exact
      ⟨hNested.snoc hPass,
        (later_pass hPos₁ hPass).nowReadPos hPos₁,
        hAnswers.trans
          (pass_answers hPos₁ (hKeeps c₁ hNested) hPass)⟩
  · rintro c₁ c₂ ⟨hNested, hPos₁, hAnswers⟩ hPass
    exact
      hAnswers.trans
        (pass_answers hPos₁ (hKeeps c₁ hNested) hPass)

end Conn

end V3

end WebServer

------------------------------------------------------------
-- Every Run Of A Connection
------------------------------------------------------------

namespace WebServer

namespace V3

open StdString

namespace Conn

/- What holds between two calls. -/
def OwesInOrder
    (r : Conn × Bytes) : Prop :=
  r.1.http.nowReadPos = 0 ∧ InOrder r

/- A call that meets the condition adds what is due. -/
theorem OwesInOrder.step
    {r r' : Conn × Bytes}
    {e : ReadEvent}
    (h : OwesInOrder r)
    (hKeeps : CallKeeps r.1 e)
    (hStep : owing.step r e = some r') :
    OwesInOrder r' := by
  rcases r with ⟨c, owed⟩
  rcases h with ⟨hPos, hOrder⟩
  rcases Option.map_eq_some_iff.mp hStep with
    ⟨c', hNext, rfl⟩
  cases e with
  | readable fs reads writes =>
      have hCall := readMachine_readable.mp hNext
      have hPos' : (c.wake reads writes).http.nowReadPos = 0 :=
        hPos
      refine
        ⟨(later_handleReadAt hPos' hCall).nowReadPos hPos',
          ?_⟩
      have hBytes :=
        (handleReadAt_answers hPos' hKeeps hCall).bytes
      unfold InOrder at hOrder ⊢
      simp only [due, hCall] at hOrder ⊢
      rw [← hOrder]
      exact hBytes
  | writable writes =>
      cases hNext
      refine ⟨(later_handleWrite _).nowReadPos hPos, ?_⟩
      have hSent :=
        keepsBytes_handleWrite fun _ =>
          (show (c.wake [] writes).SendsFront from hKeeps)
      unfold InOrder at hOrder ⊢
      simp only [due, List.append_nil] at hOrder ⊢
      rw [← hOrder]
      exact hSent.bytes

end Conn

/-
  In every run of a connection whose passes all meet the
  condition, what the client has been sent and what waits in
  `outBuffer_` are the responses in the order of the
  requests, in every state reached.
-/
theorem responses_in_order
    (es : List ReadEvent)
    (hMeet :
      owing.StepsMeet (fun r => CallKeeps r.1)
        (.new ⟨[], [], []⟩, []) es) :
    owing.Always Conn.InOrder (.new ⟨[], [], []⟩, []) es := by
  have hInit :
      Conn.OwesInOrder (.new ⟨[], [], []⟩, []) :=
    ⟨rfl, rfl⟩
  have hAlways :=
    Machine.always_of_stepsMeet
      (fun r e r' h _ hKeeps hStep =>
        Conn.OwesInOrder.step h hKeeps hStep)
      hInit hMeet
  exact hAlways.mono fun r h => h.2

/- A directory with one file. -/
def oneFile
    (name content : Bytes) : FileSystem where
  stat path :=
    if path = name then some content.length else none
  openRdonly path := decide (path = name)
  mmap path size :=
    if path = name ∧ size = content.length then
      some content
    else
      none
  mmap_length := by
    intro path size bytes h
    split_ifs at h with hSame
    cases h
    exact hSame.2.symm

/- A request for that file, sent short. -/
def shortWrite : ReadEvent :=
  .readable (oneFile (utf8 "a") (utf8 "page"))
    [.data (utf8 "GET /a HTTP/1.1\r\nHost: x\r\n\r\n")]
    [.accepted 10, .eagain]

/- No error reply is among the events recorded. -/
def Conn.noReply
    (c : Conn) : Bool :=
  c.trace.all fun e =>
    match e with
    | .handleError _ _ => false
    | _ => true

/- A call of one pass, on a connection with no output. -/
def callTest
    (c : Conn) :
    ReadEvent → Bool
| .readable fs reads writes =>
    decide (c.http.outBuffer = []) &&
      (match (c.wake reads writes).stages fs with
        | .ok c₁ => decide c₁.SendsFront && c₁.noReply
        | .error _ => true) &&
      match (c.wake reads writes).pass fs with
      | .ok (again, _) => !again
      | .error _ => true
| .writable writes => decide (c.wake [] writes).SendsFront

theorem callKeeps_of_test
    {c : Conn}
    {e : ReadEvent}
    (hTest : callTest c e = true) :
    CallKeeps c e := by
  cases e with
  | writable writes =>
      have hSends : (c.wake [] writes).SendsFront :=
        of_decide_eq_true hTest
      exact hSends
  | readable fs reads writes =>
      simp only [callTest, Bool.and_eq_true,
        decide_eq_true_eq] at hTest
      rcases hTest with ⟨⟨hOut, hStages⟩, hLast⟩
      intro c' hNested
      cases hNested with
      | refl =>
          refine ⟨fun hPending => absurd hOut hPending, ?_, ?_⟩
          · intro c₁ hCall _
            rw [hCall] at hStages
            simp only [Bool.and_eq_true, decide_eq_true_eq]
              at hStages
            exact hStages.1
          · intro c₁ errNum shortMsg hCall hMem
            rw [hCall] at hStages
            simp only [Bool.and_eq_true, Conn.noReply,
              List.all_eq_true] at hStages
            have hQuiet :=
              hStages.2 _ (List.mem_of_mem_drop hMem)
            cases hQuiet
      | next hPass _ =>
          rw [hPass] at hLast
          cases hLast

/-
  Two requests, each with a short write, and each rest sent
  when the socket has room.
-/
theorem responses_in_order_short_write :
    owing.Always Conn.InOrder (.new ⟨[], [], []⟩, [])
      [shortWrite, .writable [], shortWrite,
        .writable []] := by
  apply responses_in_order
  exact
    Machine.stepsMeet_of_test (M := owing)
      (fun _ _ hTest => callKeeps_of_test hTest)
      (by decide +kernel)

/-
  A response waits, and the answer to a request for `hello`
  that arrived with it is assigned to `outBuffer_`: the rest
  of the response is lost.
-/
theorem hello_overwrites :
    ¬ owing.Always Conn.InOrder (.new ⟨[], [], []⟩, [])
      [ .readable (oneFile (utf8 "a") (utf8 "page"))
          [ .data
              (utf8
                ("GET /a HTTP/1.1\r\nHost: x\r\n\r\n\r\n" ++
                  "GET /hello HTTP/1.1\r\nHost: x\r\n\r\n")) ]
          [.accepted 10, .eagain] ] := by
  intro hAll
  have hEnd :
      (owing.step (.new ⟨[], [], []⟩, [])
        (.readable (oneFile (utf8 "a") (utf8 "page"))
          [ .data
              (utf8
                ("GET /a HTTP/1.1\r\nHost: x\r\n\r\n\r\n" ++
                  "GET /hello HTTP/1.1\r\nHost: x\r\n\r\n")) ]
          [.accepted 10, .eagain])).map
          (fun r =>
            decide
              (r.1.socket.sent ++ r.1.http.outBuffer = r.2)) =
        some false := by
    decide +kernel
  rcases Option.map_eq_some_iff.mp hEnd with
    ⟨r, hStep, hLost⟩
  exact of_decide_eq_false hLost (hAll.2 rfl r hStep)

end V3

end WebServer
