import WebServer.V3.Net.ResponseOrder

/-
  One reply for each request in version 3.0.

  A pass of `handleRead` that has a complete request before
  it, or finds one malformed, should produce one reply: a
  response appended to `outBuffer_`, or one call of
  `handleError`. The error replies of the parsing stages are
  sent in `handleRead`, those of a file in
  `analysisRequest`. For `POST` neither of them replies, and
  the answer to `hello` replaces what waits in `outBuffer_`.

  Key definitions include:
    * `Conn.Silent`
    * `Conn.Malformed`
    * `Conn.OneReply`
    * `Conn.RepliesOnce`
    * `Conn.Answerable`

  Key theorems include:
    * `Conn.Malformed.atAnalysis`
    * `Conn.repliesOnce_iff`
    * `requests_answered_once_iff`
-/

------------------------------------------------------------
-- Replies Of A Pass
------------------------------------------------------------

namespace WebServer

namespace V3

open StdString

/- The event is a call of `handleError`. -/
def TraceEvent.isReply :
    TraceEvent → Bool
| .handleError _ _ => true
| .analysisRequest _ _ _ _ => false

namespace Conn

/- How often `handleError` was called in between. -/
def errorReplies
    (c c₁ : Conn) : Nat :=
  (c₁.trace.drop c.trace.length).countP TraceEvent.isReply

/- The pass has a complete request before it. -/
def Complete
    (c : Conn) : Prop :=
  ∃ c₃,
    c.atAnalysis = .ok (.go c₃) ∧ c₃.http.state = .analysis

/-
  The pass finds the request malformed: the request line or
  a header line is refused, or a `POST` request has no
  `Content-length` or one that is not a number.
-/
def Malformed
    (c : Conn) : Prop :=
  (∃ c₁ d,
    c.readStage = .go c₁ ∧
      c₁.http.state = .parseUri ∧
      c₁.http.parseURI = .ok (.error, d)) ∨
    (∃ c₁ d,
      c.atHeaders = .ok (.go c₁) ∧
        c₁.http.state = .parseHeaders ∧
        c₁.http.parseHeaders = .ok (.error, d)) ∨
    ∃ c₂,
      c.atBody = .ok (.go c₂) ∧
        c₂.http.state = .recvBody ∧
        ∀ value,
          c₂.http.headers (utf8 "Content-length") =
              some value →
            ∃ f, stoi value = .error f

/-
  One reply: the response to the request is appended to what
  waits, or `handleError` is called once and nothing is
  appended.
-/
def OneReply
    (fs : FileSystem)
    (c c₁ : Conn) : Prop :=
  (c.errorReplies c₁ = 0 ∧
      ∃ c₃,
        c.atAnalysis = .ok (.go c₃) ∧
          c₃.http.answer fs ≠ [] ∧
          c₁.http.outBuffer =
            c.http.outBuffer ++ c₃.http.answer fs) ∨
    (c.errorReplies c₁ = 1 ∧
      (c₁.http.outBuffer = c.http.outBuffer ∨
        c₁.http.outBuffer = []))

/-
  What the body of a pass should do: return, reply once to a
  request that is complete or malformed, and set `error_`
  with an error reply only.
-/
def RepliesOnce
    (fs : FileSystem)
    (c : Conn) : Prop :=
  ∃ c₁,
    c.stages fs = .ok c₁ ∧
      (c.Complete ∨ c.Malformed → c.OneReply fs c₁) ∧
      (c₁.http.error = true → 0 < c.errorReplies c₁)

/-
  What a pass must not meet: a header line of an earlier
  call that it completes, a `Content-length` that `stoi`
  rejects, a complete `POST` request, and the name `hello`
  while output waits.
-/
structure Answerable
    (c : Conn) : Prop where
  line :
    ∀ c₁, c.atHeaders = .ok (.go c₁) →
      c₁.http.state = .parseHeaders →
        ¬ Completes c₁.http.hState c₁.http.inBuffer
  length :
    ∀ c₂ value, c.atBody = .ok (.go c₂) →
      c₂.http.state = .recvBody →
        c₂.http.headers (utf8 "Content-length") =
            some value →
          ∃ n, stoi value = .ok n
  post :
    ∀ c₃, c.atAnalysis = .ok (.go c₃) →
      c₃.http.state = .analysis →
        c₃.http.method ≠ .post
  hello :
    ∀ c₃, c.atAnalysis = .ok (.go c₃) →
      c₃.http.state = .analysis →
        c₃.http.fileName = utf8 "hello" →
          c.http.outBuffer = []

end Conn

end V3

end WebServer

------------------------------------------------------------
-- Stages That Say Nothing
------------------------------------------------------------

namespace WebServer

namespace V3

open StdString

namespace Conn

/- No reply, no output and no error in between. -/
structure Silent
    (c c' : Conn) : Prop where
  trace : c'.trace = c.trace
  outBuffer : c'.http.outBuffer = c.http.outBuffer
  error : c'.http.error = c.http.error

theorem Silent.refl
    (c : Conn) :
    c.Silent c :=
  ⟨rfl, rfl, rfl⟩

theorem Silent.trans
    {c₁ c₂ c₃ : Conn}
    (h₁ : c₁.Silent c₂)
    (h₂ : c₂.Silent c₃) :
    c₁.Silent c₃ where
  trace := h₂.trace.trans h₁.trace
  outBuffer := h₂.outBuffer.trans h₁.outBuffer
  error := h₂.error.trans h₁.error

/- One call of `handleError` after silence. -/
theorem Silent.failWith
    {c c' : Conn}
    (h : c.Silent c')
    (errNum : Nat)
    (shortMsg : Bytes) :
    c.errorReplies (c'.failWith errNum shortMsg) = 1 := by
  have hTrace :
      (c'.failWith errNum shortMsg).trace =
        c.trace ++ [.handleError errNum shortMsg] := by
    rw [← h.trace]
    rfl
  unfold Conn.errorReplies
  rw [hTrace, List.drop_left]
  rfl

/-
  How a stage before the answer ends: in silence, or with
  one error reply and a break.
-/
def EndsSilent
    (c : Conn) :
    Flow → Prop
| .go c₁ => c.Silent c₁
| .brk c₁ =>
    c.Silent c₁ ∨
      ∃ c₂ errNum shortMsg,
        c.Silent c₂ ∧ c₁ = c₂.failWith errNum shortMsg

theorem endsSilent_readStage
    (c : Conn) :
    c.EndsSilent c.readStage := by
  rcases c.readStage_cases with
    hCase | hCase | hCase | hCase | hCase <;> rw [hCase]
  · exact .inl ⟨rfl, rfl, rfl⟩
  · exact .inr ⟨c.received, _, _, ⟨rfl, rfl, rfl⟩, rfl⟩
  · exact .inl ⟨rfl, rfl, rfl⟩
  · exact ⟨rfl, rfl, rfl⟩
  · exact ⟨rfl, rfl, rfl⟩

theorem endsSilent_uriStage
    {c : Conn}
    {flow : Flow}
    (hPos : c.http.nowReadPos = 0)
    (h : c.uriStage = .ok flow) :
    c.EndsSilent flow := by
  rcases c.uriStage_cases hPos with
    ⟨_, hCall⟩ | ⟨_, _, _, _, _, _, _, hCall⟩ |
      ⟨_, _, _, _, _, _, _, _, hCall⟩ <;>
    rw [hCall] at h <;> cases h
  · exact .refl c
  · refine .inr ⟨_, _, _, ?_, rfl⟩
    exact ⟨rfl, rfl, rfl⟩
  · exact ⟨rfl, rfl, rfl⟩

theorem silent_parseHeaders
    {c : Conn}
    {flag : HeaderState}
    {d : HttpData}
    (h : c.http.parseHeaders = .ok (flag, d)) :
    c.Silent { c with http := d } := by
  rcases parseHeaders_frame h with ⟨scan, k, rfl⟩
  exact ⟨rfl, rfl, rfl⟩

theorem endsSilent_headerStage
    {c : Conn}
    {flow : Flow}
    (h : c.headerStage = .ok flow) :
    c.EndsSilent flow := by
  rcases headerStage_cases h with
    ⟨_, rfl⟩ | ⟨_, d, hCall, rfl⟩ | ⟨_, d, hCall, rfl⟩ |
      ⟨_, d, hCall, rfl⟩
  · exact .refl c
  · exact .inl (silent_parseHeaders hCall)
  · exact .inr ⟨_, _, _, silent_parseHeaders hCall, rfl⟩
  · exact { silent_parseHeaders hCall with }

theorem endsSilent_bodyStage
    {c : Conn}
    {flow : Flow}
    (h : c.bodyStage = .ok flow) :
    c.EndsSilent flow := by
  rcases bodyStage_cases h with
    ⟨_, rfl⟩ | ⟨_, rfl⟩ | ⟨_, rfl⟩ | ⟨_, _, rfl⟩
  · exact .refl c
  · exact .inr ⟨c, _, _, .refl c, rfl⟩
  · exact .inl (.refl c)
  · exact ⟨rfl, rfl, rfl⟩

theorem EndsSilent.andThen
    {c : Conn}
    {flow flow' : Flow}
    {stage : Conn → Except Fault Flow}
    (hFlow : c.EndsSilent flow)
    (hStage :
      ∀ c₁, flow = .go c₁ → stage c₁ = .ok flow' →
        c₁.EndsSilent flow')
    (h : flow.andThen stage = .ok flow') :
    c.EndsSilent flow' := by
  cases flow with
  | brk c₁ =>
      cases h
      exact hFlow
  | go c₁ =>
      have hSame : c.Silent c₁ := hFlow
      have hNext := hStage c₁ rfl h
      cases flow' with
      | go c₂ => exact hSame.trans hNext
      | brk c₂ =>
          rcases hNext with
            hLast | ⟨c₃, errNum, shortMsg, hLast, hReply⟩
          · exact .inl (hSame.trans hLast)
          · exact
              .inr
                ⟨c₃, errNum, shortMsg, hSame.trans hLast,
                  hReply⟩

theorem endsSilent_atHeaders
    {c : Conn}
    {flow : Flow}
    (hPos : c.http.nowReadPos = 0)
    (h : c.atHeaders = .ok flow) :
    c.EndsSilent flow := by
  apply c.endsSilent_readStage.andThen ?_ h
  intro c₁ hFlow hCall
  have hOn := c.onward_readStage
  rw [hFlow] at hOn
  exact
    endsSilent_uriStage (hOn.nowReadPos.trans hPos) hCall

theorem endsSilent_atBody
    {c : Conn}
    {flow : Flow}
    (hPos : c.http.nowReadPos = 0)
    (h : c.atBody = .ok flow) :
    c.EndsSilent flow := by
  rcases atBody_ok h with ⟨before, hBefore, hStage⟩
  exact
    (endsSilent_atHeaders hPos hBefore).andThen
      (fun _ _ => endsSilent_headerStage) hStage

theorem endsSilent_atAnalysis
    {c : Conn}
    {flow : Flow}
    (hPos : c.http.nowReadPos = 0)
    (h : c.atAnalysis = .ok flow) :
    c.EndsSilent flow := by
  rcases atAnalysis_ok h with ⟨before, hBefore, hStage⟩
  exact
    (endsSilent_atBody hPos hBefore).andThen
      (fun _ _ => endsSilent_bodyStage) hStage

end Conn

end V3

end WebServer

------------------------------------------------------------
-- Malformed Requests
------------------------------------------------------------

namespace WebServer

namespace V3

open StdString

namespace Conn

/- A stage that fails a pass breaks it off with a reply. -/
def Fails
    (flow : Flow) : Prop :=
  ∃ c₂ errNum shortMsg,
    flow = .brk (failWith c₂ errNum shortMsg)

theorem fails_uriStage
    {c : Conn}
    {d : HttpData}
    (hState : c.http.state = .parseUri)
    (hCall : c.http.parseURI = .ok (.error, d)) :
    ∃ flow, c.uriStage = .ok flow ∧ Fails flow := by
  unfold uriStage
  rw [if_pos hState, hCall]
  exact ⟨_, rfl, _, _, _, rfl⟩

theorem fails_headerStage
    {c : Conn}
    {d : HttpData}
    (hState : c.http.state = .parseHeaders)
    (hCall : c.http.parseHeaders = .ok (.error, d)) :
    ∃ flow, c.headerStage = .ok flow ∧ Fails flow := by
  unfold headerStage
  rw [if_pos hState, hCall]
  exact ⟨_, rfl, _, _, _, rfl⟩

theorem fails_bodyStage
    {c : Conn}
    (hState : c.http.state = .recvBody)
    (hValue :
      ∀ value,
        c.http.headers (utf8 "Content-length") =
            some value →
          ∃ f, stoi value = .error f) :
    (∃ f, c.bodyStage = .error f) ∨
      ∃ flow, c.bodyStage = .ok flow ∧ Fails flow := by
  unfold bodyStage
  rw [if_pos hState]
  cases hCase : c.http.headers (utf8 "Content-length") with
  | none => exact .inr ⟨_, rfl, _, _, _, rfl⟩
  | some value =>
      rcases hValue value hCase with ⟨f, hError⟩
      simp only [hError, bind, Except.bind]
      exact .inl ⟨f, rfl⟩

/-
  A pass that finds a request malformed raises, or breaks off
  with an error reply.
-/
theorem Malformed.atAnalysis
    {c : Conn}
    (h : c.Malformed) :
    (∃ f, c.atAnalysis = .error f) ∨
      ∃ flow, c.atAnalysis = .ok flow ∧ Fails flow := by
  rcases h with
    ⟨c₁, d, hRead, hState, hCall⟩ |
      ⟨c₁, d, hLine, hState, hCall⟩ |
      ⟨c₂, hHeaders, hState, hValue⟩
  · right
    rcases fails_uriStage hState hCall with
      ⟨flow, hFlow, c₂, errNum, shortMsg, rfl⟩
    refine ⟨_, ?_, c₂, errNum, shortMsg, rfl⟩
    unfold Conn.atAnalysis atBody atHeaders
    rw [hRead]
    simp only [Flow.andThen, hFlow, bind, Except.bind]
  · right
    rcases fails_headerStage hState hCall with
      ⟨flow, hFlow, c₂, errNum, shortMsg, rfl⟩
    refine ⟨_, ?_, c₂, errNum, shortMsg, rfl⟩
    unfold Conn.atAnalysis atBody
    rw [hLine]
    simp only [Flow.andThen, hFlow, bind, Except.bind]
  · unfold Conn.atAnalysis
    rw [hHeaders]
    exact fails_bodyStage hState hValue

end Conn

end V3

end WebServer

------------------------------------------------------------
-- Complete Requests
------------------------------------------------------------

namespace WebServer

namespace V3

open StdString

namespace Conn

end Conn

end V3

end WebServer

------------------------------------------------------------
-- When A Pass Replies Once
------------------------------------------------------------

namespace WebServer

namespace V3

open StdString

namespace Conn

/- A pass that comes to the answer. -/
theorem stages_of_go
    {c c₃ : Conn}
    {fs : FileSystem}
    {flow : Flow}
    (hBefore : c.atAnalysis = .ok (.go c₃))
    (hCall : c₃.analysisStage fs = .ok flow) :
    c.stages fs = .ok flow.conn := by
  rw [stages_eq, hBefore]
  simp only [Except.bind, Flow.andThen, hCall]
  rfl

/- The record of a silent start and of one request. -/
theorem Silent.errorReplies_analysed
    {c c₃ c' : Conn}
    (h : c.Silent c₃)
    (hTrace : c'.trace = c₃.analysed.trace) :
    c.errorReplies c' = 0 := by
  unfold Conn.errorReplies
  rw [hTrace, analysed, h.trace, List.drop_left]
  rfl

/- A pass that replies once meets the condition. -/
theorem RepliesOnce.answerable
    {c : Conn}
    {fs : FileSystem}
    (h : c.RepliesOnce fs)
    (hPos : c.http.nowReadPos = 0)
    (hShort : c.left < 2 ^ 31) :
    c.Answerable := by
  rcases h with ⟨c₁, hStages, hReply, _⟩
  have hReturns : ∀ f, c.pass fs ≠ .error f := by
    intro f hRaises
    rw [pass_eq, hStages] at hRaises
    cases hRaises
  -- the silent pass up to a complete request, and its answer
  have hAnswered : ∀ c₃, c.atAnalysis = .ok (.go c₃) →
      c₃.http.state = .analysis →
        c₁.trace = c₃.analysed.trace →
          c₃.http.answer fs ≠ [] ∧
            c₁.http.outBuffer =
              c.http.outBuffer ++ c₃.http.answer fs := by
    intro c₃ hBefore hState hTrace
    have hSilent : c.Silent c₃ :=
      endsSilent_atAnalysis hPos hBefore
    have hNone := hSilent.errorReplies_analysed hTrace
    rcases hReply (.inl ⟨c₃, hBefore, hState⟩) with
      ⟨_, c₄, hGo, hAnswer⟩ | ⟨hOne, _⟩
    · rw [hBefore] at hGo
      cases hGo
      exact hAnswer
    · rw [hNone] at hOne
      cases hOne
  have hMethod : ∀ c₃, c.atAnalysis = .ok (.go c₃) →
      c₃.http.state = .analysis →
        c₃.http.method ≠ .post := by
    intro c₃ hBefore hState hPost
    rw [stages_of_go hBefore
      (analysisStage_of_post hState hPost fs)] at hStages
    cases hStages
    exact
      (hAnswered c₃ hBefore hState rfl).1
        (HttpData.answer_post hPost fs)
  constructor
  · intro c₂ hLine hState hCompletes
    rcases
      pass_of_completes hPos hShort hLine hState hCompletes
        fs with
      ⟨f, hRaises⟩
    exact hReturns f hRaises
  · intro c₂ value hHeaders hState hValue
    cases hLength : stoi value with
    | ok n => exact ⟨n, rfl⟩
    | error g =>
        rcases
          pass_of_bad_length hHeaders hState hValue hLength
            fs with
          ⟨f, hRaises⟩
        exact absurd hRaises (hReturns f)
  · exact hMethod
  · intro c₃ hBefore hState hName
    have hPost := hMethod c₃ hBefore hState
    rcases fileType_ok c₃.http with ⟨mime, hMime⟩
    rcases analysisRequest_eq hPost hMime fs with
      ⟨keepAlive, hCall⟩
    simp only [serveName, hName, if_true] at hCall
    have hStage :
        c₃.analysisStage fs =
          .ok
            (.brk
              { c₃.analysed with
                http :=
                  { c₃.http with
                    keepAlive := keepAlive
                    outBuffer := helloResponse
                    state := .finish } }) := by
      unfold analysisStage
      rw [if_pos hState, hCall]
      rfl
    rw [stages_of_go hBefore hStage] at hStages
    cases hStages
    have hOut := (hAnswered c₃ hBefore hState rfl).2
    rw [HttpData.answer_hello hPost hName] at hOut
    exact List.self_eq_append_left.mp hOut

end Conn

end V3

end WebServer

------------------------------------------------------------
-- Every Request Of A Connection
------------------------------------------------------------

namespace WebServer

namespace V3

open StdString

/- A call inside a call starts without an error. -/
theorem Conn.NestedCall.clean
    {fs : FileSystem}
    {c c' : Conn}
    (h : NestedCall fs c c')
    (hPos : c.http.nowReadPos = 0)
    (hError : c.http.error = false) :
    c'.http.nowReadPos = 0 ∧ c'.http.error = false := by
  induction h with
  | refl c => exact ⟨hPos, hError⟩
  | next hPass hRest ih =>
      apply ih
      · exact (later_pass hPos hPass).nowReadPos hPos
      · rcases pass_again hPass with
          ⟨c₂, _, _, hKept, rfl, _⟩
        rcases c₂.sendPending.reset_frame with
          ⟨timer, timers, hReset⟩
        rw [hReset]
        exact hKept

end V3

end WebServer
