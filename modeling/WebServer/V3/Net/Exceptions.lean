import WebServer.Library.Machine
import WebServer.V3.Net.Passes

/-
  How the calls of `handleRead` end in version 3.0.

  A call should end in one of three ways: it waits for more
  data, a response is queued, or an error was answered with
  `error_` set. Nothing above `handleRead` catches an
  exception.

  This file settles when every call of a connection ends so,
  as long as its buffer and the bytes at hand are less than
  2^31: the `int` positions do not wrap then. Three things
  stand in the way: a header line whose bytes arrive in two
  calls, a `Content-length` that `stoi` rejects, and a
  complete `POST` request, which sets `error_` without a
  reply. A `write` that fails sets it too, while a response
  is queued; both readings of such an end are settled.

  Key definitions include:
    * `Conn.EndedWell`
    * `Conn.EndedOrUnsent`
    * `Conn.PassMeets`
    * `CallShort`
    * `CallRule`
    * `readMachine`

  Key theorems include:
    * `CallRule.throughout_iff`
    * `replyRule`
    * `unsentRule`
    * `calls_end_normally_iff`
-/

------------------------------------------------------------
-- Runs Of One Connection
------------------------------------------------------------

namespace WebServer

namespace V3

/-
  What the loop calls a connection for: the results of the
  system calls to come, and the files as they stand.
-/
inductive ReadEvent
| readable
    (fs : FileSystem)
    (reads : List ReadResult)
    (writes : List WriteResult)
| writable (writes : List WriteResult)

/- `Channel::handleEvents` clears the events first. -/
def Conn.wake
    (c : Conn)
    (reads : List ReadResult)
    (writes : List WriteResult) : Conn :=
  { c with
    socket :=
      { c.socket with
        reads := reads
        writes := writes }
    channel := c.channel.setEvents .none }

/-
  The calls of the handlers of one connection. A connection
  with `error_` set is closed before it is called again.
-/
def readMachine : Machine Conn ReadEvent where
  enabled c _ := c.http.error = false
  step c
  | .readable fs reads writes =>
      match (c.wake reads writes).handleRead fs with
      | .ok c' => some c'
      | .error _ => none
  | .writable writes => some (c.wake [] writes).handleWrite

/- A read event goes well where `handleRead` returns. -/
theorem readMachine_readable
    {c c' : Conn}
    {fs : FileSystem}
    {reads : List ReadResult}
    {writes : List WriteResult} :
    readMachine.step c (.readable fs reads writes) =
        some c' ↔
      (c.wake reads writes).handleRead fs = .ok c' := by
  simp only [readMachine]
  cases (c.wake reads writes).handleRead fs with
  | error f =>
      refine iff_of_false ?_ ?_
      · intro hSome
        cases hSome
      · intro hOk
        cases hOk
  | ok c₁ => rw [Option.some.injEq, Except.ok.injEq]

namespace Conn

/- An error was answered on this connection. -/
def Replied
    (c : Conn) : Prop :=
  ∃ errNum shortMsg,
    TraceEvent.handleError errNum shortMsg ∈ c.trace

/- A `POST` request was analysed on this connection. -/
def TookPost
    (c : Conn) : Prop :=
  ∃ fileName version headers,
    TraceEvent.analysisRequest .post fileName version
      headers ∈ c.trace

/-
  The last call ended normally: `error_` is set only with an
  error reply.
-/
def EndedWell
    (c : Conn) : Prop :=
  c.http.error = true → c.Replied

/- A response is queued, and no `POST` request was met. -/
def Unsent
    (c : Conn) : Prop :=
  c.http.outBuffer ≠ [] ∧ ¬ c.TookPost

/- A `write` that fails leaves a response queued. -/
def EndedOrUnsent
    (c : Conn) : Prop :=
  c.http.error = true → c.Replied ∨ c.Unsent

/-
  What a pass must not meet. A header line begun in an
  earlier call is not completed, `stoi` takes the value of
  `Content-length`, and no complete `POST` request arrives.
-/
structure PassMeets
    (c : Conn) : Prop where
  line :
    ∀ c₁, c.atHeaders = .ok (.go c₁) →
      c₁.http.state = .parseHeaders →
        ¬ Completes c₁.http.hState c₁.http.inBuffer
  length :
    ∀ c₂ value, c.atBody = .ok (.go c₂) →
      c₂.http.state = .recvBody →
        c₂.http.headers (utf8 "Content-length") =
            some value →
          ∃ n, StdString.stoi value = .ok n
  post :
    ∀ c₃, c.atAnalysis = .ok (.go c₃) →
      c₃.http.state = .analysis →
        c₃.http.method ≠ .post

/- No `write` of `outBuffer_` fails. -/
def WritesSucceed
    (c : Conn) : Prop :=
  c.http.connectionState ≠ .disconnected →
    (writenLoop c.socket.writes c.http.outBuffer).failed =
      false

/- What a pass has queued it can write. -/
def PassSends
    (c : Conn)
    (fs : FileSystem) : Prop :=
  ∀ c₁, c.stages fs = .ok c₁ →
    c₁.http.error = false → c₁.WritesSucceed

end Conn

/-
  The bytes in the buffer and those at hand are so few that
  every index is an `int`.
-/
def CallShort
    (c : Conn) :
    ReadEvent → Prop
| .readable _ reads writes =>
    (c.wake reads writes).left < 2 ^ 31
| .writable _ => True

/-
  What is asked of every pass of a call, and of a call that
  only writes.
-/
def EveryPass
    (P : FileSystem → Conn → Prop)
    (Q : Conn → Prop)
    (c : Conn) :
    ReadEvent → Prop
| .readable fs reads writes =>
    ∀ c', Conn.NestedCall fs (c.wake reads writes) c' →
      P fs c'
| .writable writes => Q (c.wake [] writes)

/- No pass of a call meets what it must not. -/
abbrev CallMeets : Conn → ReadEvent → Prop :=
  EveryPass (fun _ c => c.PassMeets) fun _ => True

/- And no `write` in it fails. -/
abbrev CallSends : Conn → ReadEvent → Prop :=
  EveryPass (fun fs c => c.PassMeets ∧ c.PassSends fs)
    Conn.WritesSucceed

end V3

end WebServer

------------------------------------------------------------
-- Errors And Replies
------------------------------------------------------------

namespace WebServer

namespace V3

open StdString

namespace Conn

/- No error so far, and nothing that ends in one. -/
def Quiet
    (c : Conn) : Prop :=
  c.http.error = false ∧ ¬ c.Replied ∧ ¬ c.TookPost

/- No error so far, or one that was answered. -/
def Settled
    (c : Conn) : Prop :=
  c.Quiet ∨ (c.http.error = true ∧ c.Replied)

theorem Settled.failWith
    (c : Conn)
    (errNum : Nat)
    (shortMsg : Bytes) :
    (c.failWith errNum shortMsg).Settled :=
  .inr
    ⟨rfl, errNum, shortMsg,
      List.mem_append_right _ List.mem_cons_self⟩

end Conn

/- A stage that goes on met no error. -/
def Flow.Fair :
    Flow → Prop
| .go c => c.Quiet
| .brk c => c.Settled

namespace Conn

theorem Quiet.readStage
    {c : Conn}
    (h : c.Quiet) :
    c.readStage.Fair := by
  rcases c.readStage_cases with
    hCase | hCase | hCase | hCase | hCase <;> rw [hCase]
  · exact .inl h
  · exact .failWith _ _ _
  · exact .inl h
  · exact h
  · exact h

theorem Quiet.uriStage
    {c : Conn}
    {flow : Flow}
    (h : c.Quiet)
    (hPos : c.http.nowReadPos = 0)
    (hCall : c.uriStage = .ok flow) :
    flow.Fair := by
  rcases c.uriStage_cases hPos with
    ⟨_, hCase⟩ | ⟨_, _, _, _, _, _, _, hCase⟩ |
      ⟨_, _, _, _, _, _, _, _, hCase⟩ <;>
    rw [hCase] at hCall <;> cases hCall
  · exact h
  · exact .failWith _ _ _
  · exact h

theorem Quiet.headerStage
    {c : Conn}
    {flow : Flow}
    (h : c.Quiet)
    (hCall : c.headerStage = .ok flow) :
    flow.Fair := by
  have hKept : ∀ {flag d},
      c.http.parseHeaders = .ok (flag, d) →
        d.error = false := by
    intro flag d hParse
    rcases parseHeaders_frame hParse with ⟨scan, k, rfl⟩
    exact h.1
  rcases headerStage_cases hCall with
    ⟨_, rfl⟩ | ⟨_, d, hParse, rfl⟩ | ⟨_, d, _, rfl⟩ |
      ⟨_, d, hParse, rfl⟩
  · exact h
  · exact .inl ⟨hKept hParse, h.2⟩
  · exact .failWith _ _ _
  · have hError := hKept hParse
    exact ⟨hError, h.2⟩

theorem Quiet.bodyStage
    {c : Conn}
    {flow : Flow}
    (h : c.Quiet)
    (hCall : c.bodyStage = .ok flow) :
    flow.Fair := by
  rcases bodyStage_cases hCall with
    ⟨_, rfl⟩ | ⟨_, rfl⟩ | ⟨_, rfl⟩ | ⟨_, _, rfl⟩
  · exact h
  · exact .failWith _ _ _
  · exact .inl h
  · exact h

theorem Quiet.atHeaders
    {c : Conn}
    {flow : Flow}
    (h : c.Quiet)
    (hPos : c.http.nowReadPos = 0)
    (hCall : c.atHeaders = .ok flow) :
    flow.Fair := by
  have hRead := h.readStage
  have hOn := c.onward_readStage
  unfold Conn.atHeaders at hCall
  cases hFlow : c.readStage with
  | brk c₁ =>
      rw [hFlow] at hCall hRead
      cases hCall
      exact hRead
  | go c₁ =>
      rw [hFlow] at hCall hRead hOn
      exact
        Quiet.uriStage hRead (hOn.nowReadPos.trans hPos) hCall

theorem Quiet.atBody
    {c : Conn}
    {flow : Flow}
    (h : c.Quiet)
    (hPos : c.http.nowReadPos = 0)
    (hCall : c.atBody = .ok flow) :
    flow.Fair := by
  cases hBefore : c.atHeaders with
  | error f =>
      rw [Conn.atBody, hBefore] at hCall
      cases hCall
  | ok before =>
      have hFair := h.atHeaders hPos hBefore
      rw [Conn.atBody, hBefore] at hCall
      cases before with
      | brk c₁ =>
          cases hCall
          exact hFair
      | go c₁ => exact Quiet.headerStage hFair hCall

theorem Quiet.atAnalysis
    {c : Conn}
    {flow : Flow}
    (h : c.Quiet)
    (hPos : c.http.nowReadPos = 0)
    (hCall : c.atAnalysis = .ok flow) :
    flow.Fair := by
  cases hBefore : c.atBody with
  | error f =>
      rw [Conn.atAnalysis, hBefore] at hCall
      cases hCall
  | ok before =>
      have hFair := h.atBody hPos hBefore
      rw [Conn.atAnalysis, hBefore] at hCall
      cases before with
      | brk c₂ =>
          cases hCall
          exact hFair
      | go c₂ => exact Quiet.bodyStage hFair hCall

end Conn

end V3

end WebServer

------------------------------------------------------------
-- Passes That Meet The Condition
------------------------------------------------------------

namespace WebServer

namespace V3

open StdString

namespace Conn

/- The string is written unless a `write` fails. -/
theorem writenString_failed
    (socket : Socket)
    (sbuff : Bytes) :
    (socket.writenString sbuff).2.2 =
      (writenLoop socket.writes sbuff).failed := by
  unfold Socket.writenString
  dsimp only
  split_ifs with hFailed
  · exact hFailed.symm
  · exact (Bool.eq_false_of_not_eq_true hFailed).symm
  · exact (Bool.eq_false_of_not_eq_true hFailed).symm

/- `handleWrite` sets `error_` where a `write` fails. -/
theorem handleWrite_error
    {c : Conn}
    (hError : c.http.error = false) :
    c.handleWrite.http.error = false ↔ c.WritesSucceed := by
  unfold WritesSucceed handleWrite
  by_cases hGone : c.http.connectionState = .disconnected
  · rw [if_neg fun hSend => hSend.2 hGone]
    exact iff_of_true hError fun hNot => absurd hGone hNot
  · rw [if_pos ⟨by rw [hError]; rfl, hGone⟩,
      ← writenString_failed]
    rcases c.socket.writenString c.http.outBuffer with
      ⟨socket, outBuffer, failed⟩
    cases failed with
    | false =>
        show (askToWrite _).http.error = false ↔ _
        rw [askToWrite_http]
        exact iff_of_true hError fun _ => rfl
    | true =>
        show (askToWrite _).http.error = false ↔ _
        rw [askToWrite_http]
        refine iff_of_false Bool.noConfusion ?_
        intro hSucceed
        cases hSucceed hGone

/- Writing keeps what was answered. -/
theorem handleWrite_trace
    (c : Conn) :
    c.handleWrite.trace = c.trace := by
  rcases c.handleWrite_cases with
    ⟨_, h⟩ | ⟨_, _, _, _, h⟩ | ⟨_, _, _, _, h⟩ <;> rw [h]
  · exact askToWrite_trace _
  · exact askToWrite_trace _

theorem Settled.handleWrite
    {c : Conn}
    (h : c.Settled)
    (hSends : c.http.error = false → c.WritesSucceed) :
    c.handleWrite.Settled := by
  unfold Settled Quiet Replied TookPost
  rw [c.handleWrite_trace]
  rcases h with hQuiet | ⟨hTrue, hReplied⟩
  · left
    exact
      ⟨(handleWrite_error hQuiet.1).mpr (hSends hQuiet.1),
        hQuiet.2⟩
  · right
    refine ⟨?_, hReplied⟩
    rcases c.handleWrite_cases with
      ⟨_, hCase⟩ | ⟨hFalse, _⟩ | ⟨hFalse, _⟩
    · rw [hCase]
      exact hTrue
    · rw [hFalse] at hTrue
      cases hTrue
    · rw [hFalse] at hTrue
      cases hTrue

/- A `write` that fails leaves the response queued. -/
theorem Quiet.handleWrite
    {c : Conn}
    (h : c.Quiet)
    (hFails : ¬ c.WritesSucceed) :
    c.handleWrite.http.error = true ∧
      ¬ c.handleWrite.Replied ∧ c.handleWrite.Unsent := by
  rw [← handleWrite_error h.1, Bool.not_eq_false] at hFails
  unfold Unsent Replied TookPost
  rw [c.handleWrite_trace]
  refine ⟨hFails, h.2.1, ?_, h.2.2⟩
  rcases c.handleWrite_cases with
    ⟨_, hCase⟩ | ⟨hFalse, _, _, _, hCase⟩ |
      ⟨_, hOut, _, _, hCase⟩
  · rw [hCase, h.1] at hFails
    cases hFails
  · rw [hCase, askToWrite_http] at hFails
    cases hFails.symm.trans hFalse
  · rw [hCase, askToWrite_http]
    exact hOut

/- An error that ends a call with `W`, or none. -/
def Ended
    (W : Conn → Prop)
    (c : Conn) : Prop :=
  c.Quiet ∨ (c.http.error = true ∧ W c)

variable {W : Conn → Prop}

theorem Settled.ended
    {c : Conn}
    (h : c.Settled)
    (hReplied : c.Replied → W c) :
    c.Ended W :=
  h.imp_right fun hBoth => ⟨hBoth.1, hReplied hBoth.2⟩

theorem Ended.of_error
    {c : Conn}
    (h : c.Ended W)
    (hError : c.http.error = true) :
    W c := by
  rcases h with hQuiet | ⟨_, hWell⟩
  · rw [hQuiet.1] at hError
    cases hError
  · exact hWell

/- The request line never raises. -/
theorem atHeaders_ok
    {c : Conn}
    (hPos : c.http.nowReadPos = 0) :
    ∃ flow, c.atHeaders = .ok flow := by
  have hOn := c.onward_readStage
  unfold atHeaders
  cases hFlow : c.readStage with
  | brk c₁ => exact ⟨_, rfl⟩
  | go c₁ =>
      rw [hFlow] at hOn
      rcases c₁.uriStage_cases
          (hOn.nowReadPos.trans hPos) with
        ⟨_, hCall⟩ | ⟨_, _, _, _, _, _, _, hCall⟩ |
          ⟨_, _, _, _, _, _, _, _, hCall⟩
      · exact ⟨_, hCall⟩
      · exact ⟨_, hCall⟩
      · exact ⟨_, hCall⟩

/- A stage that a short pass comes to has a short buffer. -/
theorem short_of_atHeaders
    {c c₁ : Conn}
    (hShort : c.left < 2 ^ 31)
    (hPos : c.http.nowReadPos = 0)
    (hLine : c.atHeaders = .ok (.go c₁)) :
    c₁.http.inBuffer.length < 2 ^ 31 := by
  have hOn : c.Onward c₁ := onward_atHeaders hPos hLine
  have hLeft := hOn.left
  unfold left at hLeft hShort
  omega

/-
  The header lines raise exactly when they complete a line
  that an earlier call began.
-/
theorem headerStage_raises_iff
    {c : Conn}
    (hShort : c.http.inBuffer.length < 2 ^ 31) :
    (∃ f, c.headerStage = .error f) ↔
      c.http.state = .parseHeaders ∧
        Completes c.http.hState c.http.inBuffer := by
  have hExact := HttpData.parseHeaders_eq hShort
  constructor
  · intro hRaises
    rcases hRaises with ⟨f, hRaises⟩
    unfold headerStage at hRaises
    by_cases hState : c.http.state = .parseHeaders
    · refine ⟨hState, ?_⟩
      rw [if_pos hState, hExact] at hRaises
      cases hLine : c.http.hState.inLine with
      | false =>
          rcases c.http.parseHeadersBy_of_not_inLine hLine with
            ⟨⟨flag, d⟩, hCall⟩
          rw [hCall] at hRaises
          cases flag <;> cases hRaises
      | true =>
          rw [← c.http.parseHeadersBy_raises_iff hLine]
          rcases c.http.parseHeadersBy_of_inLine hLine with
            hCall | ⟨d, hCall⟩ | ⟨scan, _, hCall⟩
          · exact hCall
          · rw [hCall] at hRaises
            cases hRaises
          · rw [hCall] at hRaises
            cases hRaises
    · rw [if_neg hState] at hRaises
      cases hRaises
  · intro hLine
    have hCall :=
      (c.http.parseHeadersBy_raises_iff hLine.2.inLine).mpr
        hLine.2
    refine ⟨.badRange, ?_⟩
    unfold headerStage
    rw [if_pos hLine.1, hExact, hCall]
    rfl

/- The body raises exactly when `stoi` does. -/
theorem bodyStage_raises_iff
    (c : Conn) :
    (∃ f, c.bodyStage = .error f) ↔
      c.http.state = .recvBody ∧
        ∃ value f,
          c.http.headers (utf8 "Content-length") =
              some value ∧
            stoi value = .error f := by
  unfold bodyStage
  by_cases hState : c.http.state = .recvBody
  · rw [if_pos hState]
    cases hValue : c.http.headers (utf8 "Content-length") with
    | none => simp [hState]
    | some value =>
        cases hLength : stoi value with
        | error f =>
            simp only [hLength, bind, Except.bind]
            exact
              ⟨fun _ => ⟨hState, value, f, rfl, hLength⟩,
                fun _ => ⟨f, rfl⟩⟩
        | ok n =>
            simp only [hLength, bind, Except.bind]
            constructor
            · intro hRaises
              rcases hRaises with ⟨f, hRaises⟩
              split_ifs at hRaises
            · intro hBad
              rcases hBad with ⟨_, v, f, hSome, hError⟩
              cases hSome
              rw [hLength] at hError
              cases hError
  · rw [if_neg hState]
    simp [hState]

theorem PassMeets.atBody_ok
    {c : Conn}
    (hMeets : c.PassMeets)
    (hPos : c.http.nowReadPos = 0)
    (hShort : c.left < 2 ^ 31) :
    ∃ flow, c.atBody = .ok flow := by
  rcases atHeaders_ok hPos with ⟨before, hBefore⟩
  unfold Conn.atBody
  rw [hBefore]
  cases before with
  | brk c₁ => exact ⟨_, rfl⟩
  | go c₁ =>
      cases hCall : c₁.headerStage with
      | ok flow => exact ⟨flow, hCall⟩
      | error f =>
          have hFew := short_of_atHeaders hShort hPos hBefore
          rcases (headerStage_raises_iff hFew).mp
              ⟨f, hCall⟩ with
            ⟨hState, hCompletes⟩
          exact
            absurd hCompletes (hMeets.line c₁ hBefore hState)

theorem PassMeets.atAnalysis_ok
    {c : Conn}
    (hMeets : c.PassMeets)
    (hPos : c.http.nowReadPos = 0)
    (hShort : c.left < 2 ^ 31) :
    ∃ flow, c.atAnalysis = .ok flow := by
  rcases hMeets.atBody_ok hPos hShort with ⟨before, hBefore⟩
  unfold Conn.atAnalysis
  rw [hBefore]
  cases before with
  | brk c₂ => exact ⟨_, rfl⟩
  | go c₂ =>
      cases hCall : c₂.bodyStage with
      | ok flow => exact ⟨flow, hCall⟩
      | error f =>
          rcases c₂.bodyStage_raises_iff.mp ⟨f, hCall⟩ with
            ⟨hState, value, g, hValue, hError⟩
          rcases hMeets.length c₂ value hBefore hState
              hValue with
            ⟨n, hLength⟩
          rw [hError] at hLength
          cases hLength

/- Analysing a request that is not `POST` is no error. -/
theorem Quiet.analysed
    {c : Conn}
    (h : c.Quiet)
    (hPost : c.http.method ≠ .post) :
    ¬ c.analysed.Replied ∧ ¬ c.analysed.TookPost := by
  constructor
  · rintro ⟨errNum, shortMsg, hMem⟩
    rcases List.mem_append.mp hMem with hMem | hMem
    · exact h.2.1 ⟨errNum, shortMsg, hMem⟩
    · cases List.mem_singleton.mp hMem
  · rintro ⟨fileName, version, headers, hMem⟩
    rcases List.mem_append.mp hMem with hMem | hMem
    · exact h.2.2 ⟨fileName, version, headers, hMem⟩
    · have hEq := List.mem_singleton.mp hMem
      rw [TraceEvent.analysisRequest.injEq] at hEq
      exact hPost hEq.1.symm

/- Analysing ends normally, but for an unanswered `POST`. -/
theorem Quiet.analysisStage
    {c : Conn}
    {fs : FileSystem}
    {flow : Flow}
    (h : c.Quiet)
    (hPost :
      c.http.state = .analysis → c.http.method ≠ .post)
    (hCall : c.analysisStage fs = .ok flow) :
    flow.conn.Settled := by
  rcases analysisStage_cases hCall with
    ⟨_, rfl⟩ | ⟨hState, hMethod, rfl⟩ |
      ⟨hState, _, _, _, rfl⟩ | ⟨_, _, keepAlive, out, rfl⟩
  · exact .inl h
  · exact absurd hMethod (hPost hState)
  · exact .inl ⟨h.1, h.analysed (hPost hState)⟩
  · exact .failWith _ _ _

theorem PassMeets.stages_ok
    {c : Conn}
    (hMeets : c.PassMeets)
    (hQuiet : c.Quiet)
    (hPos : c.http.nowReadPos = 0)
    (hShort : c.left < 2 ^ 31)
    (fs : FileSystem) :
    ∃ c', c.stages fs = .ok c' ∧ c'.Settled := by
  rcases hMeets.atAnalysis_ok hPos hShort with
    ⟨before, hBefore⟩
  have hFair := hQuiet.atAnalysis hPos hBefore
  rw [stages_eq, hBefore]
  cases before with
  | brk c₃ => exact ⟨c₃, rfl, hFair⟩
  | go c₃ =>
      rcases c₃.analysisStage_ok fs with ⟨flow, hCall⟩
      refine ⟨flow.conn, ?_, ?_⟩
      · simp only [Except.bind, Flow.andThen, hCall]
        rfl
      · exact
          Quiet.analysisStage hFair (hMeets.post c₃ hBefore)
            hCall

/- The last part of a pass keeps what the stages left. -/
theorem Settled.sendPending
    {c : Conn}
    (h : c.Settled)
    (hSends : c.http.error = false → c.WritesSucceed) :
    c.sendPending.Settled := by
  unfold Conn.sendPending
  split_ifs
  · exact h.handleWrite hSends
  · exact h

theorem Settled.conclude
    {c : Conn}
    (h : c.Settled) :
    c.conclude.2.Settled := by
  unfold Conn.conclude
  split_ifs
  · exact h
  · rcases c.reset_frame with ⟨timer, timers, hReset⟩
    rw [hReset]
    exact h
  · exact h
  · exact h

/- A call is made again only where there is no error. -/
theorem conclude_again_quiet
    {c : Conn}
    (h : c.Settled)
    (hAgain : c.conclude.1 = true) :
    c.conclude.2.Quiet := by
  have hConclude : c.conclude = (true, c.conclude.2) := by
    rw [← hAgain]
  rcases conclude_again hConclude with
    ⟨hError, _, hReset, _⟩
  rcases c.reset_frame with ⟨timer, timers, hFrame⟩
  rcases h.conclude with hQuiet | ⟨hTrue, _⟩
  · exact hQuiet
  · rw [hReset, hFrame] at hTrue
    rw [hError] at hTrue
    cases hTrue

/- A failed `write` ends the call. -/
theorem conclude_of_error
    {c : Conn}
    (hError : c.http.error = true) :
    c.conclude = (false, c) := by
  unfold conclude
  rw [if_pos hError]

/-
  A pass that meets the condition returns. If what it has
  queued is written, it goes on without error or has
  answered one.
-/
theorem pass_of_meets
    {c : Conn}
    {fs : FileSystem}
    (hMeets : c.PassMeets)
    (hSends : c.PassSends fs)
    (hQuiet : c.Quiet)
    (hPos : c.http.nowReadPos = 0)
    (hShort : c.left < 2 ^ 31) :
    ∃ again c',
      c.pass fs = .ok (again, c') ∧
        c'.Settled ∧ (again = true → c'.Quiet) := by
  rcases hMeets.stages_ok hQuiet hPos hShort fs with
    ⟨c₁, hStages, hSettled⟩
  have hLast := hSettled.sendPending (hSends c₁ hStages)
  refine
    ⟨c₁.sendPending.conclude.1, c₁.sendPending.conclude.2,
      ?_, hLast.conclude, conclude_again_quiet hLast⟩
  rw [pass_eq, hStages]
  rfl

/- If it is not, the pass ends with the response queued. -/
theorem pass_of_not_sends
    {c : Conn}
    {fs : FileSystem}
    (hMeets : c.PassMeets)
    (hFails : ¬ c.PassSends fs)
    (hQuiet : c.Quiet)
    (hPos : c.http.nowReadPos = 0)
    (hShort : c.left < 2 ^ 31) :
    ∃ c',
      c.pass fs = .ok (false, c') ∧
        c'.http.error = true ∧ ¬ c'.Replied ∧ c'.Unsent := by
  rcases hMeets.stages_ok hQuiet hPos hShort fs with
    ⟨c₁, hStages, hSettled⟩
  unfold PassSends at hFails
  push Not at hFails
  rcases hFails with ⟨c₂, hSame, hError, hFailed⟩
  rw [hStages] at hSame
  cases hSame
  have hStill : c₁.Quiet := by
    rcases hSettled with hStill | ⟨hTrue, _⟩
    · exact hStill
    · rw [hError] at hTrue
      cases hTrue
  have hOut : c₁.http.outBuffer ≠ [] := by
    intro hNil
    apply hFailed
    intro _
    rw [hNil]
    exact writenLoop_nil _
  have hSend : c₁.sendPending = c₁.handleWrite := by
    unfold sendPending
    rw [if_pos ⟨by simp [hError], hOut⟩]
  have hLast := hStill.handleWrite hFailed
  refine ⟨c₁.handleWrite, ?_, hLast⟩
  rw [pass_eq, hStages]
  show Except.ok c₁.sendPending.conclude = _
  rw [hSend, conclude_of_error hLast.1]

end Conn

end V3

end WebServer

------------------------------------------------------------
-- Passes That Do Not
------------------------------------------------------------

namespace WebServer

namespace V3

open StdString

namespace Conn

/- A stage that raises ends the pass. -/
theorem pass_of_atAnalysis_fault
    {c : Conn}
    {f : Fault}
    (h : c.atAnalysis = .error f)
    (fs : FileSystem) :
    c.pass fs = .error f := by
  rw [pass_eq, stages_eq, h]
  rfl

theorem pass_of_completes
    {c c₁ : Conn}
    (hPos : c.http.nowReadPos = 0)
    (hShort : c.left < 2 ^ 31)
    (hLine : c.atHeaders = .ok (.go c₁))
    (hState : c₁.http.state = .parseHeaders)
    (hCompletes :
      Completes c₁.http.hState c₁.http.inBuffer)
    (fs : FileSystem) :
    ∃ f, c.pass fs = .error f := by
  have hFew := short_of_atHeaders hShort hPos hLine
  rcases (headerStage_raises_iff hFew).mpr
      ⟨hState, hCompletes⟩ with
    ⟨f, hCall⟩
  refine ⟨f, pass_of_atAnalysis_fault ?_ fs⟩
  unfold atAnalysis atBody
  rw [hLine]
  simp only [bind, Except.bind, Flow.andThen, hCall]

theorem pass_of_bad_length
    {c c₂ : Conn}
    {value : Bytes}
    {f : Fault}
    (hHeaders : c.atBody = .ok (.go c₂))
    (hState : c₂.http.state = .recvBody)
    (hValue :
      c₂.http.headers (utf8 "Content-length") = some value)
    (hError : stoi value = .error f)
    (fs : FileSystem) :
    ∃ f, c.pass fs = .error f := by
  rcases c₂.bodyStage_raises_iff.mpr
      ⟨hState, value, f, hValue, hError⟩ with
    ⟨f, hCall⟩
  refine ⟨f, pass_of_atAnalysis_fault ?_ fs⟩
  unfold atAnalysis
  rw [hHeaders]
  simp only [bind, Except.bind, Flow.andThen, hCall]

/- A complete `POST` request sets `error_` and says nothing. -/
theorem pass_of_post
    {c c₃ : Conn}
    (hQuiet : c₃.Quiet)
    (hBody : c.atAnalysis = .ok (.go c₃))
    (hState : c₃.http.state = .analysis)
    (hPost : c₃.http.method = .post)
    (fs : FileSystem) :
    ∃ c',
      c.pass fs = .ok (false, c') ∧
        ¬ c'.EndedOrUnsent := by
  have hCall := analysisStage_of_post hState hPost fs
  refine
    ⟨{ c₃.analysed with
        http := { c₃.http with error := true } }, ?_, ?_⟩
  · rw [pass_eq, stages_eq, hBody]
    simp only [Except.bind, Flow.andThen, hCall]
    rfl
  · intro hWell
    rcases hWell rfl with
      ⟨errNum, shortMsg, hMem⟩ | ⟨_, hNone⟩
    · rcases List.mem_append.mp hMem with hMem | hMem
      · exact hQuiet.2.1 ⟨errNum, shortMsg, hMem⟩
      · cases List.mem_singleton.mp hMem
    · apply hNone
      refine
        ⟨c₃.http.fileName, c₃.http.httpVersion,
          c₃.http.headers, List.mem_append_right _ ?_⟩
      rw [hPost]
      exact List.mem_cons_self

/-
  A pass that does not meet the condition raises, or ends
  the call with an error that was not answered.
-/
theorem pass_of_not_meets
    {c : Conn}
    (hNot : ¬ c.PassMeets)
    (hQuiet : c.Quiet)
    (hPos : c.http.nowReadPos = 0)
    (hShort : c.left < 2 ^ 31)
    (fs : FileSystem) :
    (∃ f, c.pass fs = .error f) ∨
      ∃ c',
        c.pass fs = .ok (false, c') ∧
          ¬ c'.EndedOrUnsent := by
  by_contra hNeither
  rw [not_or] at hNeither
  apply hNot
  constructor
  · intro c₁ hLine hState hCompletes
    exact
      hNeither.1
        (pass_of_completes hPos hShort hLine hState
          hCompletes fs)
  · intro c₂ value hHeaders hState hValue
    cases hLength : stoi value with
    | ok n => exact ⟨n, rfl⟩
    | error f =>
        exact
          absurd
            (pass_of_bad_length hHeaders hState hValue
              hLength fs)
            hNeither.1
  · intro c₃ hBody hState hPost
    have hFair := hQuiet.atAnalysis hPos hBody
    exact
      hNeither.2 (pass_of_post hFair hBody hState hPost fs)

end Conn

end V3

end WebServer

------------------------------------------------------------
-- Calls
------------------------------------------------------------

namespace WebServer

namespace V3

open StdString

/-
  What passes, and calls that only write, must meet so that
  an error in a call ends it with `W`, and that no other
  error may come.
-/
structure CallRule
    (W : Conn → Prop)
    (P : FileSystem → Conn → Prop)
    (Q : Conn → Prop) : Prop where
  pass :
    ∀ fs c, c.Quiet → c.http.nowReadPos = 0 →
      c.left < 2 ^ 31 → P fs c →
        ∃ again c',
          c.pass fs = .ok (again, c') ∧
            c'.Ended W ∧ (again = true → c'.Quiet)
  passNot :
    ∀ fs c, c.Quiet → c.http.nowReadPos = 0 →
      c.left < 2 ^ 31 → ¬ P fs c →
        (∃ f, c.pass fs = .error f) ∨
          ∃ c',
            c.pass fs = .ok (false, c') ∧
              c'.http.error = true ∧ ¬ W c'
  write :
    ∀ c, c.Quiet → Q c → c.handleWrite.Ended W
  writeNot :
    ∀ c, c.Quiet → ¬ Q c →
      c.handleWrite.http.error = true ∧ ¬ W c.handleWrite

namespace CallRule

variable {W : Conn → Prop}
variable {P : FileSystem → Conn → Prop}
variable {Q : Conn → Prop}

/- A call all of whose passes meet the rule returns. -/
theorem handleReadAt
    (rule : CallRule W P Q)
    {fs : FileSystem}
    {depth : Nat}
    {c : Conn}
    (hMeets : ∀ c', Conn.NestedCall fs c c' → P fs c')
    (hQuiet : c.Quiet)
    (hPos : c.http.nowReadPos = 0)
    (hShort : c.left < 2 ^ 31)
    (hDeep :
      Conn.handleReadAt fs depth c ≠ .error .tooDeep) :
    ∃ c',
      Conn.handleReadAt fs depth c = .ok c' ∧
        c'.Ended W ∧ c'.http.nowReadPos = 0 := by
  induction depth generalizing c with
  | zero => exact absurd rfl hDeep
  | succ depth ih =>
      rcases rule.pass fs c hQuiet hPos hShort
          (hMeets c (.refl c)) with
        ⟨again, c₁, hPass, hEnded, hAgain⟩
      have hLater := Conn.later_pass hPos hPass
      have hPos' := hLater.nowReadPos hPos
      simp only [Conn.handleReadAt, hPass] at hDeep ⊢
      cases again with
      | false => exact ⟨c₁, rfl, hEnded, hPos'⟩
      | true =>
          exact
            ih (fun c' hNested =>
                hMeets c' (.next hPass hNested))
              (hAgain rfl) hPos'
              (Nat.lt_of_le_of_lt hLater.left hShort) hDeep

/- A pass that does not meet the rule ends its call badly. -/
theorem handleReadAt_not
    (rule : CallRule W P Q)
    {fs : FileSystem}
    {c c' : Conn}
    (hNested : Conn.NestedCall fs c c')
    (hNot : ¬ P fs c')
    (hQuiet : c.Quiet)
    (hPos : c.http.nowReadPos = 0)
    (hShort : c.left < 2 ^ 31)
    {depth : Nat}
    {c'' : Conn}
    (hCall : Conn.handleReadAt fs depth c = .ok c'') :
    c''.http.error = true ∧ ¬ W c'' := by
  induction hNested generalizing depth with
  | refl c =>
      cases depth with
      | zero => cases hCall
      | succ depth =>
          rcases rule.passNot fs c hQuiet hPos hShort hNot
            with ⟨f, hPass⟩ | ⟨c₁, hPass, hBad⟩
          · simp only [Conn.handleReadAt, hPass] at hCall
            cases hCall
          · simp only [Conn.handleReadAt, hPass] at hCall
            cases hCall
            exact hBad
  | next hPass hRest ih =>
      rename_i c c₁ c₂
      cases depth with
      | zero => cases hCall
      | succ depth =>
          simp only [Conn.handleReadAt, hPass] at hCall
          by_cases hMeets : P fs c
          · rcases rule.pass fs c hQuiet hPos hShort hMeets
              with ⟨again, c₃, hSame, _, hAgain⟩
            rw [hPass] at hSame
            cases hSame
            have hLater := Conn.later_pass hPos hPass
            exact
              ih hNot (hAgain rfl) (hLater.nowReadPos hPos)
                (Nat.lt_of_le_of_lt hLater.left hShort) hCall
          · rcases rule.passNot fs c hQuiet hPos hShort
                hMeets with
              ⟨f, hSame⟩ | ⟨c₃, hSame, _⟩
            · rw [hPass] at hSame
              cases hSame
            · rw [hPass] at hSame
              cases hSame

end CallRule

namespace Conn

/- What holds between the calls of a connection. -/
def Handled
    (W : Conn → Prop)
    (c : Conn) : Prop :=
  c.http.nowReadPos = 0 ∧ c.Ended W

theorem handled_new
    (W : Conn → Prop)
    (socket : Socket) :
    (new socket).Handled W := by
  refine ⟨rfl, .inl ⟨rfl, ?_, ?_⟩⟩
  · rintro ⟨errNum, shortMsg, hMem⟩
    cases hMem
  · rintro ⟨fileName, version, headers, hMem⟩
    cases hMem

theorem Handled.wake
    {W : Conn → Prop}
    {c : Conn}
    (h : c.Handled W)
    (hError : c.http.error = false)
    (reads : List ReadResult)
    (writes : List WriteResult) :
    (c.wake reads writes).http.nowReadPos = 0 ∧
      (c.wake reads writes).Quiet := by
  refine ⟨h.1, ?_⟩
  rcases h.2 with hQuiet | ⟨hTrue, _⟩
  · exact hQuiet
  · rw [hError] at hTrue
    cases hTrue

end Conn

namespace CallRule

variable {W : Conn → Prop}
variable {P : FileSystem → Conn → Prop}
variable {Q : Conn → Prop}

/- A call that meets the rule returns. -/
theorem step
    (rule : CallRule W P Q)
    {c : Conn}
    {e : ReadEvent}
    (h : c.Handled W)
    (hError : c.http.error = false)
    (hShort : CallShort c e)
    (hMeets : EveryPass P Q c e) :
    ∃ c', readMachine.step c e = some c' ∧ c'.Handled W := by
  cases e with
  | readable fs reads writes =>
      have hWake := h.wake hError reads writes
      rcases
        rule.handleReadAt hMeets hWake.2 hWake.1 hShort
          (Conn.handleRead_not_tooDeep fs hWake.1) with
        ⟨c', hCall, hEnded, hPos⟩
      refine ⟨c', ?_, hPos, hEnded⟩
      simp only [readMachine, Conn.handleRead, hCall]
  | writable writes =>
      have hWake := h.wake hError [] writes
      refine ⟨_, rfl, ?_, rule.write _ hWake.2 hMeets⟩
      exact (Conn.later_handleWrite _).nowReadPos hWake.1

/- A call that does not ends badly. -/
theorem step_not
    (rule : CallRule W P Q)
    {c : Conn}
    {e : ReadEvent}
    (h : c.Handled W)
    (hError : c.http.error = false)
    (hShort : CallShort c e)
    (hNot : ¬ EveryPass P Q c e)
    {c' : Conn}
    (hStep : readMachine.step c e = some c') :
    c'.http.error = true ∧ ¬ W c' := by
  cases e with
  | readable fs reads writes =>
      have hWake := h.wake hError reads writes
      unfold EveryPass at hNot
      push Not at hNot
      rcases hNot with ⟨c₁, hNested, hBad⟩
      exact
        rule.handleReadAt_not hNested hBad hWake.2 hWake.1
          hShort (readMachine_readable.mp hStep)
  | writable writes =>
      cases hStep
      exact rule.writeNot _ (h.wake hError [] writes).2 hNot

/- All calls of a connection end well under the rule. -/
theorem throughout_iff
    (rule : CallRule W P Q)
    {socket : Socket}
    {es : List ReadEvent}
    (hShort :
      readMachine.StepsMeet CallShort (.new socket) es) :
    readMachine.Throughout
        (fun c => c.http.error = true → W c)
        (.new socket) es ↔
      readMachine.StepsMeet (EveryPass P Q) (.new socket)
        es := by
  apply
    Machine.throughout_iff_stepsMeet_of
      (I := Conn.Handled W) (A := CallShort)
  · intro c h hError
    exact h.2.of_error hError
  · intro c e h hEnabled hFew hMeets
    exact rule.step h hEnabled hFew hMeets
  · intro c e h hEnabled hFew hNot c' hStep hWell
    have hBad := rule.step_not h hEnabled hFew hNot hStep
    exact hBad.2 (hWell hBad.1)
  · exact Conn.handled_new W socket
  · exact hShort

end CallRule

/- An error reply, where no `write` fails. -/
theorem replyRule :
    CallRule Conn.Replied
      (fun fs c => c.PassMeets ∧ c.PassSends fs)
      Conn.WritesSucceed where
  pass fs c hQuiet hPos hShort hMeets := by
    rcases Conn.pass_of_meets hMeets.1 hMeets.2 hQuiet hPos
        hShort with
      ⟨again, c', hPass, hSettled, hAgain⟩
    exact
      ⟨again, c', hPass, hSettled.ended id, hAgain⟩
  passNot fs c hQuiet hPos hShort hNot := by
    by_cases hMeets : c.PassMeets
    · rcases
        Conn.pass_of_not_sends hMeets
          (fun hSends => hNot ⟨hMeets, hSends⟩) hQuiet hPos
          hShort with
        ⟨c', hPass, hError, hNone, _⟩
      exact .inr ⟨c', hPass, hError, hNone⟩
    · rcases Conn.pass_of_not_meets hMeets hQuiet hPos hShort
          fs with
        hRaises | ⟨c', hPass, hBad⟩
      · exact .inl hRaises
      · unfold Conn.EndedOrUnsent at hBad
        push Not at hBad
        exact .inr ⟨c', hPass, hBad.1, hBad.2.1⟩
  write c hQuiet hSends :=
    (Conn.Settled.handleWrite (.inl hQuiet)
      fun _ => hSends).ended id
  writeNot c hQuiet hFails :=
    have hLast := hQuiet.handleWrite hFails
    ⟨hLast.1, hLast.2.1⟩

/- An error reply, or a response that stays queued. -/
theorem unsentRule :
    CallRule (fun c => c.Replied ∨ c.Unsent)
      (fun _ c => c.PassMeets) fun _ => True where
  pass fs c hQuiet hPos hShort hMeets := by
    by_cases hSends : c.PassSends fs
    · rcases Conn.pass_of_meets hMeets hSends hQuiet hPos
          hShort with
        ⟨again, c', hPass, hSettled, hAgain⟩
      exact
        ⟨again, c', hPass, hSettled.ended .inl, hAgain⟩
    · rcases Conn.pass_of_not_sends hMeets hSends hQuiet hPos
          hShort with
        ⟨c', hPass, hError, _, hUnsent⟩
      exact
        ⟨false, c', hPass, .inr ⟨hError, .inr hUnsent⟩,
          fun hAgain => by cases hAgain⟩
  passNot fs c hQuiet hPos hShort hNot := by
    rcases Conn.pass_of_not_meets hNot hQuiet hPos hShort
        fs with
      hRaises | ⟨c', hPass, hBad⟩
    · exact .inl hRaises
    · unfold Conn.EndedOrUnsent at hBad
      push Not at hBad
      refine .inr ⟨c', hPass, hBad.1, ?_⟩
      exact fun hEnd => hEnd.elim hBad.2.1 hBad.2.2
  write c hQuiet _ := by
    by_cases hSends : c.WritesSucceed
    · exact
        (Conn.Settled.handleWrite (.inl hQuiet)
          fun _ => hSends).ended .inl
    · have hLast := hQuiet.handleWrite hSends
      exact .inr ⟨hLast.1, .inr hLast.2.2⟩
  writeNot c _ hNot := absurd trivial hNot

end V3

end WebServer

------------------------------------------------------------
-- Every Call Of A Connection
------------------------------------------------------------

namespace WebServer

namespace V3

/- The bytes that the reads of a call bring. -/
def ReadEvent.arriving :
    ReadEvent → Bytes
| .readable _ reads _ => reads.flatMap ReadResult.bytes
| .writable _ => []

/- No call adds to the buffer what it did not read. -/
theorem readMachine_length_le
    {c c' : Conn}
    {e : ReadEvent}
    (hPos : c.http.nowReadPos = 0)
    (hStep : readMachine.step c e = some c') :
    c'.http.nowReadPos = 0 ∧
      c'.http.inBuffer.length ≤
        c.http.inBuffer.length + e.arriving.length := by
  cases e with
  | readable fs reads writes =>
      have hCall := readMachine_readable.mp hStep
      have hWake :
          (c.wake reads writes).http.nowReadPos = 0 :=
        hPos
      have hLater := Conn.later_handleReadAt hWake hCall
      have hLeft :
          c'.left ≤
            c.http.inBuffer.length +
              (reads.flatMap ReadResult.bytes).length :=
        hLater.left
      unfold Conn.left at hLeft
      refine ⟨hLater.nowReadPos hWake, ?_⟩
      simp only [ReadEvent.arriving]
      omega
  | writable writes =>
      cases hStep
      rcases (c.wake [] writes).handleWrite_cases with
        ⟨_, h⟩ | ⟨_, _, _, _, h⟩ | ⟨_, _, _, _, h⟩ <;>
        rw [h] <;>
        simp only [ReadEvent.arriving, Conn.askToWrite_http,
          List.length_nil, Nat.add_zero]
      · exact ⟨hPos, Nat.le_refl _⟩
      · exact ⟨hPos, Nat.le_refl _⟩
      · exact ⟨hPos, Nat.le_refl _⟩

/-
  A client that sends less than 2^31 bytes keeps every call
  short.
-/
theorem stepsMeet_callShort
    {c : Conn}
    {es : List ReadEvent}
    (hPos : c.http.nowReadPos = 0)
    (hFew :
      c.http.inBuffer.length +
          (es.flatMap ReadEvent.arriving).length <
        2 ^ 31) :
    readMachine.StepsMeet CallShort c es := by
  induction es generalizing c with
  | nil => trivial
  | cons e es ih =>
      rw [List.flatMap_cons, List.length_append] at hFew
      intro _
      constructor
      · cases e with
        | writable writes => trivial
        | readable fs reads writes =>
            show
              c.http.inBuffer.length +
                  (reads.flatMap ReadResult.bytes).length <
                2 ^ 31
            simp only [ReadEvent.arriving] at hFew
            omega
      · intro c' hStep
        rcases readMachine_length_le hPos hStep with
          ⟨hPos', hLe⟩
        exact ih hPos' (by omega)

/-
  For every way the bytes of a client are cut into reads that
  are short enough for the `int` positions, all calls of a
  connection end normally, if and only if no `write` fails
  and no pass completes a header line begun in an earlier
  call, reads a `Content-length` that `stoi` rejects, or
  meets a complete `POST` request. The same without the
  first, if a response may stay queued where a `write` fails.
-/
theorem calls_end_normally_iff
    {socket : Socket}
    {es : List ReadEvent}
    (hShort :
      readMachine.StepsMeet CallShort (.new socket) es) :
    (readMachine.Throughout Conn.EndedWell (.new socket) es ↔
        readMachine.StepsMeet CallSends (.new socket) es) ∧
      (readMachine.Throughout Conn.EndedOrUnsent
          (.new socket) es ↔
        readMachine.StepsMeet CallMeets (.new socket) es) :=
  ⟨replyRule.throughout_iff hShort,
    unsentRule.throughout_iff hShort⟩

/- Two requests and a write in between. -/
def twoHellos : List ReadEvent :=
  [ .readable noFiles
      [.data (utf8 "GET /hello HTTP/1.1\r\nA: b\r\n\r\n")]
      [.accepted 5, .eagain],
    .writable [],
    .readable noFiles
      [.data (utf8 "GET /hello HTTP/1.1\r\nA: b\r\n\r\n")]
      [] ]

theorem calls_end_normally_iff_two_requests :
    (readMachine.Throughout Conn.EndedWell
          (.new ⟨[], [], []⟩) twoHellos ↔
        readMachine.StepsMeet CallSends (.new ⟨[], [], []⟩)
          twoHellos) ∧
      (readMachine.Throughout Conn.EndedOrUnsent
          (.new ⟨[], [], []⟩) twoHellos ↔
        readMachine.StepsMeet CallMeets (.new ⟨[], [], []⟩)
          twoHellos) :=
  calls_end_normally_iff
    (stepsMeet_callShort rfl (by decide +kernel))

/-
  A `POST` request whose `Content-length` is not a number
  ends the server with an exception.
-/
theorem content_length_raises :
    ¬ readMachine.Throughout Conn.EndedWell
      (.new ⟨[], [], []⟩)
      [.readable noFiles
        [.data
          (utf8
            "POST / HTTP/1.1\r\nContent-length: abc\r\n\r\n")]
        []] := by
  intro hAll
  rcases hAll.2 rfl with ⟨c', hStep, _⟩
  have hNone :
      (readMachine.step
        (.new ⟨[], [], []⟩)
        (.readable noFiles
          [.data
            (utf8
              "POST / HTTP/1.1\r\nContent-length: abc\r\n\r\n")]
          [])).isNone = true := by
    decide +kernel
  rw [hStep] at hNone
  cases hNone

end V3

end WebServer
