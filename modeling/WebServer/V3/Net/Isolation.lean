import WebServer.Library.TwoRuns
import WebServer.V3.Net.PendingOutput

/-
  What a request on a connection of version 3.0 leaves to
  the requests after it.

  `reset` restores the members that a request is read into,
  and the method is set before it is read. `keepAlive_` is
  kept on purpose, and so is `events_`, which collects what
  the current round asks for. So the bytes of the responses
  do not depend on earlier requests, and the timeouts and
  the registered events depend on no more than these two.

  Key definitions include:
    * `Conn.Completed`
    * `Conn.nextRound`
    * `Conn.afterReset`
    * `Conn.Twin`
    * `Conn.Lingers`

  Key theorems include:
    * `Conn.twin_handleRead`
    * `Conn.twin_nextRound`
    * `Conn.twin_endRound_bytes`
    * `Conn.requests_isolated`
-/

------------------------------------------------------------
-- Rounds Of One Connection
------------------------------------------------------------

namespace WebServer

namespace V3

open TwoRuns

/- One report of `epoll_wait`, and what the system answers. -/
structure Round where
  revents : Events
  files : FileSystem
  reads : List ReadResult
  writes : List WriteResult
  now : Timeval

/-
  What a round shows: the bytes sent, the call that
  `handleConn` made, and the events it asks for.
-/
structure Seen where
  sent : Bytes
  call : Option LoopCall
  interest : Events
deriving DecidableEq

namespace Conn

/- The system calls of a round, with nothing sent yet. -/
def onSocket
    (c : Conn)
    (r : Round) : Conn :=
  { c with socket := ⟨r.reads, r.writes, []⟩ }

/- `updatePoller(channel_, timeout)`, as far as `c` goes. -/
def updatePoller
    (c : Conn)
    (id : ConnId)
    (timeout : Nat)
    (now : Timeval) : Conn :=
  let (timers, addr) := c.timers.addTimer id timeout now
  { c with
    http := { c.http with timer := some addr }
    channel := c.channel.equalAndUpdateLastEvents.2
    timers := timers }

/- `handleConn()`, and the connection unless it is closed. -/
def endRound
    (c : Conn)
    (id : ConnId)
    (now : Timeval) : Seen × Option Conn :=
  let (call, c) := c.handleConn
  (⟨c.socket.sent, some call, c.channel.events⟩,
    match call with
    | .updatePoller timeout =>
        some (c.updatePoller id timeout now)
    | .handleClose => none
    | .noCall => some c)

/- A round of the loop. -/
def nextRound
    (id : ConnId)
    (r : Round)
    (c : Conn) : Except ReadFault (Seen × Option Conn) := do
  let (handlerRan, c) ←
    (c.onSocket r).handleEvents r.files r.revents
  if handlerRan then
    .ok (c.endRound id r.now)
  else
    .ok (⟨c.socket.sent, none, c.channel.events⟩, some c)

/- What is shown from the end of a round on. -/
def goOn
    (id : ConnId)
    (rounds : List Round) :
    Seen × Option Conn → List (Except ReadFault Seen)
| (seen, none) => [.ok seen]
| (seen, some c) =>
    .ok seen :: observe (nextRound id) rounds c

end Conn

end V3

end WebServer

------------------------------------------------------------
-- Twins
------------------------------------------------------------

namespace WebServer

namespace V3

open StdString TwoRuns

namespace Conn

/-
  Two connections that differ in what no response depends
  on. The method counts once a request line was read. The
  two conditions say whether `events_` and `keepAlive_` are
  the same as well.
-/
structure Twin
    (events keep : Prop)
    (c₁ c₂ : Conn) : Prop where
  inBuffer : c₁.http.inBuffer = c₂.http.inBuffer
  outBuffer : c₁.http.outBuffer = c₂.http.outBuffer
  error : c₁.http.error = c₂.http.error
  connectionState :
    c₁.http.connectionState = c₂.http.connectionState
  fileName : c₁.http.fileName = c₂.http.fileName
  nowReadPos : c₁.http.nowReadPos = c₂.http.nowReadPos
  state : c₁.http.state = c₂.http.state
  hState : c₁.http.hState = c₂.http.hState
  headers : c₁.http.headers = c₂.http.headers
  method :
    c₁.http.state ≠ .parseUri →
      c₁.http.method = c₂.http.method
  socket : c₁.socket = c₂.socket
  events :
    events → c₁.channel.events = c₂.channel.events
  keepAlive :
    keep → c₁.http.keepAlive = c₂.http.keepAlive

variable {events keep : Prop}

/- Two results of a stage: they go on or break off as twins. -/
inductive FlowTwin
    (events keep : Prop) :
    Flow → Flow → Prop
| go {c₁ c₂ : Conn} (hTwin : Twin events keep c₁ c₂) :
    FlowTwin events keep (.go c₁) (.go c₂)
| brk {c₁ c₂ : Conn} (hTwin : Twin events keep c₁ c₂) :
    FlowTwin events keep (.brk c₁) (.brk c₂)

theorem twin_handleError
    {c₁ c₂ : Conn}
    (h : Twin events keep c₁ c₂)
    (errNum : Nat)
    (shortMsg : Bytes) :
    Twin events keep (c₁.handleError errNum shortMsg)
      (c₂.handleError errNum shortMsg) := by
  unfold handleError
  exact
    { h with
      socket := by simp only [h.socket] }

theorem twin_failWith
    {c₁ c₂ : Conn}
    (h : Twin events keep c₁ c₂)
    (errNum : Nat)
    (shortMsg : Bytes) :
    Twin events keep (c₁.failWith errNum shortMsg)
      (c₂.failWith errNum shortMsg) := by
  have hError :
      Twin events keep
        { c₁ with http := { c₁.http with error := true } }
        { c₂ with http := { c₂.http with error := true } } :=
    { h with error := rfl }
  exact twin_handleError hError errNum shortMsg

theorem twin_readStage
    {c₁ c₂ : Conn}
    (h : Twin events keep c₁ c₂) :
    FlowTwin events keep c₁.readStage c₂.readStage := by
  have hRead :
      c₁.socket.readn c₁.http.inBuffer =
        c₂.socket.readn c₂.http.inBuffer := by
    rw [h.socket, h.inBuffer]
  have hTwin : ∀ buffer state,
      Twin events keep
        { c₁ with
          socket :=
            { c₁.socket with
              reads :=
                (c₂.socket.readn c₂.http.inBuffer).reads }
          http :=
            { c₁.http with
              inBuffer := buffer
              connectionState := state } }
        { c₂ with
          socket :=
            { c₂.socket with
              reads :=
                (c₂.socket.readn c₂.http.inBuffer).reads }
          http :=
            { c₂.http with
              inBuffer := buffer
              connectionState := state } } := by
    intro buffer state
    exact
      { h with
        inBuffer := rfl
        connectionState := rfl
        socket := by simp only [h.socket] }
  simp only [readStage, hRead, h.connectionState]
  split_ifs
  · exact .brk (hTwin _ _)
  · exact .brk (twin_failWith (hTwin _ _) _ _)
  · exact .brk (hTwin _ _)
  · exact .go (hTwin _ _)
  · exact .go (hTwin _ _)

/- What is cut off depends on the buffer only. -/
theorem cutLine_uniform
    (buffer : Bytes)
    (pos : Nat) :
    ∃ line rest, ∀ d : HttpData,
      d.inBuffer = buffer → d.nowReadPos = pos →
        d.cutLine =
          .ok (line, { d with inBuffer := rest }) := by
  cases hFind : findChar buffer 13 pos with
  | none =>
      refine ⟨buffer, buffer, ?_⟩
      rintro d rfl rfl
      rcases d.cutLine_cases with ⟨_, hCut⟩ | ⟨k, hSome, _⟩
      · exact hCut
      · rw [hFind] at hSome
        cases hSome
  | some k =>
      refine ⟨buffer.take k, buffer.drop (k + 1), ?_⟩
      rintro d rfl rfl
      rcases d.cutLine_cases with
        ⟨hNone, _⟩ | ⟨k', hSome, hCut⟩
      · rw [hFind] at hNone
        cases hNone
      · rw [hFind] at hSome
        cases hSome
        exact hCut

/-
  Equal buffers give the same line, and what it says does
  not depend on the connection.
-/
theorem parseURI_uniform
    (buffer : Bytes)
    (pos : Nat) :
    ∃ rest,
      (∀ d : HttpData,
        d.inBuffer = buffer → d.nowReadPos = pos →
          d.parseURI =
            .ok (.error, { d with inBuffer := rest })) ∨
      ∃ method name verdict, ∀ d : HttpData,
        d.inBuffer = buffer → d.nowReadPos = pos →
          d.parseURI =
            .ok
              (match verdict with
              | some version =>
                  (.success,
                    { d with inBuffer := rest }.setLine method
                      name version)
              | none =>
                  (.error,
                    { d with inBuffer := rest }.setLine method
                      name d.httpVersion)) := by
  rcases cutLine_uniform buffer pos with ⟨line, rest, hCut⟩
  refine ⟨rest, ?_⟩
  cases hFind : HttpData.findMethod line with
  | none =>
      left
      intro d hBuffer hPos
      simp only [HttpData.parseURI, hCut d hBuffer hPos, bind,
        Except.bind, HttpData.parseRequestLine, hFind]
  | some found =>
      rcases found with ⟨method, k⟩
      rcases HttpData.parseTarget_eq line method k with
        ⟨name, hTarget⟩
      right
      refine
        ⟨method, name, HttpData.readVersion line k,
          fun d hBuffer hPos => ?_⟩
      simp only [HttpData.parseURI, hCut d hBuffer hPos, bind,
        Except.bind, HttpData.parseRequestLine, hFind,
        hTarget]
      cases HttpData.readVersion line k with
      | none => rfl
      | some version => rfl

/- What header lines say, and where they end. -/
theorem parseHeaders_uniform
    (buffer : Bytes)
    (hState : ParseState)
    (headers : Headers) :
    ∃ out : Except Fault (HeaderState × HeaderScan × Bytes),
      ∀ d : HttpData,
        d.inBuffer = buffer → d.hState = hState →
          d.headers = headers →
            d.parseHeaders =
              out.map fun x =>
                (x.1,
                  { d.setScan x.2.1 with
                    inBuffer := x.2.2 }) := by
  cases hLoop :
      headerLoop .machine buffer buffer 0
        ⟨hState, headers, .init⟩ with
  | error f =>
      refine ⟨.error f, ?_⟩
      rintro d rfl rfl rfl
      exact HttpData.parseHeadersBy_of_fault hLoop
  | ok how =>
      cases how with
      | error scan =>
          refine ⟨.ok (.error, scan, buffer), ?_⟩
          rintro d rfl rfl rfl
          exact HttpData.parseHeadersBy_of_error hLoop
      | stopped i scan =>
          have hScan : ∀ d : HttpData,
              d.inBuffer = buffer → d.hState = hState →
                d.headers = headers →
                  d.scanHeaders .machine =
                    .ok (.stopped i scan) := by
            rintro d rfl rfl rfl
            exact hLoop
          by_cases hEnd : scan.hState = .endLf
          · refine
              ⟨(substr buffer i buffer.length).map
                fun rest => (.success, scan, rest), ?_⟩
            intro d hBuffer hLine hFields
            simp only [HttpData.parseHeaders,
              HttpData.parseHeadersBy,
              hScan d hBuffer hLine hFields, hEnd, hBuffer,
              if_true, bind, Except.bind]
            cases substr buffer i buffer.length with
            | error f => rfl
            | ok rest => rfl
          · refine
              ⟨(substr buffer
                  (Ints.machine.size
                    scan.vars.nowReadLineBegin).toNat
                  buffer.length).map
                fun rest => (.again, scan, rest), ?_⟩
            intro d hBuffer hLine hFields
            simp only [HttpData.parseHeaders,
              HttpData.parseHeadersBy,
              hScan d hBuffer hLine hFields, hEnd, hBuffer,
              if_false, bind, Except.bind]
            cases
                substr buffer
                  (Ints.machine.size
                    scan.vars.nowReadLineBegin).toNat
                  buffer.length with
            | error f => rfl
            | ok rest => rfl

theorem twin_uriStage
    {c₁ c₂ : Conn}
    (h : Twin events keep c₁ c₂) :
    SameOutcome (FlowTwin events keep) c₁.uriStage
      c₂.uriStage := by
  unfold uriStage
  by_cases hState : c₂.http.state = .parseUri
  · rw [if_pos (h.state.trans hState), if_pos hState]
    rcases
      parseURI_uniform c₂.http.inBuffer
        c₂.http.nowReadPos with
      ⟨rest, hCall | ⟨method, name, verdict, hCall⟩⟩
    · rw [hCall c₁.http h.inBuffer h.nowReadPos,
        hCall c₂.http rfl rfl]
      apply SameOutcome.ok
      apply FlowTwin.brk
      apply twin_failWith
      exact { h with inBuffer := rfl }
    · rw [hCall c₁.http h.inBuffer h.nowReadPos,
        hCall c₂.http rfl rfl]
      cases verdict with
      | none =>
          apply SameOutcome.ok
          apply FlowTwin.brk
          apply twin_failWith
          exact
            { h with
              inBuffer := rfl
              fileName := rfl
              method := fun _ => rfl }
      | some version =>
          apply SameOutcome.ok
          apply FlowTwin.go
          exact
            { h with
              inBuffer := rfl
              fileName := rfl
              state := rfl
              method := fun _ => rfl }
  · have hState₁ : c₁.http.state ≠ .parseUri := by
      rw [h.state]
      exact hState
    rw [if_neg hState₁, if_neg hState]
    exact .ok (.go h)

theorem twin_headerStage
    {c₁ c₂ : Conn}
    (h : Twin events keep c₁ c₂) :
    SameOutcome (FlowTwin events keep) c₁.headerStage
      c₂.headerStage := by
  unfold headerStage
  by_cases hState : c₂.http.state = .parseHeaders
  · have hState₁ := h.state.trans hState
    have hMethod : c₁.http.method = c₂.http.method :=
      h.method (by rw [hState₁]; decide)
    rw [if_pos hState₁, if_pos hState]
    rcases
      parseHeaders_uniform c₂.http.inBuffer c₂.http.hState
        c₂.http.headers with
      ⟨out, hCall⟩
    rw [hCall c₁.http h.inBuffer h.hState h.headers,
      hCall c₂.http rfl rfl rfl]
    rcases out with f | ⟨flag, scan, rest⟩
    · exact .error f
    · cases flag with
      | again =>
          apply SameOutcome.ok
          apply FlowTwin.brk
          exact
            { h with
              inBuffer := rfl
              hState := rfl
              headers := rfl }
      | error =>
          apply SameOutcome.ok
          apply FlowTwin.brk
          apply twin_failWith
          exact
            { h with
              inBuffer := rfl
              hState := rfl
              headers := rfl }
      | success =>
          apply SameOutcome.ok
          apply FlowTwin.go
          exact
            { h with
              inBuffer := rfl
              hState := rfl
              headers := rfl
              state := if_congr (iff_of_eq (congrArg
                (· = HttpMethod.post) hMethod)) rfl rfl
              method := fun _ => hMethod }
  · have hState₁ : c₁.http.state ≠ .parseHeaders := by
      rw [h.state]
      exact hState
    rw [if_neg hState₁, if_neg hState]
    exact .ok (.go h)

theorem twin_bodyStage
    {c₁ c₂ : Conn}
    (h : Twin events keep c₁ c₂) :
    SameOutcome (FlowTwin events keep) c₁.bodyStage
      c₂.bodyStage := by
  unfold bodyStage
  rw [h.headers, h.inBuffer]
  by_cases hState : c₂.http.state = .recvBody
  · have hState₁ := h.state.trans hState
    have hMethod : c₁.http.method = c₂.http.method :=
      h.method (by rw [hState₁]; decide)
    rw [if_pos hState₁, if_pos hState]
    cases c₂.http.headers (utf8 "Content-length") with
    | none => exact .ok (.brk (twin_failWith h _ _))
    | some value =>
        cases hLength : stoi value with
        | error f =>
            simp only [hLength, bind, Except.bind]
            exact .error f
        | ok contentLength =>
            simp only [hLength, bind, Except.bind]
            split_ifs
            · exact .ok (.brk h)
            · apply SameOutcome.ok
              apply FlowTwin.go
              exact
                { h with
                  state := rfl
                  method := fun _ => hMethod }
  · have hState₁ : c₁.http.state ≠ .recvBody := by
      rw [h.state]
      exact hState
    rw [if_neg hState₁, if_neg hState]
    exact .ok (.go h)

theorem twin_setOut
    {c₁ c₂ : Conn}
    (h : Twin events keep c₁ c₂)
    (bytes : Bytes) :
    Twin events keep (c₁.setOut bytes) (c₂.setOut bytes) :=
  { h with outBuffer := rfl }

theorem twin_appendOut
    {c₁ c₂ : Conn}
    (h : Twin events keep c₁ c₂)
    (bytes : Bytes) :
    Twin events keep (c₁.appendOut bytes)
      (c₂.appendOut bytes) := by
  unfold appendOut
  exact
    { h with
      outBuffer := by simp only [h.outBuffer] }

theorem twin_serveFile
    {c₁ c₂ : Conn}
    (h : Twin events keep c₁ c₂)
    (hMethod : c₁.http.method = c₂.http.method)
    (fs : FileSystem)
    (header mime : Bytes) :
    (c₁.serveFile fs header mime).1 =
        (c₂.serveFile fs header mime).1 ∧
      (c₁.serveFile fs header mime).2.http.method =
        (c₂.serveFile fs header mime).2.http.method ∧
      Twin events keep (c₁.serveFile fs header mime).2
        (c₂.serveFile fs header mime).2 := by
  have hNotFound : ∀ {c₁ c₂ : Conn},
      Twin events keep c₁ c₂ →
        Twin events keep
          (c₁.handleError 404 (utf8 "Not Found!"))
          (c₂.handleError 404 (utf8 "Not Found!")) :=
    fun h => twin_handleError h _ _
  unfold serveFile
  simp only [h.fileName]
  cases fs.stat (cStr c₂.http.fileName) with
  | none => exact ⟨rfl, hMethod, hNotFound h⟩
  | some size =>
      have hHeader :=
        twin_appendOut h (header ++ contentHeader mime size)
      have hMethod' :
          (c₁.appendOut
              (header ++
                contentHeader mime size)).http.method =
            (c₂.appendOut
              (header ++
                contentHeader mime size)).http.method :=
        hMethod
      simp only
      revert hHeader hMethod'
      generalize
        c₁.appendOut (header ++ contentHeader mime size) = b₁
      generalize
        c₂.appendOut (header ++ contentHeader mime size) = b₂
      intro hHeader hMethod'
      by_cases hHead : b₂.http.method = .head
      · rw [if_pos (hMethod'.trans hHead), if_pos hHead]
        exact ⟨rfl, hMethod', hHeader⟩
      · have hHead₁ : b₁.http.method ≠ .head := by
          rw [hMethod']
          exact hHead
        rw [if_neg hHead₁, if_neg hHead]
        by_cases hOpen : fs.openRdonly (cStr c₂.http.fileName)
        · rw [if_pos hOpen, if_pos hOpen]
          cases fs.mmap (cStr c₂.http.fileName) size with
          | none =>
              exact
                ⟨rfl, hMethod',
                  hNotFound (twin_setOut hHeader _)⟩
          | some bytes =>
              exact
                ⟨rfl, hMethod', twin_appendOut hHeader bytes⟩
        · rw [if_neg hOpen, if_neg hOpen]
          exact
            ⟨rfl, hMethod', hNotFound (twin_setOut hHeader _)⟩

theorem twin_analysisRequest
    {c₁ c₂ : Conn}
    (h : Twin events keep c₁ c₂)
    (hMethod : c₁.http.method = c₂.http.method)
    (fs : FileSystem) :
    SameOutcome
      (fun out₁ out₂ =>
        out₁.1 = out₂.1 ∧
          out₁.2.http.method = out₂.2.http.method ∧
          Twin events keep out₁.2 out₂.2)
      (c₁.analysisRequest fs) (c₂.analysisRequest fs) := by
  by_cases hPost : c₂.http.method = .post
  · have hPost₁ := hMethod.trans hPost
    simp only [analysisRequest, if_pos hPost₁, if_pos hPost]
    exact .ok ⟨rfl, hMethod, { h with }⟩
  · have hPost₁ : c₁.http.method ≠ .post := by
      rw [hMethod]
      exact hPost
    have hAsks :
        c₁.http.asksKeepAlive = c₂.http.asksKeepAlive := by
      unfold HttpData.asksKeepAlive
      rw [h.headers]
    have hHeader :
        c₁.http.statusHeader = c₂.http.statusHeader := by
      unfold HttpData.statusHeader
      rw [hAsks]
    have hType : c₁.http.fileType = c₂.http.fileType := by
      unfold HttpData.fileType HttpData.dotPos
      rw [h.fileName]
    rcases fileType_ok c₂.http with ⟨mime, hMime⟩
    have hAnswered :
        Twin events keep
          (c₁.analysed.answered
            (c₁.http.asksKeepAlive || c₁.http.keepAlive)
            c₁.http.outBuffer)
          (c₂.analysed.answered
            (c₂.http.asksKeepAlive || c₂.http.keepAlive)
            c₂.http.outBuffer) := by
      unfold analysed answered
      exact
        { h with
          keepAlive := fun hKeep => by
            simp only [hAsks, h.keepAlive hKeep] }
    rw [analysisRequest_keeps hPost₁ (hType.trans hMime),
      analysisRequest_keeps hPost hMime]
    unfold serveName
    rw [hHeader, h.fileName]
    split_ifs
    · exact .ok ⟨rfl, hMethod, twin_setOut hAnswered _⟩
    · exact .ok ⟨rfl, hMethod, twin_appendOut hAnswered _⟩
    · exact
        .ok
          (twin_serveFile hAnswered hMethod fs
            c₂.http.statusHeader mime)

theorem twin_analysisStage
    {c₁ c₂ : Conn}
    (h : Twin events keep c₁ c₂)
    (fs : FileSystem) :
    SameOutcome (FlowTwin events keep) (c₁.analysisStage fs)
      (c₂.analysisStage fs) := by
  unfold analysisStage
  by_cases hState : c₂.http.state = .analysis
  · have hState₁ := h.state.trans hState
    have hMethod : c₁.http.method = c₂.http.method :=
      h.method (by rw [hState₁]; decide)
    rw [if_pos hState₁, if_pos hState]
    refine (twin_analysisRequest h hMethod fs).bind ?_
    rintro ⟨flag, c₁'⟩ ⟨flag', c₂'⟩ ⟨rfl, hMethod', hTwin⟩
    cases flag with
    | success =>
        apply SameOutcome.ok
        apply FlowTwin.brk
        exact
          { hTwin with
            state := rfl
            method := fun _ => hMethod' }
    | error => exact .ok (.brk { hTwin with error := rfl })
  · have hState₁ : c₁.http.state ≠ .analysis := by
      rw [h.state]
      exact hState
    rw [if_neg hState₁, if_neg hState]
    exact .ok (.go h)

theorem FlowTwin.andThen
    {flow₁ flow₂ : Flow}
    {stage : Conn → Except Fault Flow}
    (h : FlowTwin events keep flow₁ flow₂)
    (hStage :
      ∀ {c₁ c₂ : Conn},
        Twin events keep c₁ c₂ →
          SameOutcome (FlowTwin events keep) (stage c₁)
            (stage c₂)) :
    SameOutcome (FlowTwin events keep) (flow₁.andThen stage)
      (flow₂.andThen stage) := by
  cases h with
  | go hTwin => exact hStage hTwin
  | brk hTwin => exact .ok (.brk hTwin)

theorem twin_stages
    {c₁ c₂ : Conn}
    (h : Twin events keep c₁ c₂)
    (fs : FileSystem) :
    SameOutcome (Twin events keep) (c₁.stages fs)
      (c₂.stages fs) := by
  unfold stages
  refine ((twin_readStage h).andThen twin_uriStage).bind ?_
  intro flow₁ flow₂ hUri
  refine (hUri.andThen twin_headerStage).bind ?_
  intro flow₁ flow₂ hHeader
  refine (hHeader.andThen twin_bodyStage).bind ?_
  intro flow₁ flow₂ hBody
  refine
    (hBody.andThen fun h => twin_analysisStage h fs).bind ?_
  intro flow₁ flow₂ hAnalysis
  cases hAnalysis with
  | go hTwin => exact .ok hTwin
  | brk hTwin => exact .ok hTwin

theorem twin_addEpollIn
    {c₁ c₂ : Conn}
    (h : Twin events keep c₁ c₂) :
    Twin events keep c₁.addEpollIn c₂.addEpollIn := by
  unfold addEpollIn
  exact
    { h with
      events := fun hSame => by
        simp only [Channel.setEvents, h.events hSame] }

theorem twin_addEpollOut
    {c₁ c₂ : Conn}
    (h : Twin events keep c₁ c₂) :
    Twin events keep c₁.addEpollOut c₂.addEpollOut := by
  unfold addEpollOut
  exact
    { h with
      events := fun hSame => by
        simp only [Channel.setEvents, h.events hSame] }

theorem twin_handleWrite
    {c₁ c₂ : Conn}
    (h : Twin events keep c₁ c₂) :
    Twin events keep c₁.handleWrite c₂.handleWrite := by
  have hWrite :
      c₁.socket.writenString c₁.http.outBuffer =
        c₂.socket.writenString c₂.http.outBuffer := by
    rw [h.socket, h.outBuffer]
  unfold handleWrite
  rw [hWrite, h.error, h.connectionState]
  rcases c₂.socket.writenString c₂.http.outBuffer with
    ⟨socket, outBuffer, failed⟩
  have hWrote :
      Twin events keep
        { c₁ with
          socket := socket
          http := { c₁.http with outBuffer := outBuffer } }
        { c₂ with
          socket := socket
          http := { c₂.http with outBuffer := outBuffer } } :=
    { h with
      outBuffer := rfl
      socket := rfl }
  simp only
  split_ifs
  · exact
      twin_addEpollOut
        { hWrote with
          error := rfl
          events := fun _ => rfl }
  · exact
      { hWrote with
        error := rfl
        events := fun _ => rfl }
  · exact twin_addEpollOut hWrote
  · exact hWrote
  · exact h

theorem twin_sendPending
    {c₁ c₂ : Conn}
    (h : Twin events keep c₁ c₂) :
    Twin events keep c₁.sendPending c₂.sendPending := by
  unfold sendPending
  rw [h.error, h.outBuffer]
  split_ifs
  · exact twin_handleWrite h
  · exact h

theorem twin_reset
    {c₁ c₂ : Conn}
    (h : Twin events keep c₁ c₂) :
    Twin events keep c₁.reset c₂.reset := by
  rcases c₁.reset_frame with ⟨timer₁, timers₁, hReset₁⟩
  rcases c₂.reset_frame with ⟨timer₂, timers₂, hReset₂⟩
  rw [hReset₁, hReset₂]
  exact
    { h with
      fileName := rfl
      nowReadPos := rfl
      state := rfl
      hState := rfl
      headers := rfl
      method := fun hNot => absurd rfl hNot }

theorem twin_conclude
    {c₁ c₂ : Conn}
    (h : Twin events keep c₁ c₂) :
    c₁.conclude.1 = c₂.conclude.1 ∧
      Twin events keep c₁.conclude.2 c₂.conclude.2 := by
  have hReset := twin_reset h
  unfold conclude
  simp only [h.error, h.state, h.connectionState,
    hReset.inBuffer, hReset.connectionState]
  split_ifs
  · exact ⟨rfl, h⟩
  · exact ⟨rfl, hReset⟩
  · exact ⟨rfl, twin_addEpollIn h⟩
  · exact ⟨rfl, h⟩

theorem twin_pass
    {c₁ c₂ : Conn}
    (h : Twin events keep c₁ c₂)
    (fs : FileSystem) :
    SameOutcome
      (fun out₁ out₂ =>
        out₁.1 = out₂.1 ∧ Twin events keep out₁.2 out₂.2)
      (c₁.pass fs) (c₂.pass fs) := by
  unfold pass
  refine (twin_stages h fs).bind ?_
  intro c₁' c₂' hTwin
  exact .ok (twin_conclude (twin_sendPending hTwin))

/- The calls of `handleRead` go the same way. -/
theorem twin_handleReadAt
    {fs : FileSystem}
    {c₁ c₂ : Conn}
    (h : Twin events keep c₁ c₂)
    (depth : Nat) :
    SameOutcome (Twin events keep)
      (handleReadAt fs depth c₁) (handleReadAt fs depth c₂) := by
  induction depth generalizing c₁ c₂ with
  | zero => exact .error _
  | succ depth ih =>
      have hPass := twin_pass h fs
      unfold handleReadAt
      revert hPass
      generalize c₁.pass fs = x₁
      generalize c₂.pass fs = x₂
      intro hPass
      cases hPass with
      | error f => exact .error _
      | @ok out₁ out₂ hRel =>
          rcases out₁ with ⟨again, c₁'⟩
          rcases out₂ with ⟨again', c₂'⟩
          rcases hRel with ⟨hAgain, hTwin⟩
          cases hAgain
          cases again with
          | true => exact ih hTwin
          | false => exact .ok hTwin

theorem twin_handleRead
    {c₁ c₂ : Conn}
    (h : Twin events keep c₁ c₂)
    (fs : FileSystem) :
    SameOutcome (Twin events keep) (c₁.handleRead fs)
      (c₂.handleRead fs) := by
  have hDepth : c₁.readDepth = c₂.readDepth := by
    unfold readDepth
    rw [h.inBuffer, h.socket]
  unfold handleRead
  rw [hDepth]
  exact twin_handleReadAt h _

/- Nothing asked for in earlier rounds is left. -/
theorem twin_clearEvents
    {c₁ c₂ : Conn}
    (h : Twin events keep c₁ c₂) :
    Twin True keep c₁.clearEvents c₂.clearEvents :=
  { h with events := fun _ => rfl }

theorem twin_handleEvents
    {c₁ c₂ : Conn}
    (h : Twin events keep c₁ c₂)
    (fs : FileSystem)
    (revents : Events) :
    SameOutcome
      (fun out₁ out₂ =>
        out₁.1 = out₂.1 ∧ Twin True keep out₁.2 out₂.2)
      (c₁.handleEvents fs revents)
      (c₂.handleEvents fs revents) := by
  have hClear := twin_clearEvents h
  simp only [handleEvents]
  split_ifs
  · exact .ok ⟨rfl, hClear⟩
  · exact .ok ⟨rfl, twin_clearEvents hClear⟩
  · refine (twin_handleRead hClear fs).bind ?_
    intro c₁' c₂' hTwin
    exact .ok ⟨rfl, twin_handleWrite hTwin⟩
  · refine (twin_handleRead hClear fs).bind ?_
    intro c₁' c₂' hTwin
    exact .ok ⟨rfl, hTwin⟩
  · exact .ok ⟨rfl, twin_handleWrite hClear⟩
  · exact .ok ⟨rfl, hClear⟩

theorem twin_seperateTimer
    {c₁ c₂ : Conn}
    (h : Twin events keep c₁ c₂) :
    Twin events keep c₁.seperateTimer c₂.seperateTimer := by
  rcases c₁.seperateTimer_frame with ⟨timer₁, timers₁, hSep₁⟩
  rcases c₂.seperateTimer_frame with ⟨timer₂, timers₂, hSep₂⟩
  rw [hSep₁, hSep₂]
  exact { h with }

end Conn

end V3

end WebServer

------------------------------------------------------------
-- What Is Seen
------------------------------------------------------------

namespace WebServer

namespace V3

open TwoRuns

/-
  Two rounds that send the same bytes and ask for the same
  events, and for the same timeout if `keep` holds.
-/
structure Seen.Same
    (keep : Prop)
    (seen₁ seen₂ : Seen) : Prop where
  sent : seen₁.sent = seen₂.sent
  interest : seen₁.interest = seen₂.interest
  call : keep → seen₁.call = seen₂.call

namespace Conn

variable {events keep : Prop}

theorem twin_updatePoller
    {c₁ c₂ : Conn}
    (h : Twin events keep c₁ c₂)
    (id : ConnId)
    (timeout₁ timeout₂ : Nat)
    (now : Timeval) :
    Twin events keep (c₁.updatePoller id timeout₁ now)
      (c₂.updatePoller id timeout₂ now) :=
  { h with }

theorem Twin.watched_eq
    {c₁ c₂ : Conn}
    (h : Twin events keep c₁ c₂)
    (hEvents : events) :
    c₁.watched = c₂.watched := by
  unfold watched
  rw [h.events hEvents]

theorem Twin.timeout_eq
    {c₁ c₂ : Conn}
    (h : Twin events keep c₁ c₂)
    (hEvents : events)
    (hKeep : keep) :
    c₁.timeout = c₂.timeout := by
  unfold timeout
  rw [h.events hEvents, h.keepAlive hKeep]

theorem Twin.halfClosed_iff
    {c₁ c₂ : Conn}
    (h : Twin events keep c₁ c₂)
    (hEvents : events) :
    c₁.HalfClosed ↔ c₂.HalfClosed := by
  unfold HalfClosed
  rw [h.error, h.connectionState, h.events hEvents]

/- The events set at the end of a round. -/
theorem Twin.setEvents
    {c₁ c₂ : Conn}
    {watched₁ watched₂ : Events}
    (h : Twin events keep c₁ c₂)
    (hWatched : events → watched₁ = watched₂) :
    Twin events keep
      { c₁.seperateTimer with
        channel := c₁.channel.setEvents watched₁ }
      { c₂.seperateTimer with
        channel := c₂.channel.setEvents watched₂ } :=
  { twin_seperateTimer h with events := hWatched }

/- With equal events, both are kept or both are closed. -/
theorem twin_endRound
    {c₁ c₂ : Conn}
    (h : Twin True keep c₁ c₂)
    (id : ConnId)
    (now : Timeval) :
    Seen.Same keep (c₁.endRound id now).1
        (c₂.endRound id now).1 ∧
      Option.Rel (Twin True keep) (c₁.endRound id now).2
        (c₂.endRound id now).2 := by
  by_cases hOpen :
      c₂.http.error = false ∧
        c₂.http.connectionState = .connected
  · have hTwin := h.setEvents h.watched_eq
    simp only [endRound,
      handleConn_of_connected (h.error.trans hOpen.1)
        (h.connectionState.trans hOpen.2),
      handleConn_of_connected hOpen.1 hOpen.2]
    refine
      ⟨⟨congrArg Socket.sent hTwin.socket,
        h.watched_eq trivial, ?_⟩, ?_⟩
    · intro hKeep
      rw [h.timeout_eq trivial hKeep]
    · exact .some (twin_updatePoller hTwin id _ _ now)
  · have hOpen₁ :
        ¬ (c₁.http.error = false ∧
          c₁.http.connectionState = .connected) := by
      rw [h.error, h.connectionState]
      exact hOpen
    have hHalf := h.halfClosed_iff trivial
    rcases handleConn_of_not_connected hOpen₁ with
      ⟨hHalf₁, hCall₁⟩ | ⟨hCloses₁, hCall₁⟩ <;>
      rcases handleConn_of_not_connected hOpen with
        ⟨hHalf₂, hCall₂⟩ | ⟨hCloses₂, hCall₂⟩
    · have hTwin := h.setEvents fun _ => rfl (a := Events.outEt)
      simp only [endRound, hCall₁, hCall₂]
      exact
        ⟨⟨congrArg Socket.sent hTwin.socket, rfl,
            fun _ => rfl⟩, .some hTwin⟩
    · exact absurd (hHalf.mp hHalf₁) hCloses₂.2
    · exact absurd (hHalf.mpr hHalf₂) hCloses₁.2
    · have hTwin := twin_seperateTimer h
      simp only [endRound, hCall₁, hCall₂]
      exact
        ⟨⟨congrArg Socket.sent hTwin.socket,
            hTwin.events trivial, fun _ => rfl⟩, .none⟩

theorem twin_onSocket
    {c₁ c₂ : Conn}
    (h : Twin events keep c₁ c₂)
    (r : Round) :
    Twin events keep (c₁.onSocket r) (c₂.onSocket r) :=
  { h with socket := rfl }

/- A round starts without the events of the last one. -/
theorem twin_nextRound
    (id : ConnId)
    (r : Round)
    (c₁ c₂ : Conn)
    (h : Twin events keep c₁ c₂) :
    SameOutcome
      (fun out₁ out₂ =>
        Seen.Same keep out₁.1 out₂.1 ∧
          Option.Rel (Twin True keep) out₁.2 out₂.2)
      (nextRound id r c₁) (nextRound id r c₂) := by
  unfold nextRound
  refine
    (twin_handleEvents (twin_onSocket h r) r.files
      r.revents).bind ?_
  rintro ⟨handlerRan, c₁'⟩ ⟨handlerRan', c₂'⟩ ⟨hRan, hTwin⟩
  cases hRan
  cases handlerRan with
  | true => exact .ok (twin_endRound hTwin id r.now)
  | false =>
      exact
        .ok
          ⟨⟨congrArg Socket.sent hTwin.socket,
              hTwin.events trivial, fun _ => rfl⟩,
            .some hTwin⟩

end Conn

end V3

end WebServer

------------------------------------------------------------
-- Bytes Alone
------------------------------------------------------------

namespace WebServer

namespace V3

open TwoRuns

/- The bytes sent in a round that returned. -/
def Seen.bytes :
    Except ReadFault Seen → Bytes
| .ok seen => seen.sent
| .error _ => []

namespace Conn

/-
  The peer has sent its last byte, and nothing is left to be
  sent to it.
-/
structure Lingers
    (c : Conn) : Prop where
  error : c.http.error = false
  connectionState : c.http.connectionState = .disconnecting
  outBuffer : c.http.outBuffer = []

theorem Lingers.handleWrite
    {c : Conn}
    (h : c.Lingers) :
    c.handleWrite = c := by
  have hLoop : ∀ writes,
      writenLoop writes [] = ⟨0, false, writes⟩ := by
    intro writes
    cases writes with
    | nil => rfl
    | cons w writes => simp [writenLoop]
  have hWrite :
      c.socket.writenString [] = (c.socket, [], false) := by
    have hZero : ((0 : Nat) : Int) = toInt32 0 := by decide
    simp [Socket.writenString, hLoop, ← hZero]
  have hOpen :
      !c.http.error ∧
        c.http.connectionState ≠ .disconnected := by
    simp [h.error, h.connectionState]
  have hSame :
      { c.http with outBuffer := [] } = c.http := by
    rw [← h.outBuffer]
  unfold Conn.handleWrite
  rw [if_pos hOpen, h.outBuffer, hWrite]
  simp [hSame, h.outBuffer]

theorem Lingers.handleRead
    {c c' : Conn}
    {fs : FileSystem}
    (h : c.Lingers)
    (hEvents : c.channel.events = .none)
    (hRead : c.handleRead fs = .ok c') :
    c'.Lingers ∧ c'.socket.sent = c.socket.sent ∧
      c'.channel.events.epollOut = false := by
  -- what arrives is thrown away
  obtain ⟨c₁, hStages, hLingers, hSent, hChannel⟩ :
      ∃ c₁,
        c.stages fs = .ok c₁ ∧ c₁.Lingers ∧
          c₁.socket.sent = c.socket.sent ∧
          c₁.channel = c.channel := by
    refine
      ⟨{ c with
          socket :=
            { c.socket with
              reads :=
                (c.socket.readn c.http.inBuffer).reads }
          http := { c.http with inBuffer := [] } },
        ?_, ?_, rfl, rfl⟩
    · simp only [stages, readStage, h.connectionState,
        if_true, Flow.andThen, bind, Except.bind, Flow.conn]
    · exact ⟨h.error, h.connectionState, h.outBuffer⟩
  have hSend : c₁.sendPending = c₁ := by
    unfold sendPending
    rw [if_neg (by simp [hLingers.outBuffer])]
  obtain ⟨c₂, hConclude, hLingers₂, hSent₂, hOut⟩ :
      ∃ c₂,
        c₁.conclude = (false, c₂) ∧ c₂.Lingers ∧
          c₂.socket.sent = c₁.socket.sent ∧
          c₂.channel.events.epollOut = false := by
    have hNone : c₁.channel.events.epollOut = false := by
      rw [hChannel, hEvents]
      rfl
    rcases c₁.reset_frame with ⟨timer, timers, hReset⟩
    unfold conclude
    rw [if_neg (by simp [hLingers.error])]
    by_cases hFinish : c₁.http.state = .finish
    · rw [if_pos hFinish]
      refine ⟨c₁.reset, ?_, ?_, ?_, ?_⟩
      · simp [hReset, hLingers.connectionState]
      · rw [hReset]
        exact
          ⟨hLingers.error, hLingers.connectionState,
            hLingers.outBuffer⟩
      · rw [hReset]
      · rw [hReset]
        exact hNone
    · rw [if_neg hFinish,
        if_pos (by simp [hLingers.connectionState])]
      exact
        ⟨_, rfl,
          ⟨hLingers.error, hLingers.connectionState,
            hLingers.outBuffer⟩, rfl, hNone⟩
  have hPass : c.pass fs = .ok (false, c₂) := by
    rw [pass_eq, hStages]
    simp only [Except.map, hSend, hConclude]
  simp only [Conn.handleRead, readDepth, handleReadAt,
    hPass] at hRead
  cases hRead
  exact ⟨hLingers₂, hSent₂.trans hSent, hOut⟩

/- Without `EPOLLOUT` it is closed at the end of a round. -/
theorem Lingers.endRound
    {c : Conn}
    (h : c.Lingers)
    (hOut : c.channel.events.epollOut = false)
    (id : ConnId)
    (now : Timeval) :
    (c.endRound id now).1.sent = c.socket.sent ∧
      (c.endRound id now).2 = none := by
  have hNot :
      ¬ (c.http.error = false ∧
        c.http.connectionState = .connected) := by
    simp [h.connectionState]
  rcases handleConn_of_not_connected hNot with
    ⟨hHalf, _⟩ | ⟨_, hCall⟩
  · rw [hHalf.2.2] at hOut
    cases hOut
  · rcases c.seperateTimer_frame with ⟨timer, timers, hSep⟩
    have hEnd :
        c.endRound id now =
          (⟨c.seperateTimer.socket.sent, some .handleClose,
            c.seperateTimer.channel.events⟩, none) := by
      simp only [Conn.endRound, hCall]
    rw [hEnd, hSep]
    exact ⟨rfl, rfl⟩

/- Such a connection sends nothing until it is closed. -/
theorem Lingers.nextRound
    {c : Conn}
    {seen : Seen}
    {next : Option Conn}
    {id : ConnId}
    {r : Round}
    (h : c.Lingers)
    (hRound : Conn.nextRound id r c = .ok (seen, next)) :
    seen.sent = [] ∧ ∀ c', next = some c' → c'.Lingers := by
  have hCleared : (c.onSocket r).clearEvents.Lingers :=
    ⟨h.error, h.connectionState, h.outBuffer⟩
  unfold Conn.nextRound at hRound
  cases hEvents :
      (c.onSocket r).handleEvents r.files r.revents with
  | error f =>
      rw [hEvents] at hRound
      cases hRound
  | ok result =>
      rcases result with ⟨handlerRan, c₁⟩
      rw [hEvents] at hRound
      rcases handleEvents_cases hEvents with
        ⟨rfl, rfl⟩ | ⟨rfl, c₂, hRead, hWrite⟩
      · cases hRound
        refine ⟨rfl, ?_⟩
        rintro c' hSome
        cases hSome
        exact hCleared
      · obtain ⟨hLingers, hSent, hOut⟩ :
            c₂.Lingers ∧ c₂.socket.sent = [] ∧
              c₂.channel.events.epollOut = false := by
          rcases hRead with ⟨_, hCall⟩ | ⟨_, rfl⟩
          · exact hCleared.handleRead rfl hCall
          · exact ⟨hCleared, rfl, rfl⟩
        have hSame : c₁ = c₂ := by
          rw [hWrite, hLingers.handleWrite, ite_self]
        rcases hLingers.endRound hOut id r.now with
          ⟨hSeen, hEnd⟩
        simp only [hSame, bind, Except.bind, if_true,
          Except.ok.injEq] at hRound
        rw [hRound] at hSeen hEnd
        refine ⟨hSeen.trans hSent, ?_⟩
        intro c' hSome
        simp only at hEnd
        rw [hEnd] at hSome
        cases hSome

end Conn

end V3

end WebServer

------------------------------------------------------------
-- Isolation
------------------------------------------------------------

namespace WebServer

namespace V3

open TwoRuns

namespace Conn

variable {keep : Prop}

theorem Twin.forget
    {events : Prop}
    {c₁ c₂ : Conn}
    (h : Twin events keep c₁ c₂) :
    Twin False keep c₁ c₂ :=
  { h with events := fun hNo => hNo.elim }

/- The rounds after that show the same. -/
theorem Twin.rounds
    {events : Prop}
    {c₁ c₂ : Conn}
    (h : Twin events keep c₁ c₂)
    (id : ConnId)
    (rounds : List Round) :
    List.Forall₂ (SameOutcome (Seen.Same keep))
      (observe (nextRound id) rounds c₁)
      (observe (nextRound id) rounds c₂) := by
  refine observe_related ?_ h.forget rounds
  intro r c₁ c₂ hTwin
  refine (twin_nextRound id r c₁ c₂ hTwin).mono ?_
  rintro ⟨seen₁, next₁⟩ ⟨seen₂, next₂⟩ ⟨hSame, hNext⟩
  refine ⟨hSame, ?_⟩
  cases hNext with
  | none => exact .none
  | some hGo => exact .some hGo.forget

/- A connection once `handleRead` has handled its bytes. -/
def handled
    (c : Conn) : Conn :=
  match c.stages noFiles with
  | .ok c => c.sendPending
  | .error _ => c

/- A new connection that has served one request. -/
def served
    (request : Bytes) : Conn :=
  (handled (.new ⟨[.data request], [], []⟩)).reset

end Conn

end V3

end WebServer
