import WebServer.V3.Net.PendingOutput
import WebServer.V3.Net.Pipelining
import WebServer.V3.Net.ResponseFraming
import WebServer.V3.Net.ResponseOrder

/-
  A whole keep-alive session of version 3.0, as its client
  sees it.

  One connection of a loop belongs to a client that sends a
  request whenever it has read the responses to all earlier
  ones. It finds their ends in what it has received, from
  the lengths that the headers give. The loop serves any
  other connections in between, the kernel reports what the
  registration allows, and `write` may take any part of a
  response.

  The client reads the files it asked for, in order, and a
  client that waits is one report away from its response.

  Key definitions include:
    * `Request.content`
    * `Request.Delimited`
    * `Client`
    * `session`
    * `Client.Meets`
    * `Client.Sound`

  Key theorems include:
    * `Request.message_ends`
    * `HttpData.Between.handleRead`
    * `Client.Kept.step`
    * `client_reads_its_files`
-/

------------------------------------------------------------
-- Bodies
------------------------------------------------------------

namespace WebServer

namespace V3

open StdString MessageFraming

namespace Request

/- What the client should find behind the header. -/
def content
    (r : Request)
    (fs : FileSystem) : Bytes :=
  if r.method = .head then
    []
  else if r.fileName = utf8 "favicon.ico" then
    favicon
  else
    ((fs.stat (cStr r.fileName)).bind
      (fs.mmap (cStr r.fileName))).getD []

/- The response as its client reads it. -/
def message
    (r : Request)
    (fs : FileSystem) : Message where
  bodiless := r.method = .head
  text := (r.response fs).getD []
  body := r.content fs

/- The request is not one of those without a length. -/
structure Delimited
    (r : Request) : Prop where
  name : r.fileName ≠ utf8 "hello"
  icon :
    ¬ (r.method = .head ∧ r.fileName = utf8 "favicon.ico")

/-
  The server reads the request as it is meant, and its
  response has an end.
-/
structure Fit
    (r : Request) : Prop where
  named : r.NamedFirst
  kept : r.FieldsKept
  delimited : r.Delimited
  short : r.bytes.length < 2 ^ 31

end Request

/- A header and what its length says end a message. -/
theorem HttpData.ends_header
    {mime body : Bytes}
    {size : Nat}
    {bodiless : Bool}
    (hMime : mime ∈ mimeTable.map Prod.snd)
    (d : HttpData)
    (hBody : body.length = if bodiless then 0 else size) :
    Message.Ends
      ⟨bodiless,
        d.statusHeader ++ contentHeader mime size ++ body,
        body⟩ := by
  refine ⟨statusLine :: d.headLines mime size, ?_, ?_⟩
  · simp only [header_eq, List.append_assoc]
    exact readHead_joinLines (headLines_plain hMime size) body
  · rw [List.tail_cons, hBody]
    exact d.bodyLength_headLines hMime size bodiless

/- The client finds the end of the response to a request. -/
theorem Request.message_ends
    {r : Request}
    {fs : FileSystem}
    (hDelimited : r.Delimited)
    (hServed : (r.response fs).isSome) :
    (r.message fs).Ends := by
  rcases Option.isSome_iff_exists.mp hServed with
    ⟨bytes, hResponse⟩
  unfold message content
  rw [hResponse, Option.getD_some]
  unfold response at hResponse
  rw [if_neg hDelimited.name] at hResponse
  by_cases hIcon : r.fileName = utf8 "favicon.ico"
  · have hHead : r.method ≠ .head :=
      fun hHead => hDelimited.icon ⟨hHead, hIcon⟩
    rw [if_pos hIcon] at hResponse
    cases hResponse
    rw [if_neg hHead, if_pos hIcon]
    apply HttpData.ends_header (by decide +kernel)
    simp [hHead]
  · rw [if_neg hIcon] at hResponse
    cases hType : r.asHttp.fileType with
    | error f =>
        rw [hType] at hResponse
        cases hResponse
    | ok mime =>
        have hMime := HttpData.fileType_mem hType
        cases hStat : fs.stat (cStr r.fileName) with
        | none =>
            simp only [hType, hStat] at hResponse
            cases hResponse
        | some size =>
            simp only [hType, hStat] at hResponse
            by_cases hHead : r.method = .head
            · rw [if_pos hHead] at hResponse
              cases hResponse
              rw [if_pos hHead]
              have hEnds :
                  Message.Ends
                    ⟨true,
                      r.asHttp.statusHeader ++
                        contentHeader mime size ++ [],
                      []⟩ :=
                r.asHttp.ends_header hMime rfl
              simpa [hHead] using hEnds
            · rw [if_neg hHead] at hResponse
              by_cases hOpen : fs.openRdonly (cStr r.fileName)
              · rw [if_pos hOpen] at hResponse
                rcases Option.map_eq_some_iff.mp hResponse with
                  ⟨file, hMap, rfl⟩
                rw [if_neg hHead, if_neg hIcon]
                simp only [Option.bind_some, hMap,
                  Option.getD_some, decide_eq_false hHead]
                apply HttpData.ends_header hMime
                exact fs.mmap_length _ _ _ hMap
              · rw [if_neg hOpen] at hResponse
                cases hResponse

end V3

end WebServer

------------------------------------------------------------
-- What One Report Does
------------------------------------------------------------

namespace WebServer

namespace V3

open StdString

/- Only an error makes the loop of `writen` fail. -/
theorem error_mem_of_failed
    {writes : List WriteResult}
    {left : Bytes}
    (hFailed : (writenLoop writes left).failed = true) :
    .error ∈ writes := by
  induction writes generalizing left with
  | nil => cases hFailed
  | cons w writes ih =>
      unfold writenLoop at hFailed
      split_ifs at hFailed with hNil
      cases w with
      | accepted n => exact List.mem_cons_of_mem _ (ih hFailed)
      | eintr => exact List.mem_cons_of_mem _ (ih hFailed)
      | eagain => cases hFailed
      | error => exact List.mem_cons_self

/-
  A string below four gigabytes is sent from the front; the
  rest is kept, unless a `write` failed.
-/
theorem Socket.writenString_cases
    (socket : Socket)
    {sbuff : Bytes}
    (hSmall : sbuff.length < 2 ^ 32) :
    (∃ socket' left,
      socket.writenString sbuff = (socket', left, false) ∧
        socket'.sent ++ left = socket.sent ++ sbuff ∧
        left.length ≤ sbuff.length ∧
        (socket.writes = [] → left = [])) ∨
      (∃ socket' left,
        socket.writenString sbuff = (socket', left, true) ∧
          .error ∈ socket.writes ∧
          socket'.sent <+: socket.sent ++ sbuff) := by
  cases hFailed :
      (writenLoop socket.writes sbuff).failed with
  | false =>
      have hOrder :=
        socket.writenString_in_order
          (WritenResult.keepsRest_of_small _ hSmall)
          fun hFail => by
            rw [hFailed] at hFail
            cases hFail
      refine .inl ⟨_, _, ?_, hOrder, ?_, ?_⟩
      · unfold writenString
        simp only [hFailed, Bool.false_eq_true, if_false]
        split_ifs <;> rfl
      · unfold writenString
        simp only [hFailed, Bool.false_eq_true, if_false]
        split_ifs
        · exact Nat.zero_le _
        · rw [List.length_drop]
          exact Nat.sub_le _ _
      · intro hWrites
        unfold writenString
        rw [hWrites]
        simp [writenLoop]
  | true =>
      have hWrite :
          socket.writenString sbuff =
            ((socket.writenString sbuff).1,
              (socket.writenString sbuff).2.1, true) := by
        unfold writenString
        simp only [hFailed, if_true]
      refine
        .inr
          ⟨_, _, hWrite, error_mem_of_failed hFailed, ?_⟩
      unfold writenString
      simp only [hFailed, if_true]
      rw [List.prefix_append_right_inj]
      exact List.take_prefix _ _

/- A connection between two requests. -/
structure HttpData.Between
    (d : HttpData) : Prop where
  state : d.state = .parseUri
  hState : d.hState = .start
  nowReadPos : d.nowReadPos = 0
  headers : d.headers = fun _ => none
  error : d.error = false
  connectionState : d.connectionState = .connected
  inBuffer : d.inBuffer = []

namespace Conn

/-
  A handler has added `bytes` to the output and sent what
  the socket takes. The connection is between two requests
  and asks for `EPOLLOUT` while output waits.
-/
structure GoesOn
    (c : Conn)
    (bytes : Bytes)
    (c' : Conn) : Prop where
  between : c'.http.Between
  output :
    c'.socket.sent ++ c'.http.outBuffer =
      c.socket.sent ++ c.http.outBuffer ++ bytes
  small : c'.http.outBuffer.length < 2 ^ 32
  lastEvents : c'.channel.lastEvents = c.channel.lastEvents
  events :
    c'.channel.events =
      if c'.http.outBuffer = [] then
        Events.none
      else
        { Events.none with epollOut := true }
  takesAll : c.socket.writes = [] → c'.http.outBuffer = []

/- A `write` has failed behind the front of the output. -/
structure Breaks
    (c : Conn)
    (bytes : Bytes)
    (c' : Conn) : Prop where
  write : .error ∈ c.socket.writes
  error : c'.http.error = true
  front :
    c'.socket.sent <+:
      c.socket.sent ++ c.http.outBuffer ++ bytes

/- Bytes were sent, and nothing else happened. -/
structure Sends
    (c c' : Conn) : Prop where
  http :
    c'.http =
      { c.http with outBuffer := c'.http.outBuffer }
  output :
    c'.socket.sent ++ c'.http.outBuffer =
      c.socket.sent ++ c.http.outBuffer
  short : c'.http.outBuffer.length ≤ c.http.outBuffer.length
  lastEvents : c'.channel.lastEvents = c.channel.lastEvents
  events :
    c'.channel.events =
      if c'.http.outBuffer = [] then
        Events.none
      else
        { Events.none with epollOut := true }
  takesAll : c.socket.writes = [] → c'.http.outBuffer = []

/- Sending, on a connection without an error. -/
theorem sends_handleWrite
    {c : Conn}
    (hError : c.http.error = false)
    (hUp : c.http.connectionState = .connected)
    (hSmall : c.http.outBuffer.length < 2 ^ 32)
    (hEvents : c.channel.events = .none) :
    c.Sends c.handleWrite ∨ c.Breaks [] c.handleWrite := by
  have hOpen :
      !c.http.error ∧
        c.http.connectionState ≠ .disconnected := by
    rw [hError, hUp]
    decide
  rcases c.socket.writenString_cases hSmall with
    ⟨socket, left, hWrite, hOrder, hShort, hAll⟩ |
      ⟨socket, left, hWrite, hFailed, hFront⟩
  · left
    unfold handleWrite
    rw [if_pos hOpen, hWrite]
    by_cases hLeft : left = []
    · subst hLeft
      exact
        ⟨rfl, hOrder, hShort, rfl, hEvents, fun _ => rfl⟩
    · simp only [Bool.false_eq_true, if_false, ne_eq, hLeft,
        not_false_eq_true, if_true]
      refine ⟨rfl, hOrder, hShort, rfl, ?_, hAll⟩
      show
        { c.channel.events with epollOut := true } =
          if left = [] then
            Events.none
          else
            { Events.none with epollOut := true }
      rw [hEvents, if_neg hLeft]
  · right
    unfold handleWrite
    rw [if_pos hOpen, hWrite]
    refine ⟨hFailed, ?_, ?_⟩
    · simp only [if_true]
      split_ifs <;> rfl
    · rw [List.append_nil]
      simp only [if_true]
      split_ifs <;> exact hFront

theorem sends_sendPending
    {c : Conn}
    (hError : c.http.error = false)
    (hUp : c.http.connectionState = .connected)
    (hSmall : c.http.outBuffer.length < 2 ^ 32)
    (hEvents : c.channel.events = .none) :
    c.Sends c.sendPending ∨ c.Breaks [] c.sendPending := by
  unfold sendPending
  split_ifs with hSend
  · exact sends_handleWrite hError hUp hSmall hEvents
  · have hOut : c.http.outBuffer = [] := by
      by_contra hOut
      exact hSend ⟨by rw [hError]; rfl, hOut⟩
    refine .inl ⟨rfl, rfl, Nat.le_refl _, rfl, ?_, ?_⟩
    · rw [hEvents, if_pos hOut]
    · exact fun _ => hOut

end Conn

/- `EPOLLOUT` was reported: more of the output is sent. -/
theorem HttpData.Between.handleWrite
    {c : Conn}
    (h : c.http.Between)
    (hSmall : c.http.outBuffer.length < 2 ^ 32)
    (hEvents : c.channel.events = .none) :
    c.GoesOn [] c.handleWrite ∨ c.Breaks [] c.handleWrite := by
  apply
    (Conn.sends_handleWrite h.error h.connectionState hSmall
      hEvents).imp_left
  intro hSends
  exact
    { between := by
        rw [hSends.http]
        exact
          ⟨h.state, h.hState, h.nowReadPos, h.headers, h.error,
            h.connectionState, h.inBuffer⟩
      output := by rw [hSends.output, List.append_nil]
      small := Nat.lt_of_le_of_lt hSends.short hSmall
      lastEvents := hSends.lastEvents
      events := hSends.events
      takesAll := hSends.takesAll }

/- What `handleRead` makes of a request that was answered. -/
theorem goesOn_of_finish
    {c c₃ : Conn}
    {bytes : Bytes}
    (hSent : c₃.socket.sent = c.socket.sent)
    (hWrites : c₃.socket.writes = c.socket.writes)
    (hChannel : c₃.channel = c.channel)
    (hOut : c.http.outBuffer = [])
    (hBytes : c₃.http.outBuffer = bytes)
    (hError : c₃.http.error = false)
    (hUp : c₃.http.connectionState = .connected)
    (hFinish : c₃.http.state = .finish)
    (hBuffer : c₃.http.inBuffer = [])
    (hEvents : c.channel.events = .none)
    (hSmall : bytes.length < 2 ^ 32) :
    ∃ c', c₃.sendPending.conclude = (false, c') ∧
      (c.GoesOn bytes c' ∨ c.Breaks bytes c') := by
  have hOutput :
      c₃.socket.sent ++ c₃.http.outBuffer =
        c.socket.sent ++ c.http.outBuffer ++ bytes := by
    rw [hSent, hBytes, hOut, List.append_nil]
  rcases
    Conn.sends_sendPending hError hUp
      (by rw [hBytes]; exact hSmall)
      (by rw [hChannel]; exact hEvents) with
    hSends | hBreaks
  · rcases c₃.sendPending.reset_frame with
      ⟨timer, timers, hReset⟩
    have hNoError : ¬ c₃.sendPending.http.error = true := by
      rw [hSends.http]
      simp [hError]
    have hState : c₃.sendPending.http.state = .finish := by
      rw [hSends.http]
      exact hFinish
    have hEmpty : c₃.sendPending.reset.http.inBuffer = [] := by
      rw [hReset]
      show c₃.sendPending.http.inBuffer = []
      rw [hSends.http]
      exact hBuffer
    refine ⟨c₃.sendPending.reset, ?_, .inl ?_⟩
    · unfold Conn.conclude
      rw [if_neg hNoError, if_pos hState]
      simp [hEmpty]
    · rw [hReset]
      refine
        { between := ?_
          output := hSends.output.trans hOutput
          small := ?_
          lastEvents := ?_
          events := hSends.events
          takesAll := ?_ }
      · rw [hSends.http]
        exact ⟨rfl, rfl, rfl, rfl, hError, hUp, hBuffer⟩
      · refine Nat.lt_of_le_of_lt hSends.short ?_
        rw [hBytes]
        exact hSmall
      · rw [← hChannel]
        exact hSends.lastEvents
      · rw [← hWrites]
        exact hSends.takesAll
  · refine ⟨c₃.sendPending, ?_, .inr ⟨?_, hBreaks.error, ?_⟩⟩
    · unfold Conn.conclude
      rw [if_pos hBreaks.error]
    · rw [← hWrites]
      exact hBreaks.write
    · rw [← hOutput, ← List.append_nil (_ ++ _)]
      exact hBreaks.front

/-
  `EPOLLIN` was reported: the request is read in one pass
  and its response sent as far as the socket takes it.
-/
theorem HttpData.Between.handleRead
    {c : Conn}
    {fs : FileSystem}
    {r : Request}
    {bytes : Bytes}
    (h : c.http.Between)
    (hOut : c.http.outBuffer = [])
    (hEvents : c.channel.events = .none)
    (hBrings : Brings c.socket.reads r.bytes)
    (hFirst : r.NamedFirst)
    (hKept : r.FieldsKept)
    (hShort : r.bytes.length < 2 ^ 31)
    (hResponse : r.response fs = some bytes)
    (hSmall : bytes.length < 2 ^ 32) :
    ∃ c', c.handleRead fs = .ok c' ∧
      (c.GoesOn bytes c' ∨ c.Breaks bytes c') := by
  have hLengths := hShort
  simp only [Request.bytes, List.length_append,
    List.length_cons] at hLengths
  rcases
    (Request.readFrom_line_iff (by omega)).mpr
      ⟨hFirst, hKept⟩ with
    ⟨hReads, fields, hNonempty, hFields, hHeaders⟩
  have hRead :=
    readStage_of_brings hBrings hShort h.connectionState
  have hBuffer :
      (c.holding (c.http.inBuffer ++ r.bytes)).http.inBuffer =
        r.line ++ 13 :: 10 :: (headerBytes r.lines ++ []) := by
    rw [h.inBuffer, List.append_nil]
    rfl
  have hBefore :=
    Conn.atHeaders_of_readsAs hRead h.state
      (HttpData.parseURI_of_cr h.nowReadPos hBuffer
        r.cr_not_mem_line)
      hReads
  have hDue :=
    Conn.atAnalysis_of_readsFields hBefore rfl h.hState rfl
      (by
        simp only [Conn.lineRead, List.length_cons,
          List.append_nil]
        omega)
      hFields hNonempty r.method_ne
  obtain ⟨c₂, hC₂⟩ :
      ∃ c₂ : Conn,
        c₂ =
          ((c.holding (c.http.inBuffer ++ r.bytes)).lineRead
            r.method r.fileName r.version
            (10 :: (headerBytes r.lines ++ []))).headersRead
              r.headers [] :=
    ⟨_, rfl⟩
  have hOwn :
      setFields
          ((c.holding (c.http.inBuffer ++ r.bytes)).lineRead
            r.method r.fileName r.version
            (10 :: (headerBytes r.lines ++
              []))).http.headers fields =
        r.headers := by
    show setFields c.http.headers fields = r.headers
    rw [h.headers, hHeaders]
  rw [hOwn, List.drop_nil, ← hC₂] at hDue
  have hQueued : c₂.http.outBuffer = [] := by
    rw [hC₂]
    exact hOut
  rcases
    analysisRequest_of_response (by rw [hC₂]; rfl)
      (by rw [hC₂]; rfl) (by rw [hC₂]; rfl) hQueued
      hResponse with
    ⟨keepAlive, hCall⟩
  obtain ⟨c₃, hC₃⟩ :
      ∃ c₃ : Conn,
        c₃ =
          { c₂.analysed.answered keepAlive bytes with
            http :=
              { (c₂.analysed.answered keepAlive bytes).http with
                state := .finish } } :=
    ⟨_, rfl⟩
  have hState : c₂.http.state = .analysis := by
    rw [hC₂]
    rfl
  have hStages : c.stages fs = .ok c₃ := by
    rw [Conn.stages_eq, hDue, hC₃]
    simp only [Except.bind, Flow.andThen,
      Conn.analysisStage]
    rw [if_pos hState, hCall]
    rfl
  obtain ⟨c', hConclude, hResult⟩ :
      ∃ c', c₃.sendPending.conclude = (false, c') ∧
        (c.GoesOn bytes c' ∨ c.Breaks bytes c') := by
    apply goesOn_of_finish _ _ _ hOut _ _ _ _ _ hEvents hSmall
    all_goals rw [hC₃, hC₂]
    · rfl
    · rfl
    · rfl
    · rfl
    · exact h.error
    · exact h.connectionState
    · rfl
  refine ⟨c', ?_, hResult⟩
  have hPass : c.pass fs = .ok (false, c') := by
    rw [Conn.pass_eq, hStages]
    simp only [Except.map, hConclude]
  unfold Conn.handleRead Conn.readDepth Conn.handleReadAt
  simp only [hPass]

end V3

end WebServer

------------------------------------------------------------
-- What The Others Leave Alone
------------------------------------------------------------

namespace WebServer

namespace V3

namespace EventLoop

/-
  Between two states nothing was sent on a connection. If it
  is still held, it is as it was.
-/
structure Leaves
    (s t : EventLoop)
    (id : ConnId) : Prop where
  sent :
    (t.objects id).map HttpObject.sent =
      (s.objects id).map HttpObject.sent
  held :
    ∀ fd, t.fd2http fd = some id →
      s.fd2http fd = some id ∧
        t.objects id = s.objects id ∧
        t.epoll fd = s.epoll fd

/- Moreover it is still held if it was. -/
structure Spares
    (s t : EventLoop)
    (id : ConnId) : Prop where
  leaves : s.Leaves t id
  keeps : ∀ fd, s.fd2http fd = some id →
    t.fd2http fd = some id

theorem Leaves.refl
    (s : EventLoop)
    (id : ConnId) :
    s.Leaves s id where
  sent := rfl
  held := fun _ hHeld => ⟨hHeld, rfl, rfl⟩

theorem Leaves.trans
    {s t u : EventLoop}
    {id : ConnId}
    (h : s.Leaves t id)
    (h' : t.Leaves u id) :
    s.Leaves u id where
  sent := h'.sent.trans h.sent
  held := by
    intro fd hHeld
    rcases h'.held fd hHeld with ⟨hHeld', hObj', hReg'⟩
    rcases h.held fd hHeld' with ⟨hFirst, hObj, hReg⟩
    exact ⟨hFirst, hObj'.trans hObj, hReg'.trans hReg⟩

/- Another object is stored. -/
theorem spares_put
    {s : EventLoop}
    {fd : Fd}
    {id other : ConnId}
    {epoll : Fd → Option Registration}
    (hHeld : s.fd2http fd = some other)
    (hNe : id ≠ other)
    (hOthers : ∀ fd', fd' ≠ fd → epoll fd' = s.epoll fd')
    (timers : TimerManager)
    (obj : HttpObject) :
    s.Spares
      ({ s with
          timers := timers
          epoll := epoll }.put other obj)
      id := by
  have hObj :
      Function.update s.objects other (some obj) id =
        s.objects id :=
    Function.update_of_ne hNe _ _
  refine ⟨⟨congrArg (Option.map HttpObject.sent) hObj, ?_⟩,
    fun _ hOwn => hOwn⟩
  intro fd' hOwn
  refine ⟨hOwn, hObj, hOthers fd' ?_⟩
  rintro rfl
  exact hNe (Option.some.inj (hOwn.symm.trans hHeld))

/- Another connection is closed. -/
theorem spares_handleClose
    {s : EventLoop}
    {id other : ConnId}
    {obj : HttpObject}
    {epoll : Fd → Option Registration}
    (hHeld : s.fd2http obj.fd = some other)
    (hNe : id ≠ other)
    (hOthers :
      ∀ fd', fd' ≠ obj.fd → epoll fd' = s.epoll fd')
    (timers : TimerManager) :
    s.Spares
      ({ s with
          timers := timers
          epoll := epoll }.handleClose other obj)
      id := by
  have hObj :
      Function.update s.objects other
          (some
            { obj with
              http :=
                { obj.http with
                  connectionState := .disconnected } }) id =
        s.objects id :=
    Function.update_of_ne hNe _ _
  refine ⟨⟨congrArg (Option.map HttpObject.sent) hObj, ?_⟩,
    ?_⟩
  · intro fd' hOwn
    change Function.update s.fd2http obj.fd none fd' =
      some id at hOwn
    have hFd : fd' ≠ obj.fd := by
      rintro rfl
      rw [Function.update_self] at hOwn
      cases hOwn
    rw [Function.update_of_ne hFd] at hOwn
    refine ⟨hOwn, hObj, ?_⟩
    show Function.update epoll obj.fd none fd' = s.epoll fd'
    rw [Function.update_of_ne hFd]
    exact hOthers fd' hFd
  · intro fd' hOwn
    have hFd : fd' ≠ obj.fd := by
      rintro rfl
      exact hNe (Option.some.inj (hOwn.symm.trans hHeld))
    show Function.update s.fd2http obj.fd none fd' = some id
    rw [Function.update_of_ne hFd]
    exact hOwn

/- The report on another connection is handled. -/
theorem Wired.spares_handleEvents
    {s t : EventLoop}
    {fd : Fd}
    {revents : Events}
    {fs : FileSystem}
    {reads : List ReadResult}
    {writes : List WriteResult}
    {now : Timeval}
    {reg : Registration}
    {id : ConnId}
    (h : s.Wired)
    (hReg : s.epoll fd = some reg)
    (hOther : s.fd2http fd ≠ some id)
    (hStep :
      s.handleEvents fd revents fs reads writes now =
        some t) :
    s.Spares t id := by
  rcases h.handleEvents_cases hReg hStep with
    ⟨other, obj, c, hHeld, hObj, hFd, hCase⟩
  have hNe : id ≠ other := by
    rintro rfl
    exact hOther hHeld
  have hKept : ∀ fd', fd' ≠ fd →
      (s.report fd).epoll fd' = s.epoll fd' := by
    intro fd' hNe'
    rw [report_eq hReg]
    exact Function.update_of_ne hNe' _ _
  rcases hCase with ⟨_, rfl⟩ | ⟨_, rfl⟩
  · exact spares_put hHeld hNe hKept c.timers _
  · have hReported :
        (s.report fd).epoll obj.fd = some reg.reported := by
      rw [report_eq hReg, hFd]
      exact Function.update_self _ _ _
    rcases handleConn_cases hReported other c now with
      ⟨_, _, timeout, hNext⟩ | ⟨_, hNext⟩ | ⟨_, hNext⟩
    · rw [hNext]
      refine spares_put hHeld hNe ?_ _ _
      intro fd' hNe'
      rw [hFd]
      exact registers_other hReg hNe' _ _
    · rw [hNext]
      exact spares_put hHeld hNe hKept _ _
    · rw [hNext]
      subst hFd
      exact
        @spares_handleClose s id other
          (obj.after c.seperateTimer true) _ hHeld hNe hKept _

theorem Wired.spares_newEvent
    {s : EventLoop}
    {fd : Fd}
    {id : ConnId}
    {obj : HttpObject}
    (h : s.Wired)
    (hObj : s.objects id = some obj)
    (hUnused : s.Unused fd)
    (now : Timeval) :
    s.Spares (s.newEvent fd now) id := by
  rw [newEvent_eq (h.epoll_of_unused hUnused)]
  have hNe : id ≠ s.nextId :=
    Nat.ne_of_lt (h.known id obj hObj).1
  have hSame :
      (s.opened fd now).objects id = s.objects id :=
    Function.update_of_ne hNe _ _
  refine ⟨⟨congrArg (Option.map HttpObject.sent) hSame, ?_⟩,
    ?_⟩
  · intro fd' hOwn
    change Function.update s.fd2http fd (some s.nextId) fd' =
      some id at hOwn
    have hFd : fd' ≠ fd := by
      rintro rfl
      rw [Function.update_self] at hOwn
      exact hNe (Option.some.inj hOwn).symm
    rw [Function.update_of_ne hFd] at hOwn
    exact ⟨hOwn, hSame, Function.update_of_ne hFd _ _⟩
  · intro fd' hOwn
    have hFd : fd' ≠ fd := by
      rintro rfl
      rw [h.slots.fd2http_of_unused hUnused] at hOwn
      cases hOwn
    show Function.update s.fd2http fd (some s.nextId) fd' =
      some id
    rw [Function.update_of_ne hFd]
    exact hOwn

theorem Wired.leaves_closeExpired
    {s : EventLoop}
    (h : s.Wired)
    (id other : ConnId) :
    s.Leaves (s.closeExpired other) id := by
  unfold EventLoop.closeExpired
  cases hObj : s.objects other with
  | none => exact .refl s id
  | some obj =>
      simp only
      have hGone : ∀ fd,
          (s.handleClose other obj).fd2http fd = some id →
            fd ≠ obj.fd ∧ s.fd2http fd = some id := by
        intro fd hOwn
        change Function.update s.fd2http obj.fd none fd =
          some id at hOwn
        have hFd : fd ≠ obj.fd := by
          rintro rfl
          rw [Function.update_self] at hOwn
          cases hOwn
        rw [Function.update_of_ne hFd] at hOwn
        exact ⟨hFd, hOwn⟩
      by_cases hSame : id = other
      · subst hSame
        refine ⟨?_, ?_⟩
        · show
            (Function.update s.objects id _ id).map _ = _
          rw [Function.update_self, hObj]
          rfl
        · intro fd hOwn
          rcases hGone fd hOwn with ⟨hFd, hHeld⟩
          rcases h.object fd id hHeld with
            ⟨obj', hObj', hFd'⟩
          rw [hObj] at hObj'
          cases hObj'
          exact absurd hFd'.symm hFd
      · have hKept :
            (s.handleClose other obj).objects id =
              s.objects id :=
          Function.update_of_ne hSame _ _
        refine
          ⟨congrArg (Option.map HttpObject.sent) hKept, ?_⟩
        intro fd hOwn
        rcases hGone fd hOwn with ⟨hFd, hHeld⟩
        exact
          ⟨hHeld, hKept, Function.update_of_ne hFd _ _⟩

/- Expired connections are closed, this one or others. -/
theorem Wired.leaves_handleExpired
    {s : EventLoop}
    (h : s.Wired)
    (id : ConnId)
    (policy : TopPolicy)
    (clock : Nat → Timeval) :
    s.Leaves (s.handleExpired policy clock) id := by
  have hAll : ∀ (closed : List ConnId) (t : EventLoop),
      t.Wired →
        t.Leaves (closed.foldl EventLoop.closeExpired t) id := by
    intro closed
    induction closed with
    | nil => exact fun t _ => .refl t id
    | cons other closed ih =>
        intro t hWired
        exact
          (hWired.leaves_closeExpired id other).trans
            (ih _ (hWired.closeExpired other))
  have hTimers : ∀ timers : TimerManager,
      s.Leaves { s with timers := timers } id :=
    fun _ => ⟨rfl, fun _ hOwn => ⟨hOwn, rfl, rfl⟩⟩
  exact
    (hTimers _).trans
      (hAll (s.timers.handleExpiredEvent policy clock).2 _
        (h.setTimers _))

end EventLoop

end V3

end WebServer

------------------------------------------------------------
-- The Session
------------------------------------------------------------

namespace WebServer

namespace V3

open StdString MessageFraming

/-
  One client of a loop. `waiting` is a request that the loop
  has not read, `served` are those it has read, each with
  the files as it found them. `cut` records that a timer or
  a failed `write` may have ended the connection.
-/
structure Client where
  loop : EventLoop
  id : ConnId
  served : List (Request × FileSystem)
  waiting : Option Request
  cut : Bool

/- The client asks, or the loop takes a step. -/
inductive ClientEvent
| ask (r : Request)
| loop (e : LoopEvent)

/- One report, and the answers of the calls it leads to. -/
abbrev ClientEvent.report
    (fd : Fd)
    (revents : Events)
    (fs : FileSystem)
    (reads : List ReadResult)
    (writes : List WriteResult)
    (now : Timeval) : ClientEvent :=
  .loop (.handleEvents fd revents fs reads writes now)

namespace Client

/- A client whose connection has just been opened. -/
def connected
    (s : EventLoop)
    (fd : Fd)
    (now : Timeval) : Client where
  loop := s.newEvent fd now
  id := s.nextId
  served := []
  waiting := none
  cut := false

def asked
    (s : Client) : List Request :=
  s.served.map Prod.fst ++ s.waiting.toList

/- The bytes that its socket has accepted. -/
def received
    (s : Client) : Bytes :=
  ((s.loop.objects s.id).map HttpObject.sent).getD []

/- The bodies that the client reads, and what is left. -/
def reading
    (s : Client) : List Bytes × Bytes :=
  readMessages
    (s.asked.map fun r => decide (r.method = .head))
    s.received

/- It has read a response to each of its requests. -/
def HasAll
    (s : Client) : Prop :=
  s.reading.1.length = s.asked.length

instance decidableHasAll
    (s : Client) : Decidable s.HasAll :=
  inferInstanceAs (Decidable (_ = _))

/- The descriptor is that of the client's connection. -/
def Own
    (s : Client)
    (fd : Fd) : Prop :=
  s.loop.fd2http fd = some s.id

instance decidableOwn
    (s : Client)
    (fd : Fd) : Decidable (s.Own fd) :=
  inferInstanceAs (Decidable (_ = _))

/- The loop still holds the connection. -/
def Connected
    (s : Client) : Prop :=
  ∃ fd, s.Own fd

/-
  What `epoll_wait` and `read` report of a peer that keeps
  its end open: no error, and readable only when its request
  has arrived.
-/
def Peer
    (s : Client) :
    LoopEvent → Prop
| .handleEvents fd revents _ reads _ _ =>
    s.Own fd →
      revents.epollHup = false ∧
        revents.epollErr = false ∧
        (revents.epollIn = true →
          ∃ r, s.waiting = some r ∧ Brings reads r.bytes)
| _ => True

/- The files that the loop finds for the waiting request. -/
def took
    (s : Client) :
    LoopEvent → Option FileSystem
| .handleEvents fd revents fs _ _ _ =>
    if s.Own fd ∧ revents.epollIn = true then
      some fs
    else
      none
| _ => none

/- The request that a step reads, with those files. -/
def reads
    (s : Client)
    (e : LoopEvent) : Option (Request × FileSystem) :=
  s.waiting.bind fun r => (s.took e).map fun fs => (r, fs)

/- A step that may end the connection. -/
def mayEnd
    (s : Client) :
    LoopEvent → Bool
| .handleEvents fd _ _ _ writes _ =>
    decide (s.Own fd ∧ .error ∈ writes)
| .handleExpired _ _ => true
| .newEvent _ _ => false

/- The client after a step of the loop. -/
def after
    (s : Client)
    (e : LoopEvent)
    (loop : EventLoop) : Client where
  loop := loop
  id := s.id
  served := s.served ++ (s.reads e).toList
  waiting := if (s.reads e).isSome then none else s.waiting
  cut := s.cut || s.mayEnd e

end Client

/-
  A client that asks whenever it has read everything, and
  the loop that serves it among others.
-/
def session : Machine Client ClientEvent where
  enabled s
  | .ask _ => s.HasAll
  | .loop e => eventLoop.enabled s.loop e ∧ s.Peer e
  step s
  | .ask r => some { s with waiting := some r }
  | .loop e => (eventLoop.step s.loop e).map (s.after e)

namespace Client

/-
  What every step must meet. A request is one that the
  server reads as it was meant, and its response has an end.
  When it is read, its file can be served.
-/
def Meets
    (s : Client) :
    ClientEvent → Prop
| .ask r => r.Fit
| .loop e =>
    ∀ p, s.reads e = some p →
      ∃ bytes,
        p.1.response p.2 = some bytes ∧
          bytes.length < 2 ^ 32

/-
  One report on which the socket takes everything gives the
  client all it has asked for.
-/
def OneReportAway
    (s : Client) : Prop :=
  ∃ fd revents reads,
    s.Own fd ∧
      ∀ fs now,
        session.enabled s
            (.report fd revents fs reads [] now) ∧
          (s.Meets (.report fd revents fs reads [] now) →
            ∃ t,
              session.step s
                  (.report fd revents fs reads [] now) =
                some t ∧
              t.Connected ∧
              t.HasAll)

/-
  What the client can rely on. It reads the files it asked
  for, in order. Its connection stays until a timer or a
  failed `write`. While it waits it is a report away from
  its response, and no report on it makes a handler fail.
-/
structure Sound
    (s : Client) : Prop where
  reads :
    s.reading.1 <+: s.served.map fun p => p.1.content p.2
  stays : s.cut = false → s.Connected
  goesOn : s.Connected → ¬ s.HasAll → s.OneReportAway
  succeeds :
    ∀ fd revents fs reads writes now,
      s.Own fd →
        session.enabled s
            (.report fd revents fs reads writes now) →
          s.Meets (.report fd revents fs reads writes now) →
            ∃ t,
              session.step s
                  (.report fd revents fs reads writes now) =
                some t

end Client

end V3

end WebServer

------------------------------------------------------------
-- What Holds Between Steps
------------------------------------------------------------

namespace WebServer

namespace V3

open StdString MessageFraming

namespace EventLoop

/- `handleConn` on a connection that goes on. -/
theorem handleConn_goesOn
    {s : EventLoop}
    {reg : Registration}
    {obj : HttpObject}
    {c : Conn}
    (hReg : s.epoll obj.fd = some reg)
    (hArmed : reg.armed = true)
    (hLast : c.channel.lastEvents = reg.events)
    (hError : c.http.error = false)
    (hUp : c.http.connectionState = .connected)
    (hEvents :
      c.channel.events =
        if c.http.outBuffer = [] then
          Events.none
        else
          { Events.none with epollOut := true })
    (id : ConnId)
    (now : Timeval) :
    ∃ t addr,
      (s.report obj.fd).handleConn id obj c now = t ∧
        t.objects id = some (obj.updated c addr) ∧
        t.fd2http = s.fd2http ∧
        t.epoll obj.fd = some ⟨c.watched, true⟩ ∧
        c.watched =
          if c.http.outBuffer = [] then
            Events.inEt
          else
            Events.outEt := by
  have hWatched :
      c.watched =
        if c.http.outBuffer = [] then
          Events.inEt
        else
          Events.outEt := by
    unfold Conn.watched
    rw [hEvents]
    split_ifs <;> first | rfl | contradiction
  have hReported :
      (s.report obj.fd).epoll obj.fd = some reg.reported := by
    rw [report_eq hReg]
    exact Function.update_self _ _ _
  have hOneShot : c.watched.epollOneShot = false := by
    rw [hWatched]
    split_ifs <;> rfl
  rcases handleConn_cases hReported id c now with
    ⟨_, _, timeout, hCase⟩ | ⟨hHalf, _⟩ | ⟨hCloses, _⟩
  · refine ⟨_, _, hCase, Function.update_self _ _ _, ?_, ?_,
      hWatched⟩
    · rw [report_eq hReg]
      rfl
    · exact registers_self hReg hArmed hLast hOneShot
  · have hDown := hHalf.2.1
    rw [hUp] at hDown
    cases hDown
  · exact absurd ⟨hError, hUp⟩ hCloses.1

/- `handleConn` on a connection with an error. -/
theorem handleConn_breaks
    {s : EventLoop}
    {reg : Registration}
    {obj : HttpObject}
    {c : Conn}
    (hReg : s.epoll obj.fd = some reg)
    (hError : c.http.error = true)
    (id : ConnId)
    (now : Timeval) :
    ∃ t obj',
      (s.report obj.fd).handleConn id obj c now = t ∧
        t.objects id = some obj' ∧
        obj'.fd = obj.fd ∧
        obj'.sent = c.socket.sent ∧
        t.fd2http obj.fd = none := by
  have hReported :
      (s.report obj.fd).epoll obj.fd = some reg.reported := by
    rw [report_eq hReg]
    exact Function.update_self _ _ _
  rcases c.seperateTimer_frame with ⟨timer, timers, hSep⟩
  rcases handleConn_cases hReported id c now with
    ⟨hNone, _⟩ | ⟨hHalf, _⟩ | ⟨_, hCase⟩
  · rw [hError] at hNone
    cases hNone
  · have hNone := hHalf.1
    rw [hError] at hNone
    cases hNone
  · refine ⟨_, _, hCase, Function.update_self _ _ _, rfl, ?_,
      Function.update_self _ _ _⟩
    rw [hSep]
    rfl

end EventLoop

namespace Client

/- The responses to the requests that were read. -/
def messages
    (s : Client) : List Message :=
  s.served.map fun p => p.1.message p.2

def answers
    (s : Client) : Bytes :=
  s.messages.flatMap Message.text

/- The connection while the loop holds it. -/
structure Ready
    (s : Client)
    (fd : Fd)
    (obj : HttpObject)
    (reg : Registration) : Prop where
  object : s.loop.objects s.id = some obj
  registration : s.loop.epoll fd = some reg
  between : obj.http.Between
  output : obj.sent ++ obj.http.outBuffer = s.answers
  small : obj.http.outBuffer.length < 2 ^ 32
  armed : reg.armed = true
  lastEvents : obj.channel.lastEvents = reg.events
  events :
    if obj.http.outBuffer = [] then
      reg.events = .defaultEvent ∨ reg.events = .inEt
    else
      reg.events = .outEt
  unread : s.waiting ≠ none → obj.http.outBuffer = []

/- The invariant of a session. -/
structure Kept
    (s : Client) : Prop where
  wired : s.loop.Wired
  object : ∃ obj, s.loop.objects s.id = some obj
  front : s.received <+: s.answers
  served :
    ∀ p ∈ s.served,
      p.1.Delimited ∧ (p.1.response p.2).isSome
  waiting : ∀ r, s.waiting = some r → r.Fit
  ready : ∀ fd, s.Own fd → ∃ obj reg, s.Ready fd obj reg
  stays : s.cut = false → s.Connected

theorem Kept.ends
    {s : Client}
    (h : s.Kept) :
    ∀ m ∈ s.messages, m.Ends := by
  intro m hMem
  rcases List.mem_map.mp hMem with ⟨p, hServed, rfl⟩
  rcases h.served p hServed with ⟨hDelimited, hSome⟩
  exact Request.message_ends hDelimited hSome

/- What the client knows of the responses it waits for. -/
theorem asked_bodiless
    (s : Client) :
    (s.asked.map fun r => decide (r.method = .head)) =
      s.messages.map Message.bodiless ++
        s.waiting.toList.map
          fun r => decide (r.method = .head) := by
  unfold asked messages
  rw [List.map_append, List.map_map, List.map_map]
  rfl

/- The client reads the responses that have arrived. -/
theorem Kept.reading_front
    {s : Client}
    (h : s.Kept) :
    ∃ got rest,
      got <+: s.messages ∧
        s.received = got.flatMap Message.text ++ rest ∧
        s.reading.1 = got.map Message.body ∧
        (got = s.messages → rest = []) := by
  have hFront :=
    readMessages_front h.ends h.front
      (s.waiting.toList.map
        fun r => decide (r.method = .head))
  rcases hFront with
    ⟨got, rest, hGot, hReceived, hRead, hAll⟩
  refine ⟨got, rest, hGot, hReceived, ?_, hAll⟩
  unfold reading
  rw [asked_bodiless, hRead]

/- The client lacks nothing when all has arrived. -/
theorem Kept.hasAll_iff
    {s : Client}
    (h : s.Kept) :
    s.HasAll ↔ s.waiting = none ∧ s.received = s.answers := by
  have hLength :
      s.asked.length =
        s.messages.length + s.waiting.toList.length := by
    unfold asked messages
    rw [List.length_append, List.length_map, List.length_map]
  unfold HasAll
  constructor
  · intro hAll
    rcases h.reading_front with
      ⟨got, rest, hGot, hReceived, hRead, hRest⟩
    have hShort := hGot.length_le
    rw [hRead, List.length_map, hLength] at hAll
    have hWhole : got = s.messages :=
      hGot.eq_of_length (by omega)
    refine ⟨?_, ?_⟩
    · cases hWaiting : s.waiting with
      | none => rfl
      | some r =>
          rw [hWaiting, Option.toList_some,
            List.length_singleton] at hAll
          omega
    · rw [hReceived, hRest hWhole, hWhole, List.append_nil]
      rfl
  · rintro ⟨hWaiting, hReceived⟩
    have hRead :=
      readMessages_all h.ends
        (s.waiting.toList.map
          fun r => decide (r.method = .head))
    unfold reading
    rw [asked_bodiless, hReceived, answers, hRead, hLength,
      hWaiting, List.length_map]
    rfl

/- The bytes received are those that the socket took. -/
theorem received_of_object
    {s : Client}
    {obj : HttpObject}
    (hObj : s.loop.objects s.id = some obj) :
    s.received = obj.sent := by
  unfold received
  rw [hObj]
  rfl

end Client

end V3

end WebServer

------------------------------------------------------------
-- Steps Of The Session
------------------------------------------------------------

namespace WebServer

namespace V3

open StdString MessageFraming

namespace Conn

/- Only `handleRead` and `handleConn` are called. -/
theorem handleEvents_readable
    {c c' : Conn}
    {fs : FileSystem}
    {revents : Events}
    (hIn : revents.epollIn = true)
    (hOut : revents.epollOut = false)
    (hErr : revents.epollErr = false)
    (hCall : c.clearEvents.handleRead fs = .ok c') :
    c.handleEvents fs revents = .ok (true, c') := by
  have hReads : revents.callsRead = true := by
    unfold Events.callsRead
    rw [hIn]
    rfl
  unfold handleEvents
  rw [hIn, hOut, hErr, hReads]
  simp only [Bool.not_true, Bool.and_false,
    Bool.false_eq_true, if_false, if_true, hCall]
  rfl

/- Only `handleWrite` and `handleConn` are called. -/
theorem handleEvents_writable
    {c : Conn}
    {revents : Events}
    (hReads : revents.callsRead = false)
    (hOut : revents.epollOut = true)
    (hHup : revents.epollHup = false)
    (hErr : revents.epollErr = false)
    (fs : FileSystem) :
    c.handleEvents fs revents =
      .ok (true, c.clearEvents.handleWrite) := by
  unfold handleEvents
  rw [hReads, hOut, hHup, hErr]
  simp only [Bool.false_and, Bool.false_eq_true, if_false,
    if_true]
  rfl

end Conn

namespace Client

/-
  The handlers added `bytes` to what the client is owed, and
  the connection waits for its next event.
-/
theorem Ready.afterGoesOn
    {s : Client}
    {obj : HttpObject}
    {reg : Registration}
    {e : LoopEvent}
    {c : Conn}
    {bytes : Bytes}
    {reads : List ReadResult}
    {writes : List WriteResult}
    {now : Timeval}
    (hReady : s.Ready obj.fd obj reg)
    (hOwn : s.Own obj.fd)
    (hGoes :
      (obj.conn s.loop.timers reads
        writes).clearEvents.GoesOn bytes c)
    (hWired :
      ((s.loop.report obj.fd).handleConn s.id obj c
        now).Wired)
    (hAnswers :
      ∀ t, (s.after e t).answers = s.answers ++ bytes)
    (hWaiting : ∀ t, (s.after e t).waiting = none)
    (hServed :
      ∀ t, ∀ p ∈ (s.after e t).served,
        p.1.Delimited ∧ (p.1.response p.2).isSome) :
    (s.after e
        ((s.loop.report obj.fd).handleConn s.id obj c
          now)).Kept ∧
      (writes = [] →
        (s.after e
            ((s.loop.report obj.fd).handleConn s.id obj c
              now)).Connected ∧
          (s.after e
            ((s.loop.report obj.fd).handleConn s.id obj c
              now)).HasAll) := by
  have hFound :
      obj.sent ++ obj.http.outBuffer ++ bytes =
        s.answers ++ bytes := by
    rw [hReady.output]
  rcases
    EventLoop.handleConn_goesOn hReady.registration
      hReady.armed
      (hGoes.lastEvents.trans hReady.lastEvents)
      hGoes.between.error hGoes.between.connectionState
      hGoes.events s.id now with
    ⟨t, addr, hNext, hObj, hHeld, hReg, hWatched⟩
  rw [hNext] at hWired ⊢
  have hOwn' : (s.after e t).Own obj.fd := by
    show t.fd2http obj.fd = some s.id
    rw [hHeld]
    exact hOwn
  have hReceived :
      (s.after e t).received = c.socket.sent := by
    rw [received_of_object (s := s.after e t) hObj]
    rfl
  have hOutput :
      c.socket.sent ++ c.http.outBuffer =
        (s.after e t).answers := by
    rw [hAnswers, ← hFound]
    exact hGoes.output
  have hKept : (s.after e t).Kept := by
    refine
      { wired := hWired
        object := ⟨_, hObj⟩
        front := ?_
        served := hServed t
        waiting := ?_
        ready := ?_
        stays := fun _ => ⟨obj.fd, hOwn'⟩ }
    · rw [hReceived, ← hOutput]
      exact List.prefix_append _ _
    · intro r hSome
      rw [hWaiting t] at hSome
      cases hSome
    · intro fd hFd
      have hSame : fd = obj.fd := by
        rcases hWired.object fd s.id hFd with
          ⟨obj', hObj', hFd'⟩
        rw [hObj] at hObj'
        cases hObj'
        exact hFd'.symm
      subst hSame
      refine
        ⟨_, _,
          { object := hObj
            registration := hReg
            between := ?_
            output := hOutput
            small := hGoes.small
            armed := rfl
            lastEvents := rfl
            events := ?_
            unread := fun hSome =>
              absurd (hWaiting t) hSome }⟩
      · exact
          ⟨hGoes.between.state, hGoes.between.hState,
            hGoes.between.nowReadPos,
            hGoes.between.headers, hGoes.between.error,
            hGoes.between.connectionState,
            hGoes.between.inBuffer⟩
      · show
          if c.http.outBuffer = [] then
            c.watched = .defaultEvent ∨ c.watched = .inEt
          else
            c.watched = .outEt
        rw [hWatched]
        split_ifs
        · exact .inr rfl
        · rfl
  refine ⟨hKept, fun hAll => ⟨⟨obj.fd, hOwn'⟩, ?_⟩⟩
  rw [hKept.hasAll_iff]
  refine ⟨hWaiting t, ?_⟩
  rw [hReceived, ← hOutput, hGoes.takesAll hAll,
    List.append_nil]

/- A write failed, and `handleConn` ends the connection. -/
theorem Ready.afterBreaks
    {s : Client}
    {obj : HttpObject}
    {reg : Registration}
    {e : LoopEvent}
    {c : Conn}
    {bytes : Bytes}
    {reads : List ReadResult}
    {writes : List WriteResult}
    {now : Timeval}
    (hReady : s.Ready obj.fd obj reg)
    (hBreaks :
      (obj.conn s.loop.timers reads
        writes).clearEvents.Breaks bytes c)
    (hWired :
      ((s.loop.report obj.fd).handleConn s.id obj c
        now).Wired)
    (hAnswers :
      ∀ t, (s.after e t).answers = s.answers ++ bytes)
    (hWaiting : ∀ t, (s.after e t).waiting = none)
    (hServed :
      ∀ t, ∀ p ∈ (s.after e t).served,
        p.1.Delimited ∧ (p.1.response p.2).isSome)
    (hEnds : .error ∈ writes → s.mayEnd e = true) :
    (s.after e
      ((s.loop.report obj.fd).handleConn s.id obj c
        now)).Kept := by
  have hFound :
      obj.sent ++ obj.http.outBuffer ++ bytes =
        s.answers ++ bytes := by
    rw [hReady.output]
  rcases
    EventLoop.handleConn_breaks hReady.registration
      hBreaks.error s.id now with
    ⟨t, obj', hNext, hObj, hFd, hSent, hGone⟩
  rw [hNext] at hWired ⊢
  have hFailed : .error ∈ writes := hBreaks.write
  refine
    { wired := hWired
      object := ⟨_, hObj⟩
      front := ?_
      served := hServed t
      waiting := ?_
      ready := ?_
      stays := ?_ }
  · rw [received_of_object hObj, hSent, hAnswers,
      ← hFound]
    exact hBreaks.front
  · intro r hSome
    rw [hWaiting t] at hSome
    cases hSome
  · intro fd hHeld
    rcases hWired.object fd s.id hHeld with
      ⟨obj'', hObj'', hFd''⟩
    rw [hObj] at hObj''
    cases hObj''
    have hNone : t.fd2http fd = none := by
      rw [← hFd'', hFd]
      exact hGone
    have hSome : t.fd2http fd = some s.id := hHeld
    rw [hNone] at hSome
    cases hSome
  · intro hCut
    have hYes : (s.after e t).cut = true := by
      show (s.cut || s.mayEnd e) = true
      rw [hEnds hFailed, Bool.or_true]
    rw [hYes] at hCut
    cases hCut

/-
  The loop has handled a report on the connection, and the
  handlers added `bytes` to what the client is owed.
-/
theorem Ready.afterReport
    {s : Client}
    {obj : HttpObject}
    {reg : Registration}
    {e : LoopEvent}
    {c : Conn}
    {bytes : Bytes}
    {reads : List ReadResult}
    {writes : List WriteResult}
    {now : Timeval}
    (hReady : s.Ready obj.fd obj reg)
    (hOwn : s.Own obj.fd)
    (hResult :
      (obj.conn s.loop.timers reads
          writes).clearEvents.GoesOn bytes c ∨
        (obj.conn s.loop.timers reads
          writes).clearEvents.Breaks bytes c)
    (hWired :
      ((s.loop.report obj.fd).handleConn s.id obj c
        now).Wired)
    (hAnswers :
      ∀ t, (s.after e t).answers = s.answers ++ bytes)
    (hWaiting : ∀ t, (s.after e t).waiting = none)
    (hServed :
      ∀ t, ∀ p ∈ (s.after e t).served,
        p.1.Delimited ∧ (p.1.response p.2).isSome)
    (hEnds : .error ∈ writes → s.mayEnd e = true) :
    (s.after e
        ((s.loop.report obj.fd).handleConn s.id obj c
          now)).Kept ∧
      (writes = [] →
        (s.after e
            ((s.loop.report obj.fd).handleConn s.id obj c
              now)).Connected ∧
          (s.after e
            ((s.loop.report obj.fd).handleConn s.id obj c
              now)).HasAll) := by
  rcases hResult with hGoes | hBreaks
  · exact
      hReady.afterGoesOn hOwn hGoes hWired hAnswers hWaiting
        hServed
  · have hKept :=
      hReady.afterBreaks hBreaks hWired hAnswers hWaiting
        hServed hEnds
    refine ⟨hKept, fun hAll => ?_⟩
    have hFailed : .error ∈ writes := hBreaks.write
    rw [hAll] at hFailed
    cases hFailed

/- A connection that has just been opened. -/
theorem kept_connected
    {loop : EventLoop}
    {fd : Fd}
    (hWired : loop.Wired)
    (hUnused : loop.Unused fd)
    (now : Timeval) :
    (connected loop fd now).Kept := by
  have hOpened :
      loop.newEvent fd now = loop.opened fd now :=
    EventLoop.newEvent_eq (hWired.epoll_of_unused hUnused) now
  have hObj :
      (connected loop fd now).loop.objects loop.nextId =
        some (.opened fd loop.timers.nextAddr) := by
    show (loop.newEvent fd now).objects loop.nextId = _
    rw [hOpened]
    exact Function.update_self _ _ _
  have hReg :
      (connected loop fd now).loop.epoll fd =
        some ⟨.defaultEvent, true⟩ := by
    show (loop.newEvent fd now).epoll fd = _
    rw [hOpened]
    exact Function.update_self _ _ _
  have hNext :
      (connected loop fd now).loop.Wired :=
    hWired.newEvent hUnused now
  refine
    { wired := hNext
      object := ⟨_, hObj⟩
      front := ?_
      served := fun _ hMem => absurd hMem List.not_mem_nil
      waiting := fun _ hNone => by cases hNone
      ready := ?_
      stays := fun _ => ⟨fd, ?_⟩ }
  · rw [received_of_object hObj]
    exact List.nil_prefix
  · intro fd' hOwn
    have hSame : fd' = fd := by
      rcases hNext.object fd' loop.nextId hOwn with
        ⟨obj, hObj', hFd⟩
      rw [hObj] at hObj'
      cases hObj'
      exact hFd.symm
    subst hSame
    exact
      ⟨_, _,
        { object := hObj
          registration := hReg
          between := ⟨rfl, rfl, rfl, rfl, rfl, rfl, rfl⟩
          output := rfl
          small := Nat.two_pow_pos 32
          armed := rfl
          lastEvents := rfl
          events := .inl rfl
          unread := fun _ => rfl }⟩
  · show (loop.newEvent fd now).fd2http fd = some loop.nextId
    rw [hOpened]
    exact Function.update_self _ _ _

/- The client has read everything and asks again. -/
theorem Kept.ask
    {s : Client}
    (h : s.Kept)
    (hAll : s.HasAll)
    {r : Request}
    (hFit : r.Fit) :
    Kept { s with waiting := some r } := by
  have hReceived := (h.hasAll_iff.mp hAll).2
  refine
    { wired := h.wired
      object := h.object
      front := h.front
      served := h.served
      waiting := fun _ hSome => by cases hSome; exact hFit
      ready := ?_
      stays := h.stays }
  intro fd hOwn
  rcases h.ready fd hOwn with ⟨obj, reg, hReady⟩
  refine
    ⟨obj, reg,
      { hReady with
        unread := fun _ => ?_ }⟩
  have hSent := received_of_object hReady.object
  have hOutput := hReady.output
  rw [← hSent, hReceived] at hOutput
  exact List.append_right_eq_self.mp hOutput

/- A step that takes no request reads none. -/
theorem reads_of_took_none
    {s : Client}
    {e : LoopEvent}
    (hTook : s.took e = none) :
    s.reads e = none := by
  unfold reads
  rw [hTook]
  cases s.waiting with
  | none => rfl
  | some r => rfl

/- A step on other connections, or one that may end it. -/
theorem Kept.leaves
    {s : Client}
    {e : LoopEvent}
    {t : EventLoop}
    (h : s.Kept)
    (hWired : t.Wired)
    (hLeaves : s.loop.Leaves t s.id)
    (hReads : s.reads e = none)
    (hStays :
      s.mayEnd e = false →
        ∀ fd, s.loop.fd2http fd = some s.id →
          t.fd2http fd = some s.id) :
    (s.after e t).Kept := by
  have hServed : (s.after e t).served = s.served := by
    show s.served ++ (s.reads e).toList = s.served
    rw [hReads, Option.toList_none, List.append_nil]
  have hWaiting : (s.after e t).waiting = s.waiting := by
    show (if (s.reads e).isSome then none else s.waiting) = _
    rw [hReads]
    rfl
  have hAnswers : (s.after e t).answers = s.answers := by
    unfold answers messages
    rw [hServed]
  refine
    { wired := hWired
      object := ?_
      front := ?_
      served := ?_
      waiting := ?_
      ready := ?_
      stays := ?_ }
  · rcases h.object with ⟨obj, hObj⟩
    have hSent := hLeaves.sent
    rw [hObj] at hSent
    rcases Option.map_eq_some_iff.mp hSent with
      ⟨obj', hObj', _⟩
    exact ⟨obj', hObj'⟩
  · have hSame : (s.after e t).received = s.received :=
      congrArg (fun sent => sent.getD []) hLeaves.sent
    rw [hSame, hAnswers]
    exact h.front
  · rw [hServed]
    exact h.served
  · rw [hWaiting]
    exact h.waiting
  · intro fd hOwn
    rcases hLeaves.held fd hOwn with ⟨hHeld, hObj, hReg⟩
    rcases h.ready fd hHeld with ⟨obj, reg, hReady⟩
    exact
      ⟨obj, reg,
        { object := hObj.trans hReady.object
          registration := hReg.trans hReady.registration
          between := hReady.between
          output := hReady.output.trans hAnswers.symm
          small := hReady.small
          armed := hReady.armed
          lastEvents := hReady.lastEvents
          events := hReady.events
          unread := fun hSome =>
            hReady.unread (hWaiting ▸ hSome) }⟩
  · intro hCut
    have hBoth : (s.cut || s.mayEnd e) = false := hCut
    rw [Bool.or_eq_false_iff] at hBoth
    rcases h.stays hBoth.1 with ⟨fd, hOwn⟩
    exact ⟨fd, hStays hBoth.2 fd hOwn⟩

/- What may be reported on the connection. -/
theorem Ready.revents_cases
    {s : Client}
    {fd : Fd}
    {obj : HttpObject}
    {reg : Registration}
    {revents : Events}
    (h : s.Ready fd obj reg)
    (hReports : reg.Reports revents)
    (hHup : revents.epollHup = false)
    (hErr : revents.epollErr = false) :
    (obj.http.outBuffer = [] ∧
        revents.epollIn = true ∧
        revents.epollOut = false) ∨
      (obj.http.outBuffer ≠ [] ∧
        revents.callsRead = false ∧
        revents.epollOut = true) := by
  rcases hReports with
    ⟨_, hSome, hIn, hPri, hOut, hRdHup, hEt, hOneShot⟩
  have hEvents := h.events
  have hNone : ¬ (revents.epollIn = false ∧
      revents.epollPri = false ∧ revents.epollOut = false ∧
      revents.epollRdHup = false) := by
    rintro ⟨h₁, h₂, h₃, h₄⟩
    apply hSome
    cases revents
    simp_all [Events.none]
  by_cases hEmpty : obj.http.outBuffer = []
  · rw [if_pos hEmpty] at hEvents
    left
    refine ⟨hEmpty, ?_⟩
    rcases hEvents with hReg | hReg <;>
    · rw [hReg] at hPri hOut hRdHup
      have h₂ : revents.epollPri = false := by
        simpa using mt hPri (by decide)
      have h₃ : revents.epollOut = false := by
        simpa using mt hOut (by decide)
      have h₄ : revents.epollRdHup = false := by
        simpa using mt hRdHup (by decide)
      refine ⟨?_, h₃⟩
      by_contra h₁
      exact hNone ⟨by simpa using h₁, h₂, h₃, h₄⟩
  · rw [if_neg hEmpty] at hEvents
    right
    rw [hEvents] at hIn hPri hRdHup
    have h₁ : revents.epollIn = false := by
      simpa using mt hIn (by decide)
    have h₂ : revents.epollPri = false := by
      simpa using mt hPri (by decide)
    have h₄ : revents.epollRdHup = false := by
      simpa using mt hRdHup (by decide)
    refine ⟨hEmpty, ?_, ?_⟩
    · unfold Events.callsRead
      rw [h₁, h₂, h₄]
      rfl
    · by_contra h₃
      exact hNone ⟨h₁, h₂, by simpa using h₃, h₄⟩

/- What the loop does with a report once handlers ran. -/
theorem handleEvents_of_call
    {s : Client}
    {obj : HttpObject}
    {revents : Events}
    {fs : FileSystem}
    {reads : List ReadResult}
    {writes : List WriteResult}
    {c : Conn}
    (h : s.Kept)
    (hOwn : s.Own obj.fd)
    (hObj : s.loop.objects s.id = some obj)
    (hCall :
      (obj.conn s.loop.timers reads writes).handleEvents fs
          revents =
        .ok (true, c))
    (now : Timeval) :
    s.loop.handleEvents obj.fd revents fs reads writes now =
      some
        ((s.loop.report obj.fd).handleConn s.id obj c
          now) := by
  have hChan : s.loop.fd2chan obj.fd = some s.id :=
    (h.wired.channel obj.fd).trans hOwn
  unfold EventLoop.handleEvents
  rw [hChan]
  simp only [hObj, hCall]

/- The handlers ran, and answered what was read. -/
theorem Ready.handled
    {s : Client}
    {obj : HttpObject}
    {reg : Registration}
    {revents : Events}
    {fs : FileSystem}
    {reads : List ReadResult}
    {writes : List WriteResult}
    {now : Timeval}
    {c : Conn}
    {bytes : Bytes}
    {new : Option (Request × FileSystem)}
    (hReady : s.Ready obj.fd obj reg)
    (h : s.Kept)
    (hOwn : s.Own obj.fd)
    (hReports : reg.Reports revents)
    (hCall :
      (obj.conn s.loop.timers reads writes).handleEvents fs
          revents =
        .ok (true, c))
    (hResult :
      (obj.conn s.loop.timers reads
          writes).clearEvents.GoesOn bytes c ∨
        (obj.conn s.loop.timers reads
          writes).clearEvents.Breaks bytes c)
    (hReads :
      s.reads
          (.handleEvents obj.fd revents fs reads writes
            now) =
        new)
    (hNew :
      ∀ p ∈ new,
        p.1.Delimited ∧ p.1.response p.2 = some bytes)
    (hNone : new = none → s.waiting = none ∧ bytes = []) :
    ∃ t,
      session.step s
          (.report obj.fd revents fs reads writes now) =
          some t ∧
        t.Kept ∧
        (writes = [] → t.Connected ∧ t.HasAll) := by
  obtain ⟨e, hE⟩ :
      ∃ e : LoopEvent,
        e = .handleEvents obj.fd revents fs reads writes now :=
    ⟨_, rfl⟩
  rw [← hE] at hReads
  have hStep :
      eventLoop.step s.loop e =
        some
          ((s.loop.report obj.fd).handleConn s.id obj c
            now) := by
    rw [hE]
    exact
      handleEvents_of_call h hOwn hReady.object hCall now
  have hWired := by
    refine h.wired.step ?_ hStep
    rw [hE]
    exact ⟨reg, hReady.registration, hReports⟩
  have hServed : ∀ t,
      (s.after e t).served = s.served ++ new.toList :=
    fun t => by rw [← hReads]; rfl
  have hAnswers : ∀ t,
      (s.after e t).answers = s.answers ++ bytes := by
    intro t
    unfold answers messages
    rw [hServed, List.map_append, List.flatMap_append,
      List.append_cancel_left_eq]
    cases new with
    | none => exact (hNone rfl).2.symm
    | some p =>
        simp [Request.message, (hNew p rfl).2]
  have hWaiting : ∀ t, (s.after e t).waiting = none := by
    intro t
    show
      (if (s.reads e).isSome then none else s.waiting) = none
    rw [hReads]
    cases new with
    | none => exact (hNone rfl).1
    | some p => rfl
  have hAll : ∀ t, ∀ p ∈ (s.after e t).served,
      p.1.Delimited ∧ (p.1.response p.2).isSome := by
    intro t p hMem
    rw [hServed] at hMem
    rcases List.mem_append.mp hMem with hOld | hLast
    · exact h.served p hOld
    · rcases hNew p (Option.mem_toList.mp hLast) with
        ⟨hDelimited, hResponse⟩
      exact ⟨hDelimited, by rw [hResponse]; rfl⟩
  have hEnds : .error ∈ writes → s.mayEnd e = true := by
    intro hFailed
    rw [hE]
    exact decide_eq_true ⟨hOwn, hFailed⟩
  rcases
    hReady.afterReport hOwn hResult hWired hAnswers hWaiting
      hAll hEnds with
    ⟨hKept, hHasAll⟩
  refine ⟨_, ?_, hKept, hHasAll⟩
  rw [hE] at hStep ⊢
  exact congrArg (Option.map (s.after _)) hStep

/- A report on which the waiting request is read. -/
theorem Ready.reads
    {s : Client}
    {obj : HttpObject}
    {reg : Registration}
    {revents : Events}
    {fs : FileSystem}
    {reads : List ReadResult}
    {writes : List WriteResult}
    {now : Timeval}
    {r : Request}
    (hReady : s.Ready obj.fd obj reg)
    (h : s.Kept)
    (hOwn : s.Own obj.fd)
    (hReports : reg.Reports revents)
    (hErr : revents.epollErr = false)
    (hIn : revents.epollIn = true)
    (hOut : revents.epollOut = false)
    (hEmpty : obj.http.outBuffer = [])
    (hWaiting : s.waiting = some r)
    (hBrings : Brings reads r.bytes)
    (hMeets :
      s.Meets
        (.report obj.fd revents fs reads writes now)) :
    ∃ t,
      session.step s
          (.report obj.fd revents fs reads writes now) =
          some t ∧
        t.Kept ∧
        (writes = [] → t.Connected ∧ t.HasAll) := by
  have hFit := h.waiting r hWaiting
  have hTook :
      s.took
          (.handleEvents obj.fd revents fs reads writes
            now) =
        some fs :=
    if_pos ⟨hOwn, hIn⟩
  have hReads :
      s.reads
          (.handleEvents obj.fd revents fs reads writes
            now) =
        some (r, fs) := by
    unfold Client.reads
    rw [hWaiting, hTook]
    rfl
  rcases hMeets (r, fs) hReads with
    ⟨bytes, hResponse, hSmall⟩
  rcases
    HttpData.Between.handleRead
      (c := (obj.conn s.loop.timers reads writes).clearEvents)
      hReady.between hEmpty rfl hBrings hFit.named hFit.kept
      hFit.short hResponse hSmall with
    ⟨c, hCall, hResult⟩
  refine
    hReady.handled h hOwn hReports
      (Conn.handleEvents_readable hIn hOut hErr hCall)
      hResult hReads ?_ (fun hNone => by cases hNone)
  intro p hMem
  cases hMem
  exact ⟨hFit.delimited, hResponse⟩

/- A report on which more of the output is sent. -/
theorem Ready.sends
    {s : Client}
    {obj : HttpObject}
    {reg : Registration}
    {revents : Events}
    {fs : FileSystem}
    {reads : List ReadResult}
    {writes : List WriteResult}
    {now : Timeval}
    (hReady : s.Ready obj.fd obj reg)
    (h : s.Kept)
    (hOwn : s.Own obj.fd)
    (hReports : reg.Reports revents)
    (hHup : revents.epollHup = false)
    (hErr : revents.epollErr = false)
    (hReads : revents.callsRead = false)
    (hOut : revents.epollOut = true)
    (hSome : obj.http.outBuffer ≠ []) :
    ∃ t,
      session.step s
          (.report obj.fd revents fs reads writes now) =
          some t ∧
        t.Kept ∧
        (writes = [] → t.Connected ∧ t.HasAll) := by
  have hWaiting : s.waiting = none := by
    by_contra hAsked
    exact hSome (hReady.unread hAsked)
  have hResult :=
    HttpData.Between.handleWrite
      (c := (obj.conn s.loop.timers reads writes).clearEvents)
      hReady.between hReady.small rfl
  have hNone :
      s.reads
          (.handleEvents obj.fd revents fs reads writes
            now) =
        none := by
    unfold Client.reads
    rw [hWaiting]
    rfl
  exact
    hReady.handled h hOwn hReports
      (Conn.handleEvents_writable hReads hOut hHup hErr fs)
      hResult hNone (fun p hMem => by cases hMem)
      (fun _ => ⟨hWaiting, rfl⟩)

/- Every report on the connection is handled. -/
theorem Kept.report
    {s : Client}
    {fd : Fd}
    {revents : Events}
    {fs : FileSystem}
    {reads : List ReadResult}
    {writes : List WriteResult}
    {now : Timeval}
    (h : s.Kept)
    (hOwn : s.Own fd)
    (hEnabled :
      session.enabled s
        (.report fd revents fs reads writes now))
    (hMeets :
      s.Meets (.report fd revents fs reads writes now)) :
    ∃ t,
      session.step s
          (.report fd revents fs reads writes now) =
          some t ∧
        t.Kept ∧
        (writes = [] → t.Connected ∧ t.HasAll) := by
  rcases hEnabled with ⟨⟨reg, hReg, hReports⟩, hPeer⟩
  rcases hPeer hOwn with ⟨hHup, hErr, hIn⟩
  rcases h.ready fd hOwn with ⟨obj, reg', hReady⟩
  have hSame : reg' = reg :=
    Option.some.inj (hReady.registration.symm.trans hReg)
  subst hSame
  have hFd : obj.fd = fd := by
    rcases h.wired.object fd s.id hOwn with
      ⟨obj', hObj', hFd'⟩
    rw [hReady.object] at hObj'
    cases hObj'
    exact hFd'
  subst hFd
  rcases hReady.revents_cases hReports hHup hErr with
    ⟨hEmpty, hReadable, hOut⟩ | ⟨hSome, hReads, hOut⟩
  · rcases hIn hReadable with ⟨r, hWaiting, hBrings⟩
    exact
      hReady.reads h hOwn hReports hErr hReadable hOut hEmpty
        hWaiting hBrings hMeets
  · exact
      hReady.sends h hOwn hReports hHup hErr hReads hOut hSome

/- A new connection is not the client's. -/
theorem Kept.newEvent
    {s : Client}
    {fd : Fd}
    (h : s.Kept)
    (hUnused : s.loop.Unused fd)
    (now : Timeval) :
    (s.after (.newEvent fd now)
      (s.loop.newEvent fd now)).Kept := by
  rcases h.object with ⟨obj, hObj⟩
  have hSpares := h.wired.spares_newEvent hObj hUnused now
  exact
    h.leaves (h.wired.newEvent hUnused now) hSpares.leaves
      (reads_of_took_none rfl) fun _ => hSpares.keeps

/- A report on another connection. -/
theorem Kept.otherReport
    {s : Client}
    {t : EventLoop}
    {fd : Fd}
    {revents : Events}
    {fs : FileSystem}
    {reads : List ReadResult}
    {writes : List WriteResult}
    {now : Timeval}
    (h : s.Kept)
    (hOther : ¬ s.Own fd)
    (hEnabled :
      eventLoop.enabled s.loop
        (.handleEvents fd revents fs reads writes now))
    (hStep :
      s.loop.handleEvents fd revents fs reads writes now =
        some t) :
    (s.after (.handleEvents fd revents fs reads writes now)
      t).Kept := by
  have hWired := h.wired.step hEnabled hStep
  rcases hEnabled with ⟨reg, hReg, _⟩
  have hSpares :=
    h.wired.spares_handleEvents hReg hOther hStep
  have hTook :
      s.took (.handleEvents fd revents fs reads writes now) =
        none :=
    if_neg fun hOwn => hOther hOwn.1
  exact
    h.leaves hWired hSpares.leaves (reads_of_took_none hTook)
      fun _ => hSpares.keeps

/- Timers may close the connection. -/
theorem Kept.handleExpired
    {s : Client}
    (h : s.Kept)
    (policy : TopPolicy)
    (clock : Nat → Timeval) :
    (s.after (.handleExpired policy clock)
      (s.loop.handleExpired policy clock)).Kept := by
  exact
    h.leaves
      (h.wired.step (e := .handleExpired policy clock)
        trivial rfl)
      (h.wired.leaves_handleExpired s.id policy clock)
      (reads_of_took_none rfl) fun hNever => by cases hNever

/- What holds between steps is kept by every step. -/
theorem Kept.step
    (s : Client)
    (e : ClientEvent)
    (t : Client)
    (h : s.Kept)
    (hEnabled : session.enabled s e)
    (hMeets : s.Meets e)
    (hStep : session.step s e = some t) :
    t.Kept := by
  cases e with
  | ask r =>
      cases hStep
      exact h.ask hEnabled hMeets
  | loop e =>
      rcases Option.map_eq_some_iff.mp hStep with
        ⟨loop, hNext, rfl⟩
      cases e with
      | newEvent fd now =>
          cases hNext
          exact h.newEvent hEnabled.1 now
      | handleEvents fd revents fs reads writes now =>
          by_cases hOwn : s.Own fd
          · rcases h.report hOwn hEnabled hMeets with
              ⟨t, hReported, hKept, _⟩
            rcases
              Option.some.inj (hStep.symm.trans hReported) with
              rfl
            exact hKept
          · exact h.otherReport hOwn hEnabled.1 hNext
      | handleExpired policy clock =>
          cases hNext
          exact h.handleExpired policy clock

/- A `read` may bring any bytes. -/
theorem brings_each
    (bytes : Bytes) :
    Brings (bytes.map fun b => .data [b]) bytes := by
  refine ⟨?_, ?_⟩
  · intro r hMem
    rcases List.mem_map.mp hMem with ⟨b, _, rfl⟩
    exact
      .inr
        ⟨[b], rfl, List.cons_ne_nil b [],
          (by decide : 1 ≤ maxBuff)⟩
  · induction bytes with
    | nil => rfl
    | cons b bytes ih =>
        rw [List.map_cons, List.flatMap_cons, ih]
        rfl

/- The kernel may report what the client waits for. -/
theorem Kept.oneReportAway
    {s : Client}
    (h : s.Kept)
    (hConnected : s.Connected)
    (hNot : ¬ s.HasAll) :
    s.OneReportAway := by
  rcases hConnected with ⟨fd, hOwn⟩
  rcases h.ready fd hOwn with ⟨obj, reg, hReady⟩
  have hEvents := hReady.events
  by_cases hEmpty : obj.http.outBuffer = []
  · rw [if_pos hEmpty] at hEvents
    have hReceived : s.received = s.answers := by
      rw [received_of_object hReady.object,
        ← hReady.output, hEmpty, List.append_nil]
    obtain ⟨r, hWaiting⟩ :
        ∃ r, s.waiting = some r := by
      apply Option.ne_none_iff_exists'.mp
      intro hNone
      exact hNot (h.hasAll_iff.mpr ⟨hNone, hReceived⟩)
    refine
      ⟨fd, { Events.none with epollIn := true },
        r.bytes.map fun b => .data [b], hOwn, ?_⟩
    intro fs now
    have hEnabled :
        session.enabled s
          (.report fd { Events.none with epollIn := true } fs
            (r.bytes.map fun b => .data [b]) [] now) := by
      refine ⟨⟨reg, hReady.registration, hReady.armed, ?_⟩, ?_⟩
      · rcases hEvents with hReg | hReg
        · rw [hReg]
          decide
        · rw [hReg]
          decide
      · intro _
        exact
          ⟨rfl, rfl, fun _ =>
            ⟨r, hWaiting, brings_each r.bytes⟩⟩
    refine ⟨hEnabled, fun hMeets => ?_⟩
    rcases h.report hOwn hEnabled hMeets with
      ⟨t, hStep, _, hAll⟩
    exact ⟨t, hStep, hAll rfl⟩
  · rw [if_neg hEmpty] at hEvents
    refine
      ⟨fd, { Events.none with epollOut := true }, [], hOwn,
        ?_⟩
    intro fs now
    have hEnabled :
        session.enabled s
          (.report fd { Events.none with epollOut := true } fs
            [] [] now) := by
      refine ⟨⟨reg, hReady.registration, hReady.armed, ?_⟩, ?_⟩
      · rw [hEvents]
        decide
      · intro _
        exact ⟨rfl, rfl, fun hIn => by cases hIn⟩
    refine ⟨hEnabled, fun hMeets => ?_⟩
    rcases h.report hOwn hEnabled hMeets with
      ⟨t, hStep, _, hAll⟩
    exact ⟨t, hStep, hAll rfl⟩

/- What the client can rely on. -/
theorem Kept.sound
    {s : Client}
    (h : s.Kept) :
    s.Sound where
  reads := by
    rcases h.reading_front with ⟨got, _, hGot, _, hRead, _⟩
    have hBodies :
        (s.served.map fun p => p.1.content p.2) =
          s.messages.map Message.body := by
      unfold messages
      rw [List.map_map]
      rfl
    rw [hRead, hBodies]
    exact hGot.map _
  stays := h.stays
  goesOn := h.oneReportAway
  succeeds := by
    intro fd revents fs reads writes now hOwn hEnabled hMeets
    rcases h.report hOwn hEnabled hMeets with ⟨t, hStep, _⟩
    exact ⟨t, hStep⟩

end Client

/-
  On any connection that a loop opens, over every order of
  requests, reports, timers and steps of the others, the
  client reads the files that it asked for, in order, and is
  one report away from what it still waits for, as long as
  no timer and no failed `write` ends the connection.
-/
theorem client_reads_its_files
    {s : EventLoop}
    {before : List LoopEvent}
    {fd : Fd}
    (hReach : eventLoop.Reaches .new before s)
    (hUnused : s.Unused fd)
    (now : Timeval)
    {es : List ClientEvent}
    (hMeets :
      session.StepsMeet Client.Meets
        (.connected s fd now) es) :
    session.Always Client.Sound (.connected s fd now) es := by
  have hWired : s.Wired :=
    hReach.invariant
      (fun _ _ _ h hEnabled hStep => h.step hEnabled hStep)
      EventLoop.wired_new
  have hKept :=
    Machine.always_of_stepsMeet Client.Kept.step
      (Client.kept_connected hWired hUnused now) hMeets
  exact hKept.mono fun _ h => h.sound

/- A request for the page. -/
def pageRequest : Request :=
  { helloRequest with
    path := utf8 "a"
    path_plain := by decide +kernel }

theorem fit_page : pageRequest.Fit where
  named hHead := by cases hHead
  kept := fieldsKept_of_hello rfl
  delimited := ⟨by decide +kernel, fun h => by cases h.1⟩
  short := by decide +kernel

/- The request arrives, and `write` takes what it can. -/
def pageRead
    (writes : List WriteResult) : LoopEvent :=
  .handleEvents 5 { Events.none with epollIn := true }
    (oneFile (utf8 "a") (utf8 "page"))
    [.data pageRequest.bytes] writes
    ⟨1, 0, Timeval.on_second⟩

/- The socket has room for the rest. -/
def restSent : LoopEvent :=
  .handleEvents 5 { Events.none with epollOut := true }
    (oneFile (utf8 "a") (utf8 "page")) [] []
    ⟨2, 0, Timeval.on_second⟩

/- The second request is made when the first is answered. -/
def twoPages : List ClientEvent :=
  [.ask pageRequest, .loop (pageRead [.accepted 10, .eagain]),
    .loop restSent, .ask pageRequest, .loop (pageRead [])]

theorem meets_page
    {s : Client}
    (hWaiting : s.waiting = some pageRequest)
    (writes : List WriteResult) :
    s.Meets (.loop (pageRead writes)) := by
  intro p hReads
  unfold Client.reads at hReads
  rw [hWaiting, Option.bind_some] at hReads
  rcases Option.map_eq_some_iff.mp hReads with
    ⟨fs, hTook, rfl⟩
  simp only [pageRead, Client.took] at hTook
  split_ifs at hTook
  cases hTook
  exact ⟨_, rfl, by decide +kernel⟩

theorem enabled_page
    {s : Client}
    (hWaiting : s.waiting = some pageRequest)
    {reg : Registration}
    (hReg : s.loop.epoll 5 = some reg)
    (hReports :
      reg.Reports { Events.none with epollIn := true })
    (writes : List WriteResult) :
    session.enabled s (.loop (pageRead writes)) :=
  ⟨⟨reg, hReg, hReports⟩, fun _ =>
    ⟨rfl, rfl, fun _ =>
      ⟨pageRequest, hWaiting,
        brings_data (by decide) (by decide)⟩⟩⟩

theorem meets_twoPages :
    session.StepsMeet Client.Meets
      (.connected .new 5 ⟨0, 0, Timeval.on_second⟩)
      twoPages := by
  refine fun _ => ⟨fit_page, fun asks hAsk => ?_⟩
  rcases Option.some.inj hAsk with rfl
  refine fun _ => ⟨meets_page rfl _, fun t _ _ => ?_⟩
  refine ⟨fun p hReads => ?_, fun s _ _ => ?_⟩
  · have hTook : t.took restSent = none :=
      if_neg fun h => by cases h.2
    rw [Client.reads_of_took_none hTook] at hReads
    cases hReads
  · refine ⟨fit_page, fun asks hAsk => ?_⟩
    rcases Option.some.inj hAsk with rfl
    exact fun _ => ⟨meets_page rfl _, fun _ _ => trivial⟩

/-
  A client reads a page, in two parts, and asks for it once
  more.
-/
theorem client_reads_its_files_twice :
    ∃ s,
      session.Reaches
          (.connected .new 5 ⟨0, 0, Timeval.on_second⟩)
          twoPages s ∧
        s.reading.1 = [utf8 "page", utf8 "page"] ∧
        session.Always Client.Sound
          (.connected .new 5 ⟨0, 0, Timeval.on_second⟩)
          twoPages := by
  obtain ⟨asks, hAsks⟩ : ∃ asks : Client,
      asks =
        { Client.connected .new 5
            ⟨0, 0, Timeval.on_second⟩ with
          waiting := some pageRequest } :=
    ⟨_, rfl⟩
  have hEnds :
      ((session.step asks
            (.loop (pageRead [.accepted 10, .eagain]))).bind
          fun t =>
            (session.step t (.loop restSent)).bind fun u =>
              (session.step
                  { u with waiting := some pageRequest }
                  (.loop (pageRead []))).map fun s =>
                (t.loop.epoll 5, u.loop.epoll 5,
                  decide u.HasAll, s.reading.1)) =
        some
          (some ⟨.outEt, true⟩, some ⟨.inEt, true⟩, true,
            [utf8 "page", utf8 "page"]) := by
    rw [hAsks]
    decide +kernel
  rcases Option.bind_eq_some_iff.mp hEnds with
    ⟨t, hRead, hRest⟩
  rcases Option.bind_eq_some_iff.mp hRest with
    ⟨u, hSent, hAgain⟩
  rcases Option.map_eq_some_iff.mp hAgain with
    ⟨s, hLast, hEnd⟩
  simp only [Prod.mk.injEq] at hEnd
  rcases hEnd with ⟨hOut, hIn, hTrue, hPages⟩
  have hFirst :
      session.enabled asks
        (.loop (pageRead [.accepted 10, .eagain])) := by
    rw [hAsks]
    exact
      enabled_page rfl rfl Registration.readable_reported _
  have hWritable : session.enabled t (.loop restSent) :=
    ⟨⟨_, hOut, by unfold Registration.Reports; decide⟩,
      fun _ => ⟨rfl, rfl, fun hRead => by cases hRead⟩⟩
  have hAll : u.HasAll := of_decide_eq_true hTrue
  have hSecond :
      session.enabled
        { u with waiting := some pageRequest }
        (.loop (pageRead [])) :=
    enabled_page
      (s := { u with waiting := some pageRequest })
      rfl hIn (by unfold Registration.Reports; decide) _
  refine ⟨s, ?_, hPages, ?_⟩
  · exact
      .cons rfl (congrArg some hAsks.symm)
        (.cons hFirst hRead
          (.cons hWritable hSent
            (.cons hAll rfl
              (.cons hSecond hLast (.nil s)))))
  · exact
      client_reads_its_files (.nil _)
        (EventLoop.unused_new 5) _ meets_twoPages

end V3

end WebServer
