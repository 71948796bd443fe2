import WebServer.Library.Machine
import WebServer.V3.Net.Passes

/-
  The event loop of version 3.0 (`net/EventLoop.cpp`,
  `net/EpollPoller.cpp`, `Channel::handleEvents`, and the
  handlers `handleConn`, `handleClose` and `newEvent` of
  `net/HttpData.cpp`).

  One loop holds its connections in `fd2http_` and their
  channels in `fd2chan_`, asks the kernel for events, and
  closes the connections whose timer has expired. A call of
  `epoll_ctl` fails exactly when the kernel's table says so:
  a descriptor is added twice, or changed before it is
  added. The wakeup channel and the accept channel have no
  timer and hold no connection; they are left out.

  The connections that one `poll` reports are handled one by
  one: a handler touches nothing of another connection but
  the timer queue.

  Key definitions include:
    * `Conn.handleEvents`
    * `Conn.handleConn`
    * `EventLoop`
    * `EventLoop.addfd`
    * `EventLoop.modfd`
    * `EventLoop.delfd`
    * `EventLoop.handleExpired`
    * `eventLoop`
    * `EventLoop.Slots`
    * `EventLoop.Wired`

  Key theorems include:
    * `Conn.handleConn_cases`
    * `EventLoop.handleConn_cases`
    * `EventLoop.Slots.opened`
    * `EventLoop.Wired.step`
-/

------------------------------------------------------------
-- Sets Of Events
------------------------------------------------------------

namespace WebServer

namespace V3

namespace Events

/- `EPOLLIN | EPOLLET`. -/
def inEt : Events :=
  { none with
    epollIn := true
    epollEt := true }

/- `EPOLLOUT | EPOLLET`. -/
def outEt : Events :=
  { none with
    epollOut := true
    epollEt := true }

/- `DEFAULT_EVENT`: `EPOLLIN | EPOLLET | EPOLLONESHOT`. -/
def defaultEvent : Events :=
  { inEt with epollOneShot := true }

/- `events & (EPOLLIN | EPOLLPRI | EPOLLRDHUP)`. -/
def callsRead
    (revents : Events) : Bool :=
  revents.epollIn || revents.epollPri || revents.epollRdHup

end Events

end V3

end WebServer

------------------------------------------------------------
-- Handlers Of One Connection
------------------------------------------------------------

namespace WebServer

namespace V3

namespace Conn

/- `events_ = 0`. -/
def clearEvents
    (c : Conn) : Conn :=
  { c with channel := c.channel.setEvents .none }

/-
  `Channel::handleEvents()` before it calls the connection
  handler, and whether it calls that handler. A connection
  has no error handler.
-/
def handleEvents
    (c : Conn)
    (fs : FileSystem)
    (revents : Events) : Except ReadFault (Bool × Conn) :=
  let c := c.clearEvents
  if revents.epollHup && !revents.epollIn then
    .ok (false, c)
  else if revents.epollErr then
    .ok (false, c.clearEvents)
  else do
    let c ←
      if revents.callsRead then c.handleRead fs else .ok c
    .ok
      (true, if revents.epollOut then c.handleWrite else c)

end Conn

/- What `handleConn` asks of the loop. -/
inductive LoopCall
| updatePoller (timeout : Nat)
| handleClose
| noCall
deriving DecidableEq, Repr

namespace Conn

/- `handleConn()`, up to its call into the loop. -/
def handleConn
    (c : Conn) : LoopCall × Conn :=
  let c := c.seperateTimer
  let events := c.channel.events
  if !c.http.error ∧
      c.http.connectionState = .connected then
    if events ≠ .none then
      let timeout :=
        if c.http.keepAlive then
          defaultKeepAliveTime
        else
          defaultExpiredTime
      let events :=
        if events.epollIn && events.epollOut then
          { Events.none with epollOut := true }
        else
          events
      let events := { events with epollEt := true }
      (.updatePoller timeout,
        { c with channel := c.channel.setEvents events })
    else if c.http.keepAlive then
      (.updatePoller defaultKeepAliveTime,
        { c with channel := c.channel.setEvents .inEt })
    else
      (.updatePoller (defaultKeepAliveTime >>> 1),
        { c with channel := c.channel.setEvents .inEt })
  else if !c.http.error ∧
      c.http.connectionState = .disconnecting ∧
      events.epollOut then
    (.noCall,
      { c with channel := c.channel.setEvents .outEt })
  else
    (.handleClose, c)

/-
  The branch for a peer that has sent its last byte while a
  response is still to be sent.
-/
def HalfClosed
    (c : Conn) : Prop :=
  c.http.error = false ∧
    c.http.connectionState = .disconnecting ∧
    c.channel.events.epollOut = true

/- No branch of `handleConn` keeps the connection. -/
def Closes
    (c : Conn) : Prop :=
  ¬ (c.http.error = false ∧
      c.http.connectionState = .connected) ∧
    ¬ c.HalfClosed

/- The events that `handleConn` leaves on an open connection. -/
def watched
    (c : Conn) : Events :=
  if c.channel.events = .none then
    .inEt
  else if c.channel.events.epollIn &&
      c.channel.events.epollOut then
    .outEt
  else
    { c.channel.events with epollEt := true }

/- The timeout that `handleConn` passes on for one. -/
def timeout
    (c : Conn) : Nat :=
  if c.http.keepAlive then
    defaultKeepAliveTime
  else if c.channel.events = .none then
    defaultKeepAliveTime >>> 1
  else
    defaultExpiredTime

/- Which handlers `handleEvents` calls. -/
theorem handleEvents_cases
    {c c' : Conn}
    {fs : FileSystem}
    {revents : Events}
    {handlerRan : Bool}
    (h : c.handleEvents fs revents = .ok (handlerRan, c')) :
    (handlerRan = false ∧ c' = c.clearEvents) ∨
      (handlerRan = true ∧
        ∃ c₁,
          ((revents.callsRead = true ∧
              c.clearEvents.handleRead fs = .ok c₁) ∨
            (revents.callsRead = false ∧
              c₁ = c.clearEvents)) ∧
            c' =
              if revents.epollOut then
                c₁.handleWrite
              else
                c₁) := by
  unfold handleEvents at h
  by_cases hHup : revents.epollHup && !revents.epollIn
  · rw [if_pos hHup] at h
    cases h
    exact .inl ⟨rfl, rfl⟩
  · rw [if_neg hHup] at h
    by_cases hErr : revents.epollErr
    · rw [if_pos hErr] at h
      cases h
      exact .inl ⟨rfl, rfl⟩
    · rw [if_neg hErr] at h
      right
      cases hRead : revents.callsRead with
      | false =>
          rw [hRead] at h
          cases h
          exact ⟨rfl, _, .inr ⟨rfl, rfl⟩, rfl⟩
      | true =>
          rw [hRead, if_pos rfl] at h
          cases hCall : c.clearEvents.handleRead fs with
          | error f =>
              rw [hCall] at h
              cases h
          | ok c₁ =>
              rw [hCall] at h
              cases h
              exact ⟨rfl, c₁, .inl ⟨rfl, rfl⟩, rfl⟩

/- Which events keep `handleEvents` from `handleConn`. -/
theorem handleEvents_runs
    {c c' : Conn}
    {fs : FileSystem}
    {revents : Events}
    (h : c.handleEvents fs revents = .ok (true, c')) :
    ¬ (revents.epollHup && !revents.epollIn) ∧
      ¬ revents.epollErr := by
  unfold handleEvents at h
  by_cases hHup : revents.epollHup && !revents.epollIn
  · rw [if_pos hHup] at h
    cases h
  · by_cases hErr : revents.epollErr
    · rw [if_neg hHup, if_pos hErr] at h
      cases h
    · exact ⟨hHup, hErr⟩

theorem seperateTimer_frame
    (c : Conn) :
    ∃ timer timers,
      c.seperateTimer =
        { c with
          http := { c.http with timer := timer }
          timers := timers } := by
  unfold seperateTimer
  cases c.http.timer with
  | none => exact ⟨c.http.timer, c.timers, rfl⟩
  | some addr =>
      simp only
      split_ifs
      · exact ⟨none, c.timers.clearReq addr, rfl⟩
      · exact ⟨c.http.timer, c.timers, rfl⟩

theorem handleConn_of_connected
    {c : Conn}
    (hError : c.http.error = false)
    (hOpen : c.http.connectionState = .connected) :
    c.handleConn =
      (.updatePoller c.timeout,
        { c.seperateTimer with
          channel := c.channel.setEvents c.watched }) := by
  rcases c.seperateTimer_frame with ⟨timer, timers, hSep⟩
  unfold handleConn watched timeout
  rw [hSep]
  simp only [hError, hOpen, Bool.not_false, true_and,
    if_true]
  by_cases hNone : c.channel.events = .none
  · rw [if_neg (not_not.mpr hNone), if_pos hNone,
      if_pos hNone]
    cases c.http.keepAlive with
    | true => rfl
    | false => rfl
  · rw [if_pos hNone, if_neg hNone, if_neg hNone]
    by_cases hBoth :
        c.channel.events.epollIn && c.channel.events.epollOut
    · rw [if_pos hBoth, if_pos hBoth]
      rfl
    · rw [if_neg hBoth, if_neg hBoth]

/- A connection that is not kept is closed. -/
theorem handleConn_of_not_connected
    {c : Conn}
    (hNot :
      ¬ (c.http.error = false ∧
        c.http.connectionState = .connected)) :
    (c.HalfClosed ∧
        c.handleConn =
          (.noCall,
            { c.seperateTimer with
              channel := c.channel.setEvents .outEt })) ∨
      (c.Closes ∧
        c.handleConn = (.handleClose, c.seperateTimer)) := by
  rcases c.seperateTimer_frame with ⟨timer, timers, hSep⟩
  unfold handleConn Closes HalfClosed
  rw [hSep]
  simp only [Bool.not_eq_true']
  rw [if_neg hNot]
  split_ifs with hHalf
  · exact .inl ⟨hHalf, rfl⟩
  · exact .inr ⟨⟨hNot, hHalf⟩, rfl⟩

/-
  `handleConn` arms a timer and updates the poller, does
  neither, or closes.
-/
theorem handleConn_cases
    (c : Conn) :
    (c.http.error = false ∧
      c.http.connectionState = .connected ∧
      ∃ timeout, 0 < timeout ∧
        c.handleConn =
          (.updatePoller timeout,
            { c.seperateTimer with
              channel := c.channel.setEvents c.watched })) ∨
      (c.HalfClosed ∧
        c.handleConn =
          (.noCall,
            { c.seperateTimer with
              channel := c.channel.setEvents .outEt })) ∨
      (c.Closes ∧
        c.handleConn = (.handleClose, c.seperateTimer)) := by
  by_cases hOpen :
      c.http.error = false ∧
        c.http.connectionState = .connected
  · refine .inl ⟨hOpen.1, hOpen.2, c.timeout, ?_, ?_⟩
    · unfold timeout
      split_ifs <;> decide
    · exact handleConn_of_connected hOpen.1 hOpen.2
  · exact .inr (handleConn_of_not_connected hOpen)

end Conn

end V3

end WebServer

------------------------------------------------------------
-- The State Of A Loop
------------------------------------------------------------

namespace WebServer

namespace V3

abbrev Fd := Nat

/-
  What the kernel keeps of one descriptor. A one-shot
  registration is disarmed when an event is reported.
-/
structure Registration where
  events : Events
  armed : Bool
deriving DecidableEq, Repr

namespace Registration

/- The events that `epoll_wait` may report. -/
def Reports
    (reg : Registration)
    (revents : Events) : Prop :=
  reg.armed = true ∧
    revents ≠ .none ∧
    (revents.epollIn → reg.events.epollIn) ∧
    (revents.epollPri → reg.events.epollPri) ∧
    (revents.epollOut → reg.events.epollOut) ∧
    (revents.epollRdHup → reg.events.epollRdHup) ∧
    revents.epollEt = false ∧
    revents.epollOneShot = false

/- The registration once an event was reported. -/
def reported
    (reg : Registration) : Registration :=
  if reg.events.epollOneShot then
    { reg with armed := false }
  else
    reg

/- `epoll_wait` may report the bytes of a new client. -/
theorem readable_reported :
    (mk .defaultEvent true).Reports
      { Events.none with epollIn := true } := by
  unfold Reports
  decide

end Registration

/-
  One `HttpData` object, its channel, and what its socket
  accepted. `handlerRan` records whether the connection
  handler was called when the object was last handled.
-/
structure HttpObject where
  fd : Fd
  http : HttpData
  channel : Channel
  sent : Bytes
  trace : List TraceEvent
  handlerRan : Bool

namespace HttpObject

/- The constructor `HttpData(loop, connfd)`. -/
def new
    (fd : Fd) : HttpObject where
  fd := fd
  http := .new
  channel := .new
  sent := []
  trace := []
  handlerRan := false

/- What the handlers work on. -/
def conn
    (obj : HttpObject)
    (timers : TimerManager)
    (reads : List ReadResult)
    (writes : List WriteResult) : Conn where
  http := obj.http
  channel := obj.channel
  socket :=
    { reads := reads
      writes := writes
      sent := obj.sent }
  timers := timers
  trace := obj.trace

/- The object after its handlers. -/
def after
    (obj : HttpObject)
    (c : Conn)
    (handlerRan : Bool) : HttpObject where
  fd := obj.fd
  http := c.http
  channel := c.channel
  sent := c.socket.sent
  trace := c.trace
  handlerRan := handlerRan

end HttpObject

/-
  One loop. An object is alive while `fd2http_` or a timer
  node refers to it; `objects` also keeps those destroyed.
-/
structure EventLoop where
  objects : ConnId → Option HttpObject
  fd2chan : Fd → Option ConnId
  fd2http : Fd → Option ConnId
  epoll : Fd → Option Registration
  timers : TimerManager
  nextId : ConnId

namespace EventLoop

def new : EventLoop where
  objects := fun _ => none
  fd2chan := fun _ => none
  fd2http := fun _ => none
  epoll := fun _ => none
  timers := .new
  nextId := 0

/- Store an object. -/
def put
    (s : EventLoop)
    (id : ConnId)
    (obj : HttpObject) : EventLoop :=
  { s with
    objects := Function.update s.objects id (some obj) }

/- An object is referred to. -/
def Alive
    (s : EventLoop)
    (id : ConnId) : Prop :=
  (∃ fd, s.fd2http fd = some id) ∨
    ∃ node ∈ s.timers.timerNodeQueue,
      node.spHttpData = some id

/- `accept` returns a descriptor that no object has open. -/
def Unused
    (s : EventLoop)
    (fd : Fd) : Prop :=
  ∀ id obj,
    s.objects id = some obj → s.Alive id → obj.fd ≠ fd

theorem unused_new
    (fd : Fd) :
    new.Unused fd := by
  intro id obj hObj
  cases hObj

end EventLoop

end V3

end WebServer

------------------------------------------------------------
-- The Poller
------------------------------------------------------------

namespace WebServer

namespace V3

namespace EventLoop

/- `addTimer(req, timeout)`. -/
def addTimer
    (s : EventLoop)
    (id : ConnId)
    (obj : HttpObject)
    (timeout : Nat)
    (now : Timeval) : EventLoop × HttpObject :=
  let (timers, addr) := s.timers.addTimer id timeout now
  ({ s with timers := timers },
    { obj with http := { obj.http with timer := some addr } })

/- `addfd(request, timeout)`. -/
def addfd
    (s : EventLoop)
    (id : ConnId)
    (obj : HttpObject)
    (timeout : Nat)
    (now : Timeval) : EventLoop × HttpObject :=
  let (s, obj) :=
    if 0 < timeout then
      let (s, obj) := s.addTimer id obj timeout now
      ({ s with
          fd2http :=
            Function.update s.fd2http obj.fd (some id) },
        obj)
    else
      (s, obj)
  let event := obj.channel.events
  let obj :=
    { obj with
      channel := obj.channel.equalAndUpdateLastEvents.2 }
  let s :=
    { s with
      fd2chan := Function.update s.fd2chan obj.fd (some id) }
  match s.epoll obj.fd with
  | none =>
      ({ s with
          epoll :=
            Function.update s.epoll obj.fd
              (some ⟨event, true⟩) },
        obj)
  | some _ =>
      ({ s with
          fd2chan := Function.update s.fd2chan obj.fd none },
        obj)

/- `modfd(request, timeout)`. -/
def modfd
    (s : EventLoop)
    (id : ConnId)
    (obj : HttpObject)
    (timeout : Nat)
    (now : Timeval) : EventLoop × HttpObject :=
  let (s, obj) :=
    if 0 < timeout then
      s.addTimer id obj timeout now
    else
      (s, obj)
  let (equal, channel) :=
    obj.channel.equalAndUpdateLastEvents
  let obj := { obj with channel := channel }
  if equal then
    (s, obj)
  else
    match s.epoll obj.fd with
    | some _ =>
        ({ s with
            epoll :=
              Function.update s.epoll obj.fd
                (some ⟨obj.channel.events, true⟩) },
          obj)
    | none =>
        ({ s with
            fd2chan :=
              Function.update s.fd2chan obj.fd none },
          obj)

/- `delfd(req)`. -/
def delfd
    (s : EventLoop)
    (obj : HttpObject) : EventLoop :=
  { s with
    epoll := Function.update s.epoll obj.fd none
    fd2chan := Function.update s.fd2chan obj.fd none
    fd2http := Function.update s.fd2http obj.fd none }

end EventLoop

end V3

end WebServer

------------------------------------------------------------
-- Steps Of The Loop
------------------------------------------------------------

namespace WebServer

namespace V3

namespace EventLoop

/- `HttpData::handleClose()`. -/
def handleClose
    (s : EventLoop)
    (id : ConnId)
    (obj : HttpObject) : EventLoop :=
  (s.delfd obj).put id
    { obj with
      http :=
        { obj.http with connectionState := .disconnected } }

/- A new `HttpData` object, and `newEvent()` on it. -/
def newEvent
    (s : EventLoop)
    (fd : Fd)
    (now : Timeval) : EventLoop :=
  let id := s.nextId
  let obj := HttpObject.new fd
  let obj :=
    { obj with channel := obj.channel.setEvents .defaultEvent }
  let (s, obj) := s.addfd id obj defaultExpiredTime now
  { s.put id obj with nextId := id + 1 }

/- `handleConn()` on what the other handlers left. -/
def handleConn
    (s : EventLoop)
    (id : ConnId)
    (obj : HttpObject)
    (c : Conn)
    (now : Timeval) : EventLoop :=
  let (call, c) := c.handleConn
  let s := { s with timers := c.timers }
  let obj := obj.after c true
  match call with
  | .updatePoller timeout =>
      let (s, obj) := s.modfd id obj timeout now
      s.put id obj
  | .handleClose => s.handleClose id obj
  | .noCall => s.put id obj

/- `epoll_wait` reports an event on a descriptor. -/
def report
    (s : EventLoop)
    (fd : Fd) : EventLoop :=
  { s with
    epoll :=
      Function.update s.epoll fd
        ((s.epoll fd).map Registration.reported) }

/-
  One entry of the list that `poll` returns, and the call of
  `handleEvents` on it. The call fails when a handler raises
  or the object is gone.
-/
def handleEvents
    (s : EventLoop)
    (fd : Fd)
    (revents : Events)
    (fs : FileSystem)
    (reads : List ReadResult)
    (writes : List WriteResult)
    (now : Timeval) : Option EventLoop :=
  match s.fd2chan fd with
  | none => some (s.report fd)
  | some id =>
      match s.objects id with
      | none => none
      | some obj =>
          match
            (obj.conn s.timers reads writes).handleEvents fs
              revents with
          | .error _ => none
          | .ok (false, c) =>
              some
                ({ s.report fd with timers := c.timers }.put
                  id (obj.after c false))
          | .ok (true, c) =>
              some ((s.report fd).handleConn id obj c now)

/- The destructor of a timer node closes its connection. -/
def closeExpired
    (s : EventLoop)
    (id : ConnId) : EventLoop :=
  match s.objects id with
  | none => s
  | some obj => s.handleClose id obj

/- `handleExpired()`. -/
def handleExpired
    (s : EventLoop)
    (policy : TopPolicy)
    (clock : Nat → Timeval) : EventLoop :=
  let (timers, closed) :=
    s.timers.handleExpiredEvent policy clock
  closed.foldl closeExpired { s with timers := timers }

end EventLoop

/-
  What the loop does next, with the answers of the system
  calls that it makes on the way.
-/
inductive LoopEvent
| newEvent (fd : Fd) (now : Timeval)
| handleEvents
    (fd : Fd)
    (revents : Events)
    (fs : FileSystem)
    (reads : List ReadResult)
    (writes : List WriteResult)
    (now : Timeval)
| handleExpired
    (policy : TopPolicy)
    (clock : Nat → Timeval)

/- The loop as a machine. -/
def eventLoop : Machine EventLoop LoopEvent where
  enabled s
  | .newEvent fd _ => s.Unused fd
  | .handleEvents fd revents _ _ _ _ =>
      ∃ reg, s.epoll fd = some reg ∧ reg.Reports revents
  | .handleExpired _ _ => True
  step s
  | .newEvent fd now => some (s.newEvent fd now)
  | .handleEvents fd revents fs reads writes now =>
      s.handleEvents fd revents fs reads writes now
  | .handleExpired policy clock =>
      some (s.handleExpired policy clock)

end V3

end WebServer

------------------------------------------------------------
-- What A Step Does
------------------------------------------------------------

namespace WebServer

namespace V3

/- A new object once it is registered. -/
def HttpObject.opened
    (fd : Fd)
    (addr : TimerAddr) : HttpObject :=
  { HttpObject.new fd with
    http := { HttpData.new with timer := some addr }
    channel := ⟨.defaultEvent, .defaultEvent⟩ }

/- An object for which `handleConn` updated the poller. -/
def HttpObject.updated
    (obj : HttpObject)
    (c : Conn)
    (addr : TimerAddr) : HttpObject :=
  { obj.after c true with
    http := { c.http with timer := some addr }
    channel := ⟨c.watched, c.watched⟩ }

namespace EventLoop

/- `EPOLL_CTL_MOD`, unless `lastEvents_` makes it needless. -/
def registers
    (s : EventLoop)
    (fd : Fd)
    (channel : Channel)
    (events : Events) : Fd → Option Registration :=
  if channel.lastEvents = events then
    s.epoll
  else
    Function.update s.epoll fd (some ⟨events, true⟩)

/- The loop with a new connection registered. -/
def opened
    (s : EventLoop)
    (fd : Fd)
    (now : Timeval) : EventLoop where
  objects :=
    Function.update s.objects s.nextId
      (some (.opened fd s.timers.nextAddr))
  fd2chan := Function.update s.fd2chan fd (some s.nextId)
  fd2http := Function.update s.fd2http fd (some s.nextId)
  epoll :=
    Function.update s.epoll fd (some ⟨.defaultEvent, true⟩)
  timers :=
    (s.timers.addTimer s.nextId defaultExpiredTime now).1
  nextId := s.nextId + 1

theorem newEvent_eq
    {s : EventLoop}
    {fd : Fd}
    (hFree : s.epoll fd = none)
    (now : Timeval) :
    s.newEvent fd now = s.opened fd now := by
  have hTimeout : 0 < defaultExpiredTime := by decide
  unfold newEvent addfd
  simp only [if_pos hTimeout, addTimer, HttpObject.new, hFree]
  rfl

theorem modfd_eq
    {s : EventLoop}
    {obj : HttpObject}
    {reg : Registration}
    {timeout : Nat}
    (hTimeout : 0 < timeout)
    (hReg : s.epoll obj.fd = some reg)
    (id : ConnId)
    (now : Timeval) :
    s.modfd id obj timeout now =
      ({ s with
          timers := (s.timers.addTimer id timeout now).1
          epoll :=
            s.registers obj.fd obj.channel
              obj.channel.events },
        { obj with
          http :=
            { obj.http with timer := some s.timers.nextAddr }
          channel :=
            ⟨obj.channel.events, obj.channel.events⟩ }) := by
  unfold modfd registers
  simp only [if_pos hTimeout, addTimer,
    Channel.equalAndUpdateLastEvents, decide_eq_true_eq,
    hReg]
  split_ifs
  · rfl
  · rfl

/-
  What `handleConn` does to a registered connection: it arms
  a new timer and updates the poller, leaves it without a
  timer, or closes it.
-/
theorem handleConn_cases
    {s : EventLoop}
    {obj : HttpObject}
    {reg : Registration}
    (hReg : s.epoll obj.fd = some reg)
    (id : ConnId)
    (c : Conn)
    (now : Timeval) :
    (c.http.error = false ∧
      c.http.connectionState = .connected ∧
      ∃ timeout,
        s.handleConn id obj c now =
          { s with
            timers :=
              (c.seperateTimer.timers.addTimer id timeout
                now).1
            epoll :=
              s.registers obj.fd c.channel c.watched }.put id
            (obj.updated c
              c.seperateTimer.timers.nextAddr)) ∨
      (c.HalfClosed ∧
        s.handleConn id obj c now =
          { s with timers := c.seperateTimer.timers }.put id
            (obj.after
              { c.seperateTimer with
                channel := c.channel.setEvents .outEt }
              true)) ∨
      (c.Closes ∧
        s.handleConn id obj c now =
          { s with
            timers := c.seperateTimer.timers }.handleClose id
            (obj.after c.seperateTimer true)) := by
  rcases c.seperateTimer_frame with ⟨timer, timers, hSep⟩
  rcases c.handleConn_cases with
    ⟨hError, hOpen, timeout, hTimeout, hCall⟩ |
      ⟨hHalf, hCall⟩ | ⟨hCloses, hCall⟩
  · refine .inl ⟨hError, hOpen, timeout, ?_⟩
    have hMod :=
      @modfd_eq { s with timers := c.seperateTimer.timers }
        (obj.after
          { c.seperateTimer with
            channel := c.channel.setEvents c.watched }
          true)
        reg timeout hTimeout hReg id now
    unfold handleConn
    rw [hCall]
    simp only
    rw [hMod, hSep]
    rfl
  · refine .inr (.inl ⟨hHalf, ?_⟩)
    unfold handleConn
    rw [hCall]
  · refine .inr (.inr ⟨hCloses, ?_⟩)
    unfold handleConn
    rw [hCall]

end EventLoop

end V3

end WebServer

------------------------------------------------------------
-- Tables Of The Poller
------------------------------------------------------------

namespace WebServer

namespace V3

namespace EventLoop

/- A connection held is an object with that descriptor. -/
structure Slots
    (s : EventLoop) : Prop where
  object :
    ∀ fd id, s.fd2http fd = some id →
      ∃ obj, s.objects id = some obj ∧ obj.fd = fd
  known :
    ∀ id obj, s.objects id = some obj →
      id < s.nextId ∧ obj.http.nowReadPos = 0

theorem slots_new :
    new.Slots where
  object := by
    intro fd id h
    cases h
  known := by
    intro id obj h
    cases h

/- No connection is held on a descriptor that is not open. -/
theorem Slots.fd2http_of_unused
    {s : EventLoop}
    {fd : Fd}
    (h : s.Slots)
    (hUnused : s.Unused fd) :
    s.fd2http fd = none := by
  cases hHeld : s.fd2http fd with
  | none => rfl
  | some id =>
      rcases h.object fd id hHeld with ⟨obj, hObj, hFd⟩
      exact absurd hFd (hUnused id obj hObj (.inl ⟨fd, hHeld⟩))

/-
  The tables of the poller and of the kernel agree, and a
  connection held is an object with that descriptor.
-/
structure Wired
    (s : EventLoop) : Prop where
  channel : ∀ fd, s.fd2chan fd = s.fd2http fd
  registered :
    ∀ fd, s.epoll fd = none ↔ s.fd2http fd = none
  object :
    ∀ fd id, s.fd2http fd = some id →
      ∃ obj, s.objects id = some obj ∧ obj.fd = fd
  known :
    ∀ id obj, s.objects id = some obj →
      id < s.nextId ∧ obj.http.nowReadPos = 0

theorem Wired.slots
    {s : EventLoop}
    (h : s.Wired) :
    s.Slots where
  object := h.object
  known := h.known

theorem wired_new :
    new.Wired where
  channel := fun _ => rfl
  registered := fun _ => ⟨fun _ => rfl, fun _ => rfl⟩
  object := slots_new.object
  known := slots_new.known

/- `EPOLL_CTL_ADD` never meets a registered descriptor. -/
theorem Wired.epoll_of_unused
    {s : EventLoop}
    {fd : Fd}
    (h : s.Wired)
    (hUnused : s.Unused fd) :
    s.epoll fd = none :=
  (h.registered fd).mpr (h.slots.fd2http_of_unused hUnused)

/- A registered descriptor belongs to a connection held. -/
theorem Wired.held
    {s : EventLoop}
    {fd : Fd}
    {reg : Registration}
    (h : s.Wired)
    (hReg : s.epoll fd = some reg) :
    ∃ id obj,
      s.fd2http fd = some id ∧
        s.objects id = some obj ∧
        obj.fd = fd := by
  cases hHeld : s.fd2http fd with
  | none =>
      rw [(h.registered fd).mpr hHeld] at hReg
      cases hReg
  | some id =>
      rcases h.object fd id hHeld with ⟨obj, hObj, hFd⟩
      exact ⟨id, obj, rfl, hObj, hFd⟩

/- What one reported event does. -/
theorem Wired.handleEvents_cases
    {s t : EventLoop}
    {fd : Fd}
    {revents : Events}
    {fs : FileSystem}
    {reads : List ReadResult}
    {writes : List WriteResult}
    {now : Timeval}
    {reg : Registration}
    (h : s.Wired)
    (hReg : s.epoll fd = some reg)
    (hStep :
      s.handleEvents fd revents fs reads writes now = some t) :
    ∃ id obj c,
      s.fd2http fd = some id ∧
        s.objects id = some obj ∧
        obj.fd = fd ∧
        (((obj.conn s.timers reads writes).handleEvents fs
              revents = .ok (false, c) ∧
            t =
              { s.report fd with timers := c.timers }.put id
                (obj.after c false)) ∨
          ((obj.conn s.timers reads writes).handleEvents fs
              revents = .ok (true, c) ∧
            t = (s.report fd).handleConn id obj c now)) := by
  rcases h.held hReg with ⟨id, obj, hHeld, hObj, hFd⟩
  unfold handleEvents at hStep
  rw [h.channel fd, hHeld] at hStep
  simp only [hObj] at hStep
  cases hCall :
      (obj.conn s.timers reads writes).handleEvents fs
        revents with
  | error f =>
      rw [hCall] at hStep
      cases hStep
  | ok result =>
      rcases result with ⟨handlerRan, c⟩
      rw [hCall] at hStep
      refine ⟨id, obj, c, hHeld, hObj, hFd, ?_⟩
      cases handlerRan with
      | false =>
          cases hStep
          exact .inl ⟨hCall, rfl⟩
      | true =>
          cases hStep
          exact .inr ⟨hCall, rfl⟩

end EventLoop

end V3

end WebServer

------------------------------------------------------------
-- Calls Of `handleConn`
------------------------------------------------------------

namespace WebServer

namespace V3

namespace EventLoop

/- A step calls `handleConn`, and finds the connection so. -/
def CallsHandleConn
    (s : EventLoop) :
    LoopEvent → Conn → Prop
| .handleEvents fd revents fs reads writes _, c =>
    ∃ id obj,
      s.fd2chan fd = some id ∧
        s.objects id = some obj ∧
        (obj.conn s.timers reads writes).handleEvents fs
          revents = .ok (true, c)
| _, _ => False

theorem handleEvents_of_calls
    {s : EventLoop}
    {fd : Fd}
    {revents : Events}
    {fs : FileSystem}
    {reads : List ReadResult}
    {writes : List WriteResult}
    {id : ConnId}
    {obj : HttpObject}
    {c : Conn}
    (hChan : s.fd2chan fd = some id)
    (hObj : s.objects id = some obj)
    (hCall :
      (obj.conn s.timers reads writes).handleEvents fs
        revents = .ok (true, c))
    (now : Timeval) :
    s.handleEvents fd revents fs reads writes now =
      some ((s.report fd).handleConn id obj c now) := by
  unfold handleEvents
  rw [hChan]
  simp only [hObj, hCall]

end EventLoop

end V3

end WebServer

------------------------------------------------------------
-- Steps Keep The Tables
------------------------------------------------------------

namespace WebServer

namespace V3

namespace Conn

/- The handlers leave the parser at the buffer's start. -/
theorem handleEvents_nowReadPos
    {c c' : Conn}
    {fs : FileSystem}
    {revents : Events}
    {handlerRan : Bool}
    (hPos : c.http.nowReadPos = 0)
    (h : c.handleEvents fs revents = .ok (handlerRan, c')) :
    c'.http.nowReadPos = 0 := by
  rcases handleEvents_cases h with
    ⟨_, rfl⟩ | ⟨_, c₁, hRead, rfl⟩
  · exact hPos
  · have hPos₀ : c.clearEvents.http.nowReadPos = 0 := hPos
    have hPos₁ : c₁.http.nowReadPos = 0 := by
      rcases hRead with ⟨_, hCall⟩ | ⟨_, rfl⟩
      · exact
          (later_handleReadAt hPos₀ hCall).nowReadPos hPos₀
      · exact hPos₀
    split_ifs
    · exact (later_handleWrite c₁).nowReadPos hPos₁
    · exact hPos₁

end Conn

namespace EventLoop

/- An object keeps its descriptor. -/
theorem Slots.put
    {s : EventLoop}
    {id : ConnId}
    {old obj : HttpObject}
    (h : s.Slots)
    (hOld : s.objects id = some old)
    (hFd : obj.fd = old.fd)
    (hPos : obj.http.nowReadPos = 0) :
    (s.put id obj).Slots where
  object := by
    intro fd id' hHeld
    rcases h.object fd id' hHeld with ⟨obj', hObj, hFd'⟩
    by_cases hSame : id' = id
    · subst hSame
      rw [hOld] at hObj
      cases hObj
      exact
        ⟨obj, Function.update_self _ _ _, hFd.trans hFd'⟩
    · refine ⟨obj', ?_, hFd'⟩
      exact (Function.update_of_ne hSame _ _).trans hObj
  known := by
    intro id' obj' hObj
    change Function.update s.objects id (some obj) id' =
      some obj' at hObj
    by_cases hSame : id' = id
    · subst hSame
      rw [Function.update_self] at hObj
      cases hObj
      exact ⟨(h.known id' old hOld).1, hPos⟩
    · rw [Function.update_of_ne hSame] at hObj
      exact h.known id' obj' hObj

/- Only `fd2http_` and the objects are slots. -/
theorem Slots.setTimers
    {s : EventLoop}
    (h : s.Slots)
    (timers : TimerManager) :
    { s with timers := timers }.Slots where
  object := h.object
  known := h.known

theorem Slots.handleClose
    {s : EventLoop}
    {id : ConnId}
    {old obj : HttpObject}
    (h : s.Slots)
    (hOld : s.objects id = some old)
    (hFd : obj.fd = old.fd)
    (hPos : obj.http.nowReadPos = 0) :
    (s.handleClose id obj).Slots := by
  have hGone : (s.delfd obj).Slots := by
    refine ⟨?_, h.known⟩
    intro fd id' hHeld
    change Function.update s.fd2http obj.fd none fd =
      some id' at hHeld
    by_cases hSame : fd = obj.fd
    · subst hSame
      rw [Function.update_self] at hHeld
      cases hHeld
    · rw [Function.update_of_ne hSame] at hHeld
      exact h.object fd id' hHeld
  exact hGone.put hOld hFd hPos

theorem Slots.opened
    {s : EventLoop}
    (h : s.Slots)
    (fd : Fd)
    (now : Timeval) :
    (s.opened fd now).Slots := by
  refine ⟨?_, ?_⟩
  · intro fd' id hHeld
    unfold EventLoop.opened at hHeld ⊢
    simp only at hHeld ⊢
    by_cases hSame : fd' = fd
    · subst hSame
      rw [Function.update_self] at hHeld
      cases hHeld
      exact ⟨_, Function.update_self _ _ _, rfl⟩
    · rw [Function.update_of_ne hSame] at hHeld
      rcases h.object fd' id hHeld with ⟨obj, hObj, hFd⟩
      have hOther : id ≠ s.nextId :=
        Nat.ne_of_lt (h.known id obj hObj).1
      refine ⟨obj, ?_, hFd⟩
      rw [Function.update_of_ne hOther]
      exact hObj
  · intro id obj hObj
    unfold EventLoop.opened at hObj ⊢
    simp only at hObj ⊢
    by_cases hSame : id = s.nextId
    · subst hSame
      rw [Function.update_self] at hObj
      cases hObj
      exact ⟨Nat.lt_succ_self _, rfl⟩
    · rw [Function.update_of_ne hSame] at hObj
      have hOld := h.known id obj hObj
      exact ⟨Nat.lt_succ_of_lt hOld.1, hOld.2⟩

theorem Wired.put
    {s : EventLoop}
    {id : ConnId}
    {old obj : HttpObject}
    (h : s.Wired)
    (hOld : s.objects id = some old)
    (hFd : obj.fd = old.fd)
    (hPos : obj.http.nowReadPos = 0) :
    (s.put id obj).Wired where
  channel := h.channel
  registered := h.registered
  object := (h.slots.put hOld hFd hPos).object
  known := (h.slots.put hOld hFd hPos).known

/- Timers and registered events are not part of the tables. -/
theorem Wired.reregister
    {s : EventLoop}
    {epoll : Fd → Option Registration}
    (h : s.Wired)
    (hSame : ∀ fd, epoll fd = none ↔ s.epoll fd = none)
    (timers : TimerManager) :
    { s with
      timers := timers
      epoll := epoll }.Wired where
  channel := h.channel
  registered := fun fd => (hSame fd).trans (h.registered fd)
  object := h.object
  known := h.known

theorem Wired.setTimers
    {s : EventLoop}
    (h : s.Wired)
    (timers : TimerManager) :
    { s with timers := timers }.Wired :=
  h.reregister (fun _ => Iff.rfl) timers

theorem update_none_iff
    {epoll : Fd → Option Registration}
    {fd : Fd}
    {reg reg' : Registration}
    (hReg : epoll fd = some reg)
    (fd' : Fd) :
    Function.update epoll fd (some reg') fd' = none ↔
      epoll fd' = none := by
  by_cases hSame : fd' = fd
  · subst hSame
    rw [Function.update_self, hReg]
    simp
  · rw [Function.update_of_ne hSame]

theorem registers_none_iff
    {s : EventLoop}
    {fd : Fd}
    {reg : Registration}
    (hReg : s.epoll fd = some reg)
    (channel : Channel)
    (events : Events)
    (fd' : Fd) :
    s.registers fd channel events fd' = none ↔
      s.epoll fd' = none := by
  unfold registers
  split_ifs
  · exact Iff.rfl
  · exact update_none_iff hReg fd'

theorem report_eq
    {s : EventLoop}
    {fd : Fd}
    {reg : Registration}
    (hReg : s.epoll fd = some reg) :
    s.report fd =
      { s with
        epoll :=
          Function.update s.epoll fd (some reg.reported) } := by
  unfold report
  rw [hReg]
  rfl

theorem Wired.report
    {s : EventLoop}
    {fd : Fd}
    {reg : Registration}
    (h : s.Wired)
    (hReg : s.epoll fd = some reg) :
    (s.report fd).Wired := by
  rw [report_eq hReg]
  exact h.reregister (update_none_iff hReg) s.timers

theorem Wired.handleClose
    {s : EventLoop}
    {id : ConnId}
    {old obj : HttpObject}
    (h : s.Wired)
    (hOld : s.objects id = some old)
    (hFd : obj.fd = old.fd)
    (hPos : obj.http.nowReadPos = 0) :
    (s.handleClose id obj).Wired := by
  have hSlots :=
    h.slots.handleClose hOld hFd hPos
  refine ⟨?_, ?_, hSlots.object, hSlots.known⟩
  · intro fd
    change Function.update s.fd2chan obj.fd none fd =
      Function.update s.fd2http obj.fd none fd
    by_cases hSame : fd = obj.fd
    · subst hSame
      rw [Function.update_self, Function.update_self]
    · rw [Function.update_of_ne hSame,
        Function.update_of_ne hSame]
      exact h.channel fd
  · intro fd
    change Function.update s.epoll obj.fd none fd = none ↔
      Function.update s.fd2http obj.fd none fd = none
    by_cases hSame : fd = obj.fd
    · subst hSame
      rw [Function.update_self, Function.update_self]
      simp
    · rw [Function.update_of_ne hSame,
        Function.update_of_ne hSame]
      exact h.registered fd

theorem Wired.newEvent
    {s : EventLoop}
    {fd : Fd}
    (h : s.Wired)
    (hUnused : s.Unused fd)
    (now : Timeval) :
    (s.newEvent fd now).Wired := by
  rw [newEvent_eq (h.epoll_of_unused hUnused)]
  have hSlots := h.slots.opened fd now
  refine ⟨?_, ?_, hSlots.object, hSlots.known⟩
  · intro fd'
    unfold opened
    simp only
    by_cases hSame : fd' = fd
    · subst hSame
      rw [Function.update_self, Function.update_self]
    · rw [Function.update_of_ne hSame,
        Function.update_of_ne hSame]
      exact h.channel fd'
  · intro fd'
    unfold opened
    simp only
    by_cases hSame : fd' = fd
    · subst hSame
      rw [Function.update_self, Function.update_self]
      simp
    · rw [Function.update_of_ne hSame,
        Function.update_of_ne hSame]
      exact h.registered fd'

theorem Wired.closeExpired
    {s : EventLoop}
    (h : s.Wired)
    (id : ConnId) :
    (s.closeExpired id).Wired := by
  unfold EventLoop.closeExpired
  cases hObj : s.objects id with
  | none => exact h
  | some obj =>
      exact
        h.handleClose hObj rfl (h.known id obj hObj).2

theorem Wired.closeAll
    {s : EventLoop}
    (h : s.Wired)
    (closed : List ConnId) :
    (closed.foldl EventLoop.closeExpired s).Wired := by
  induction closed generalizing s with
  | nil => exact h
  | cons id closed ih => exact ih (h.closeExpired id)

theorem Wired.handleConn
    {s : EventLoop}
    {id : ConnId}
    {obj : HttpObject}
    {reg : Registration}
    {c : Conn}
    (h : s.Wired)
    (hObj : s.objects id = some obj)
    (hReg : s.epoll obj.fd = some reg)
    (hPos : c.http.nowReadPos = 0)
    (now : Timeval) :
    (s.handleConn id obj c now).Wired := by
  rcases c.seperateTimer_frame with ⟨timer, timers, hSep⟩
  have hSepPos : c.seperateTimer.http.nowReadPos = 0 := by
    rw [hSep]
    exact hPos
  rcases handleConn_cases hReg id c now with
    ⟨_, _, timeout, hCase⟩ | ⟨_, hCase⟩ | ⟨_, hCase⟩
  · rw [hCase]
    have hNext :=
      h.reregister
        (registers_none_iff hReg c.channel c.watched)
        (c.seperateTimer.timers.addTimer id timeout now).1
    exact hNext.put hObj rfl hPos
  · rw [hCase]
    exact
      (h.setTimers c.seperateTimer.timers).put hObj rfl
        hSepPos
  · rw [hCase]
    exact
      (h.setTimers c.seperateTimer.timers).handleClose hObj
        rfl hSepPos

/- Every step keeps the tables in agreement. -/
theorem Wired.step
    {s t : EventLoop}
    {e : LoopEvent}
    (h : s.Wired)
    (hEnabled : eventLoop.enabled s e)
    (hStep : eventLoop.step s e = some t) :
    t.Wired := by
  cases e with
  | newEvent fd now =>
      cases hStep
      exact h.newEvent hEnabled now
  | handleEvents fd revents fs reads writes now =>
      rcases hEnabled with ⟨reg, hReg, _⟩
      rcases h.handleEvents_cases hReg hStep with
        ⟨id, obj, c, _, hObj, hFd, hCase⟩
      have hPos := (h.known id obj hObj).2
      rcases hCase with ⟨hCall, rfl⟩ | ⟨hCall, rfl⟩
      · have hNext :=
          (h.report hReg).setTimers c.timers
        exact
          hNext.put hObj rfl
            (Conn.handleEvents_nowReadPos hPos hCall)
      · have hReported :
            (s.report fd).epoll obj.fd =
              some reg.reported := by
          rw [report_eq hReg, hFd]
          exact Function.update_self _ _ _
        exact
          (h.report hReg).handleConn hObj hReported
            (Conn.handleEvents_nowReadPos hPos hCall) now
  | handleExpired policy clock =>
      cases hStep
      unfold EventLoop.handleExpired
      exact (h.setTimers _).closeAll _

end EventLoop

end V3

end WebServer
