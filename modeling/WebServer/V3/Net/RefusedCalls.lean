import WebServer.V3.Net.TimerCoverage

/-
  A loop of version 3.0 whose kernel may refuse to register
  a descriptor.

  `addfd` and `modfd` drop the channel of a connection when
  `epoll_ctl` fails, and nothing else: its timer is armed by
  then, and `fd2http_` keeps the object. What the kernel does
  is data of the step, so that every run is covered, with
  any call of `EPOLL_CTL_ADD` or `EPOLL_CTL_MOD` refused.
  `delfd` goes on the same way when its call fails.

  Each step leaves what the step of `eventLoop` leaves, but
  for channels dropped and the kernel's own table.

  Key definitions include:
    * `EventLoop.tryAddfd`
    * `EventLoop.tryModfd`
    * `refusingLoop`
    * `EventLoop.handled`
    * `EventLoop.Drops`
    * `EventLoop.Owned`

  Key theorems include:
    * `refusingLoop_granted`
    * `EventLoop.tryHandleEvents_cases`
    * `EventLoop.Owned.step`
-/

------------------------------------------------------------
-- A Kernel That Refuses
------------------------------------------------------------

namespace WebServer

namespace V3

namespace EventLoop

/- `addfd(request, timeout)`. -/
def tryAddfd
    (refused : Bool)
    (s : EventLoop)
    (id : ConnId)
    (obj : HttpObject)
    (timeout : Nat)
    (now : Timeval) : EventLoop × HttpObject :=
  let (s, obj) :=
    if 0 < timeout then
      let (s, obj) := s.addTimer id obj timeout now
      ({ s with
          fd2http :=
            Function.update s.fd2http obj.fd (some id) },
        obj)
    else
      (s, obj)
  let event := obj.channel.events
  let obj :=
    { obj with
      channel := obj.channel.equalAndUpdateLastEvents.2 }
  let s :=
    { s with
      fd2chan := Function.update s.fd2chan obj.fd (some id) }
  if refused || (s.epoll obj.fd).isSome then
    ({ s with
        fd2chan := Function.update s.fd2chan obj.fd none },
      obj)
  else
    ({ s with
        epoll :=
          Function.update s.epoll obj.fd
            (some ⟨event, true⟩) },
      obj)

/- `modfd(request, timeout)`. -/
def tryModfd
    (refused : Bool)
    (s : EventLoop)
    (id : ConnId)
    (obj : HttpObject)
    (timeout : Nat)
    (now : Timeval) : EventLoop × HttpObject :=
  let (s, obj) :=
    if 0 < timeout then
      s.addTimer id obj timeout now
    else
      (s, obj)
  let (equal, channel) :=
    obj.channel.equalAndUpdateLastEvents
  let obj := { obj with channel := channel }
  if equal then
    (s, obj)
  else if refused || (s.epoll obj.fd).isNone then
    ({ s with
        fd2chan := Function.update s.fd2chan obj.fd none },
      obj)
  else
    ({ s with
        epoll :=
          Function.update s.epoll obj.fd
            (some ⟨obj.channel.events, true⟩) },
      obj)

/- A new `HttpData` object, and `newEvent()` on it. -/
def tryNewEvent
    (refused : Bool)
    (s : EventLoop)
    (fd : Fd)
    (now : Timeval) : EventLoop :=
  let id := s.nextId
  let obj := HttpObject.new fd
  let obj :=
    { obj with channel := obj.channel.setEvents .defaultEvent }
  let (s, obj) :=
    s.tryAddfd refused id obj defaultExpiredTime now
  { s.put id obj with nextId := id + 1 }

/- `handleConn()` on what the other handlers left. -/
def tryHandleConn
    (refused : Bool)
    (s : EventLoop)
    (id : ConnId)
    (obj : HttpObject)
    (c : Conn)
    (now : Timeval) : EventLoop :=
  let (call, c) := c.handleConn
  let s := { s with timers := c.timers }
  let obj := obj.after c true
  match call with
  | .updatePoller timeout =>
      let (s, obj) := s.tryModfd refused id obj timeout now
      s.put id obj
  | .handleClose => s.handleClose id obj
  | .noCall => s.put id obj

/- One entry of the list that `poll` returns. -/
def tryHandleEvents
    (refused : Bool)
    (s : EventLoop)
    (fd : Fd)
    (revents : Events)
    (fs : FileSystem)
    (reads : List ReadResult)
    (writes : List WriteResult)
    (now : Timeval) : Option EventLoop :=
  match s.fd2chan fd with
  | none => some (s.report fd)
  | some id =>
      match s.objects id with
      | none => none
      | some obj =>
          match
            (obj.conn s.timers reads writes).handleEvents fs
              revents with
          | .error _ => none
          | .ok (false, c) =>
              some
                ({ s.report fd with timers := c.timers }.put
                  id (obj.after c false))
          | .ok (true, c) =>
              some
                ((s.report fd).tryHandleConn refused id obj c
                  now)

end EventLoop

/-
  The loop, with whether the kernel refuses the call that a
  step makes.
-/
def refusingLoop : Machine EventLoop (LoopEvent × Bool) where
  enabled s e := eventLoop.enabled s e.1
  step s e :=
    match e with
    | (.newEvent fd now, refused) =>
        some (s.tryNewEvent refused fd now)
    | (.handleEvents fd revents fs reads writes now,
        refused) =>
        s.tryHandleEvents refused fd revents fs reads writes
          now
    | (.handleExpired policy clock, _) =>
        some (s.handleExpired policy clock)

end V3

end WebServer

------------------------------------------------------------
-- A Kernel That Grants
------------------------------------------------------------

namespace WebServer

namespace V3

namespace EventLoop

theorem tryAddfd_granted
    (s : EventLoop)
    (id : ConnId)
    (obj : HttpObject)
    (timeout : Nat)
    (now : Timeval) :
    s.tryAddfd false id obj timeout now =
      s.addfd id obj timeout now := by
  unfold tryAddfd addfd addTimer
  split_ifs <;>
  · simp only [Bool.false_or]
    cases s.epoll obj.fd <;> simp

theorem tryModfd_granted
    (s : EventLoop)
    (id : ConnId)
    (obj : HttpObject)
    (timeout : Nat)
    (now : Timeval) :
    s.tryModfd false id obj timeout now =
      s.modfd id obj timeout now := by
  unfold tryModfd modfd addTimer
  split_ifs <;>
  · simp only [Bool.false_or]
    cases s.epoll obj.fd <;> simp

theorem tryNewEvent_granted
    (s : EventLoop)
    (fd : Fd)
    (now : Timeval) :
    s.tryNewEvent false fd now = s.newEvent fd now := by
  unfold tryNewEvent newEvent
  simp only [tryAddfd_granted]

theorem tryHandleConn_granted
    (s : EventLoop)
    (id : ConnId)
    (obj : HttpObject)
    (c : Conn)
    (now : Timeval) :
    s.tryHandleConn false id obj c now =
      s.handleConn id obj c now := by
  unfold tryHandleConn handleConn
  rcases c.handleConn with ⟨call, c⟩
  cases call with
  | updatePoller timeout => simp only [tryModfd_granted]
  | handleClose => rfl
  | noCall => rfl

end EventLoop

/- If no call is refused, the loop is `eventLoop`. -/
theorem refusingLoop_granted
    (s : EventLoop)
    (e : LoopEvent) :
    refusingLoop.step s (e, false) = eventLoop.step s e := by
  cases e with
  | newEvent fd now =>
      exact congrArg some (s.tryNewEvent_granted fd now)
  | handleEvents fd revents fs reads writes now =>
      change
        s.tryHandleEvents false fd revents fs reads writes
            now =
          s.handleEvents fd revents fs reads writes now
      unfold EventLoop.tryHandleEvents EventLoop.handleEvents
      cases s.fd2chan fd with
      | none => rfl
      | some id =>
          cases hObj : s.objects id with
          | none => simp only [hObj]
          | some obj =>
              simp only [hObj]
              rcases
                (obj.conn s.timers reads writes).handleEvents
                  fs revents with
                f | ⟨handlerRan, c⟩
              · rfl
              · cases handlerRan with
                | false => rfl
                | true =>
                    simp only
                      [EventLoop.tryHandleConn_granted]
  | handleExpired policy clock => rfl

end V3

end WebServer

------------------------------------------------------------
-- What A Refusal Changes
------------------------------------------------------------

namespace WebServer

namespace V3

namespace EventLoop

/-
  The second loop is the first with channels dropped and any
  table of the kernel.
-/
structure Drops
    (s t : EventLoop) : Prop where
  objects : t.objects = s.objects
  fd2http : t.fd2http = s.fd2http
  timers : t.timers = s.timers
  nextId : t.nextId = s.nextId
  channel :
    ∀ fd id, t.fd2chan fd = some id → s.fd2chan fd = some id

theorem Drops.reregister
    (s : EventLoop)
    (epoll : Fd → Option Registration) :
    s.Drops { s with epoll := epoll } where
  objects := rfl
  fd2http := rfl
  timers := rfl
  nextId := rfl
  channel := fun _ _ h => h

theorem Drops.reset
    (s : EventLoop)
    (fd : Fd) :
    s.Drops
      { s with
        fd2chan := Function.update s.fd2chan fd none } where
  objects := rfl
  fd2http := rfl
  timers := rfl
  nextId := rfl
  channel := by
    intro fd' id h
    simp only at h
    by_cases hSame : fd' = fd
    · subst hSame
      rw [Function.update_self] at h
      cases h
    · rw [Function.update_of_ne hSame] at h
      exact h

theorem Drops.trans
    {s t u : EventLoop}
    (h : s.Drops t)
    (h' : t.Drops u) :
    s.Drops u where
  objects := h'.objects.trans h.objects
  fd2http := h'.fd2http.trans h.fd2http
  timers := h'.timers.trans h.timers
  nextId := h'.nextId.trans h.nextId
  channel := fun fd id hChan =>
    h.channel fd id (h'.channel fd id hChan)

theorem Drops.setTimers
    {s t : EventLoop}
    (h : s.Drops t)
    (timers : TimerManager) :
    { s with timers := timers }.Drops
      { t with timers := timers } where
  objects := h.objects
  fd2http := h.fd2http
  timers := rfl
  nextId := h.nextId
  channel := h.channel

theorem Drops.put
    {s t : EventLoop}
    (h : s.Drops t)
    (id : ConnId)
    (obj : HttpObject) :
    (s.put id obj).Drops (t.put id obj) where
  objects := by
    change Function.update t.objects id (some obj) = _
    rw [h.objects]
    rfl
  fd2http := h.fd2http
  timers := h.timers
  nextId := h.nextId
  channel := h.channel

/- A change at one place keeps what a table names. -/
theorem names_update
    {f g : Fd → Option ConnId}
    (h : ∀ fd id, f fd = some id → g fd = some id)
    (place : Fd)
    (entry : Option ConnId) :
    ∀ fd id,
      Function.update f place entry fd = some id →
        Function.update g place entry fd = some id := by
  intro fd id hNames
  by_cases hSame : fd = place
  · subst hSame
    rw [Function.update_self] at hNames ⊢
    exact hNames
  · rw [Function.update_of_ne hSame] at hNames ⊢
    exact h fd id hNames

theorem Drops.handleClose
    {s t : EventLoop}
    (h : s.Drops t)
    (id : ConnId)
    (obj : HttpObject) :
    (s.handleClose id obj).Drops (t.handleClose id obj) := by
  have hGone : (s.delfd obj).Drops (t.delfd obj) := by
    refine ⟨h.objects, ?_, h.timers, h.nextId, ?_⟩
    · change Function.update t.fd2http obj.fd none = _
      rw [h.fd2http]
      rfl
    · exact names_update h.channel obj.fd none
  exact hGone.put id _

/- A new connection is opened, registered or not. -/
theorem drops_tryNewEvent
    (refused : Bool)
    (s : EventLoop)
    (fd : Fd)
    (now : Timeval) :
    (s.opened fd now).Drops (s.tryNewEvent refused fd now) := by
  have hTimeout : 0 < defaultExpiredTime := by decide
  unfold tryNewEvent tryAddfd
  simp only [if_pos hTimeout, addTimer, HttpObject.new]
  by_cases hFails : refused || (s.epoll fd).isSome
  · rw [if_pos hFails]
    exact
      (Drops.reset (s.opened fd now) fd).trans
        (.reregister _ _)
  · rw [if_neg hFails]
    exact .reregister (s.opened fd now) _

/- A timer is armed, registered or not. -/
theorem drops_tryModfd
    {timeout : Nat}
    (hTimeout : 0 < timeout)
    (refused : Bool)
    (s : EventLoop)
    (id : ConnId)
    (obj : HttpObject)
    (now : Timeval) :
    ∃ t,
      s.tryModfd refused id obj timeout now =
          (t,
            { obj with
              http :=
                { obj.http with
                  timer := some s.timers.nextAddr }
              channel :=
                ⟨obj.channel.events, obj.channel.events⟩ }) ∧
        { s with
          timers :=
            (s.timers.addTimer id timeout now).1 }.Drops t := by
  unfold tryModfd
  simp only [if_pos hTimeout, addTimer,
    Channel.equalAndUpdateLastEvents, decide_eq_true_eq]
  split_ifs
  · exact ⟨_, rfl, .reregister _ s.epoll⟩
  · exact ⟨_, rfl, .reset _ obj.fd⟩
  · exact ⟨_, rfl, .reregister _ _⟩

/-
  What `handleConn` does to a connection: it arms a new
  timer, leaves it without a timer, or closes it.
-/
theorem tryHandleConn_cases
    (refused : Bool)
    (s : EventLoop)
    (id : ConnId)
    (obj : HttpObject)
    (c : Conn)
    (now : Timeval) :
    (c.handleConn.1 = .updatePoller c.timeout ∧
      ({ s with
          timers :=
            (c.seperateTimer.timers.addTimer id c.timeout
              now).1 }.put id
        (obj.updated c c.seperateTimer.timers.nextAddr)).Drops
        (s.tryHandleConn refused id obj c now)) ∨
      (c.handleConn.1 = .noCall ∧
        s.tryHandleConn refused id obj c now =
          { s with timers := c.seperateTimer.timers }.put id
            (obj.after
              { c.seperateTimer with
                channel := c.channel.setEvents .outEt }
              true)) ∨
      (c.handleConn.1 = .handleClose ∧
        s.tryHandleConn refused id obj c now =
          { s with
            timers := c.seperateTimer.timers }.handleClose id
            (obj.after c.seperateTimer true)) := by
  rcases c.seperateTimer_frame with ⟨timer, timers, hSep⟩
  by_cases hOpen :
      c.http.error = false ∧
        c.http.connectionState = .connected
  · left
    have hTimeout : 0 < c.timeout := by
      unfold Conn.timeout
      split_ifs <;> decide
    have hCall :=
      Conn.handleConn_of_connected hOpen.1 hOpen.2
    refine ⟨congrArg Prod.fst hCall, ?_⟩
    rcases
      drops_tryModfd hTimeout refused
        { s with timers := c.seperateTimer.timers } id
        (obj.after
          { c.seperateTimer with
            channel := c.channel.setEvents c.watched }
          true)
        now with
      ⟨t, hMod, hDrops⟩
    unfold tryHandleConn
    rw [hCall]
    simp only
    rw [hMod]
    have hDone :=
      hDrops.put id
        (obj.updated c c.seperateTimer.timers.nextAddr)
    rw [hSep] at hDone ⊢
    exact hDone
  · right
    rcases Conn.handleConn_of_not_connected hOpen with
      ⟨_, hCall⟩ | ⟨_, hCall⟩
    · refine .inl ⟨congrArg Prod.fst hCall, ?_⟩
      unfold tryHandleConn
      rw [hCall]
    · refine .inr ⟨congrArg Prod.fst hCall, ?_⟩
      unfold tryHandleConn
      rw [hCall]

end EventLoop

end V3

end WebServer

------------------------------------------------------------
-- Handled Events
------------------------------------------------------------

namespace WebServer

namespace V3

namespace EventLoop

/-
  The connection on which a reported event calls
  `handleConn`, and what the other handlers left of it.
-/
def handled
    (s : EventLoop)
    (fd : Fd)
    (revents : Events)
    (fs : FileSystem)
    (reads : List ReadResult)
    (writes : List WriteResult) :
    Option (ConnId × HttpObject × Conn) :=
  match s.fd2chan fd with
  | none => none
  | some id =>
      match s.objects id with
      | none => none
      | some obj =>
          match
            (obj.conn s.timers reads writes).handleEvents fs
              revents with
          | .ok (true, c) => some (id, obj, c)
          | _ => none

/- What one reported event does. -/
theorem tryHandleEvents_cases
    {refused : Bool}
    {s t : EventLoop}
    {fd : Fd}
    {revents : Events}
    {fs : FileSystem}
    {reads : List ReadResult}
    {writes : List WriteResult}
    {now : Timeval}
    (hStep :
      s.tryHandleEvents refused fd revents fs reads writes
          now =
        some t) :
    (s.handled fd revents fs reads writes = none ∧
      (s.Drops t ∨
        ∃ id obj obj',
          s.objects id = some obj ∧
            obj'.fd = obj.fd ∧
            obj'.http = obj.http ∧
            (s.put id obj').Drops t)) ∨
      ∃ id obj c,
        s.handled fd revents fs reads writes =
            some (id, obj, c) ∧
          s.fd2chan fd = some id ∧
          s.objects id = some obj ∧
          (obj.conn s.timers reads writes).handleEvents fs
              revents = .ok (true, c) ∧
          t =
            (s.report fd).tryHandleConn refused id obj c
              now := by
  have hReport : s.Drops (s.report fd) :=
    .reregister s _
  unfold tryHandleEvents at hStep
  unfold handled
  cases hChan : s.fd2chan fd with
  | none =>
      rw [hChan] at hStep
      cases hStep
      exact .inl ⟨rfl, .inl hReport⟩
  | some id =>
      rw [hChan] at hStep
      simp only at hStep ⊢
      cases hObj : s.objects id with
      | none =>
          rw [hObj] at hStep
          cases hStep
      | some obj =>
          rw [hObj] at hStep
          simp only at hStep ⊢
          rcases hCall :
              (obj.conn s.timers reads writes).handleEvents
                fs revents with
            f | ⟨handlerRan, c⟩
          · rw [hCall] at hStep
            cases hStep
          · rw [hCall] at hStep
            cases handlerRan with
            | false =>
                cases hStep
                have hClear :
                    c =
                      (obj.conn s.timers reads
                        writes).clearEvents := by
                  rcases Conn.handleEvents_cases hCall with
                    ⟨_, hEq⟩ | ⟨hRan, _⟩
                  · exact hEq
                  · cases hRan
                refine
                  .inl
                    ⟨rfl,
                      .inr
                        ⟨id, obj, obj.after c false, hObj,
                          rfl, ?_, ?_⟩⟩
                · rw [hClear]
                  rfl
                · rw [hClear]
                  exact hReport.put id _
            | true =>
                cases hStep
                exact
                  .inr
                    ⟨id, obj, c, rfl, rfl, hObj, hCall, rfl⟩

end EventLoop

end V3

end WebServer

------------------------------------------------------------
-- Owners Of The Slots
------------------------------------------------------------

namespace WebServer

namespace V3

namespace EventLoop

/- No timer node refers to the connection. -/
def Unnamed
    (s : EventLoop)
    (id : ConnId) : Prop :=
  ∀ node ∈ s.timers.timerNodeQueue,
    node.spHttpData ≠ some id

/-
  A channel belongs to the connection held in its slot, and
  a node that refers to a connection is the node to which
  that connection, held in its slot, is linked.
-/
structure Owned
    (s : EventLoop) : Prop where
  sound : s.timers.Sound
  slots : s.Slots
  channel :
    ∀ fd id, s.fd2chan fd = some id → s.fd2http fd = some id
  node :
    ∀ node ∈ s.timers.timerNodeQueue,
      ∀ id, node.spHttpData = some id →
        ∃ obj,
          s.objects id = some obj ∧
            s.fd2http obj.fd = some id ∧
            obj.http.timer = some node.addr

/- The loop once a connection separated its timer. -/
def seperated
    (s : EventLoop)
    (obj : HttpObject) : EventLoop :=
  { s with
    timers := (s.timers.seperate obj.http.timer).1 }

/- Connections whose nodes were popped, not yet closed. -/
structure Expiring
    (s : EventLoop)
    (due : List ConnId) : Prop where
  held :
    ∀ id ∈ due, ∃ obj,
      s.objects id = some obj ∧ s.fd2http obj.fd = some id
  unnamed : ∀ id ∈ due, s.Unnamed id
  nodup : due.Nodup

theorem owned_new :
    new.Owned where
  sound := TimerManager.sound_new
  slots := slots_new
  channel := by
    intro fd id h
    cases h
  node := by
    intro node h
    cases h

/- A slot determines its object. -/
theorem Owned.object
    {s : EventLoop}
    {fd : Fd}
    {id : ConnId}
    {obj : HttpObject}
    (h : s.Owned)
    (hHeld : s.fd2http fd = some id)
    (hObj : s.objects id = some obj) :
    obj.fd = fd := by
  rcases h.slots.object fd id hHeld with ⟨obj', hObj', hFd⟩
  rw [hObj] at hObj'
  cases hObj'
  exact hFd

/- A live object is held in the slot of its descriptor. -/
theorem Owned.slot
    {s : EventLoop}
    {id : ConnId}
    {obj : HttpObject}
    (h : s.Owned)
    (hObj : s.objects id = some obj)
    (hAlive : s.Alive id) :
    s.fd2http obj.fd = some id := by
  rcases hAlive with ⟨fd, hHeld⟩ | ⟨node, hNode, hNames⟩
  · rw [h.object hHeld hObj]
    exact hHeld
  · rcases h.node node hNode id hNames with
      ⟨obj', hObj', hHeld, _⟩
    rw [hObj] at hObj'
    cases hObj'
    exact hHeld

/- The number of a free slot may be given out. -/
theorem Owned.unused
    {s : EventLoop}
    {fd : Fd}
    (h : s.Owned)
    (hFree : s.fd2http fd = none) :
    s.Unused fd := by
  intro id obj hObj hAlive hFd
  have hSlot := h.slot hObj hAlive
  rw [hFd, hFree] at hSlot
  cases hSlot

/- At most one node refers to a connection. -/
theorem Owned.unique
    {s : EventLoop}
    {node node' : TimerNode}
    {id : ConnId}
    (h : s.Owned)
    (hNode : node ∈ s.timers.timerNodeQueue)
    (hNode' : node' ∈ s.timers.timerNodeQueue)
    (hNames : node.spHttpData = some id)
    (hNames' : node'.spHttpData = some id) :
    node = node' := by
  rcases h.node node hNode id hNames with
    ⟨obj, hObj, _, hTimer⟩
  rcases h.node node' hNode' id hNames' with
    ⟨obj', hObj', _, hTimer'⟩
  rw [hObj] at hObj'
  cases hObj'
  rw [hTimer] at hTimer'
  exact
    h.sound.eq_of_addr hNode hNode'
      (Option.some.inj hTimer')

theorem Owned.drops
    {s t : EventLoop}
    (h : s.Owned)
    (hDrops : s.Drops t) :
    t.Owned := by
  refine ⟨?_, ⟨?_, ?_⟩, ?_, ?_⟩
  · rw [hDrops.timers]
    exact h.sound
  · rw [hDrops.fd2http, hDrops.objects]
    exact h.slots.object
  · rw [hDrops.objects, hDrops.nextId]
    exact h.slots.known
  · rw [hDrops.fd2http]
    intro fd id hChan
    exact h.channel fd id (hDrops.channel fd id hChan)
  · rw [hDrops.timers, hDrops.objects, hDrops.fd2http]
    exact h.node

/- Nodes may drop their connections, and may be popped. -/
theorem Owned.setTimers
    {s : EventLoop}
    {timers : TimerManager}
    (h : s.Owned)
    (hSound : timers.Sound)
    (hSub :
      ∀ node ∈ timers.timerNodeQueue, ∀ id,
        node.spHttpData = some id →
          node ∈ s.timers.timerNodeQueue) :
    { s with timers := timers }.Owned where
  sound := hSound
  slots := h.slots.setTimers timers
  channel := h.channel
  node := by
    intro node hNode id hNames
    exact h.node node (hSub node hNode id hNames) id hNames

/- Separating its timer leaves no node of a connection. -/
theorem Owned.seperate
    {s : EventLoop}
    {id : ConnId}
    {obj : HttpObject}
    (h : s.Owned)
    (hObj : s.objects id = some obj) :
    (s.seperated obj).Owned ∧
      (s.seperated obj).Unnamed id := by
  constructor
  · refine h.setTimers (h.sound.seperate _) ?_
    intro node hNode id' hNames
    exact (TimerManager.mem_of_seperate hNode hNames).1
  · intro node hNode hNames
    have hKept := TimerManager.mem_of_seperate hNode hNames
    rcases h.node node hKept.1 id hNames with
      ⟨obj', hObj', _, hTimer⟩
    rw [hObj] at hObj'
    cases hObj'
    exact hKept.2 hTimer

/- An object with no node may change its weak pointer. -/
theorem Owned.put
    {s : EventLoop}
    {id : ConnId}
    {old obj : HttpObject}
    (h : s.Owned)
    (hOld : s.objects id = some old)
    (hFd : obj.fd = old.fd)
    (hPos : obj.http.nowReadPos = 0)
    (hTimer :
      s.Unnamed id ∨ obj.http.timer = old.http.timer) :
    (s.put id obj).Owned where
  sound := h.sound
  slots := h.slots.put hOld hFd hPos
  channel := h.channel
  node := by
    intro node hNode id' hNames
    rcases h.node node hNode id' hNames with
      ⟨obj', hObj, hHeld, hLink⟩
    by_cases hSame : id' = id
    · subst hSame
      rw [hOld] at hObj
      cases hObj
      rcases hTimer with hUnnamed | hTimer
      · exact absurd hNames (hUnnamed node hNode)
      · exact
          ⟨obj, Function.update_self _ _ _, hFd ▸ hHeld,
            hTimer.trans hLink⟩
    · exact
        ⟨obj', (Function.update_of_ne hSame _ _).trans hObj,
          hHeld, hLink⟩

/- A connection with no node is linked to a new one. -/
theorem Owned.arm
    {s : EventLoop}
    {id : ConnId}
    {old obj : HttpObject}
    (h : s.Owned)
    (hUnnamed : s.Unnamed id)
    (hOld : s.objects id = some old)
    (hHeld : s.fd2http old.fd = some id)
    (hFd : obj.fd = old.fd)
    (hPos : obj.http.nowReadPos = 0)
    (hTimer : obj.http.timer = some s.timers.nextAddr)
    (timeout : Nat)
    (now : Timeval) :
    ({ s with
        timers :=
          (s.timers.addTimer id timeout now).1 }.put id
      obj).Owned := by
  have hPut := h.put hOld hFd hPos (.inl hUnnamed)
  refine
    ⟨h.sound.addTimer id timeout now,
      hPut.slots.setTimers _, hPut.channel, ?_⟩
  intro node hNode id' hNames
  rcases List.mem_cons.mp hNode with rfl | hKept
  · cases hNames
    exact
      ⟨obj, Function.update_self _ _ _, hFd ▸ hHeld, hTimer⟩
  · exact hPut.node node hKept id' hNames

/- A connection with no node is closed. -/
theorem Owned.handleClose
    {s : EventLoop}
    {id : ConnId}
    {old obj : HttpObject}
    (h : s.Owned)
    (hUnnamed : s.Unnamed id)
    (hOld : s.objects id = some old)
    (hHeld : s.fd2http old.fd = some id)
    (hFd : obj.fd = old.fd)
    (hPos : obj.http.nowReadPos = 0) :
    (s.handleClose id obj).Owned where
  sound := h.sound
  slots := h.slots.handleClose hOld hFd hPos
  channel := names_update h.channel obj.fd none
  node := by
    intro node hNode id' hNames
    have hNe : id' ≠ id := by
      intro hSame
      exact hUnnamed node hNode (hSame ▸ hNames)
    rcases h.node node hNode id' hNames with
      ⟨obj', hObj', hHeld', hLink⟩
    have hFd' : obj'.fd ≠ obj.fd := by
      intro hSame
      rw [hSame, hFd, hHeld] at hHeld'
      exact hNe (Option.some.inj hHeld').symm
    exact
      ⟨obj', (Function.update_of_ne hNe _ _).trans hObj',
        (Function.update_of_ne hFd' _ _).trans hHeld', hLink⟩

/- A new connection takes a slot that is free. -/
theorem Owned.opened
    {s : EventLoop}
    {fd : Fd}
    (h : s.Owned)
    (hUnused : s.Unused fd)
    (now : Timeval) :
    (s.opened fd now).Owned := by
  have hFree := h.slots.fd2http_of_unused hUnused
  refine
    ⟨h.sound.addTimer _ _ _, h.slots.opened fd now, ?_, ?_⟩
  · exact names_update h.channel fd (some s.nextId)
  · intro node hNode id hNames
    unfold EventLoop.opened at hNode ⊢
    simp only at hNode ⊢
    rcases List.mem_cons.mp hNode with rfl | hKept
    · cases hNames
      exact
        ⟨_, Function.update_self _ _ _,
          Function.update_self _ _ _, rfl⟩
    · rcases h.node node hKept id hNames with
        ⟨obj, hObj, hHeld, hLink⟩
      have hNe : id ≠ s.nextId :=
        Nat.ne_of_lt (h.slots.known id obj hObj).1
      have hFd : obj.fd ≠ fd := by
        intro hSame
        rw [hSame, hFree] at hHeld
        cases hHeld
      exact
        ⟨obj, (Function.update_of_ne hNe _ _).trans hObj,
          (Function.update_of_ne hFd _ _).trans hHeld, hLink⟩

end EventLoop

end V3

end WebServer

------------------------------------------------------------
-- Steps Keep The Owners
------------------------------------------------------------

namespace WebServer

namespace V3

namespace EventLoop

/-
  What `handleConn` does to its connection, once no node
  refers to it.
-/
theorem Owned.handled_cases
    {refused : Bool}
    {s : EventLoop}
    {fd : Fd}
    {revents : Events}
    {fs : FileSystem}
    {reads : List ReadResult}
    {writes : List WriteResult}
    {id : ConnId}
    {obj : HttpObject}
    {c : Conn}
    (h : s.Owned)
    (hObj : s.objects id = some obj)
    (hCall :
      (obj.conn s.timers reads writes).handleEvents fs
        revents = .ok (true, c))
    (now : Timeval) :
    (c.handleConn.1 = .updatePoller c.timeout ∧
      ∃ next,
        next.fd = obj.fd ∧
          next.http.nowReadPos = 0 ∧
          next.http.timer =
            some (s.seperated obj).timers.nextAddr ∧
          ({ s.seperated obj with
              timers :=
                ((s.seperated obj).timers.addTimer id
                  c.timeout now).1 }.put id next).Drops
            ((s.report fd).tryHandleConn refused id obj c
              now)) ∨
      (c.handleConn.1 = .noCall ∧
        ∃ next,
          next.fd = obj.fd ∧
            next.http.nowReadPos = 0 ∧
            ((s.seperated obj).put id next).Drops
              ((s.report fd).tryHandleConn refused id obj c
                now)) ∨
      (c.handleConn.1 = .handleClose ∧
        ∃ next,
          next.fd = obj.fd ∧
            next.http.nowReadPos = 0 ∧
            ((s.seperated obj).handleClose id next).Drops
              ((s.report fd).tryHandleConn refused id obj c
                now)) := by
  have hReport : s.Drops (s.report fd) :=
    .reregister s _
  have hOldPos := (h.slots.known id obj hObj).2
  have hPos := Conn.handleEvents_nowReadPos hOldPos hCall
  have hSame := Conn.sameTimer_handleEvents hOldPos hCall
  have hTimers :
      c.seperateTimer.timers = (s.seperated obj).timers := by
    rw [c.seperateTimer_eq]
    exact congrArg Prod.fst hSame
  have hSepPos : c.seperateTimer.http.nowReadPos = 0 := by
    rw [c.seperateTimer_eq]
    exact hPos
  rcases
    (s.report fd).tryHandleConn_cases refused id obj c now with
    ⟨hArms, hDrops⟩ | ⟨hKeeps, hEq⟩ | ⟨hCloses, hEq⟩
  · rw [hTimers] at hDrops
    refine
      .inl
        ⟨hArms,
          obj.updated c (s.seperated obj).timers.nextAddr,
          rfl, hPos, rfl, ?_⟩
    exact ((hReport.setTimers _).put id _).trans hDrops
  · refine
      .inr
        (.inl
          ⟨hKeeps,
            obj.after
              { c.seperateTimer with
                channel := c.channel.setEvents .outEt }
              true,
            rfl, hSepPos, ?_⟩)
    rw [hEq, hTimers]
    exact (hReport.setTimers _).put id _
  · refine
      .inr
        (.inr
          ⟨hCloses, obj.after c.seperateTimer true, rfl,
            hSepPos, ?_⟩)
    rw [hEq, hTimers]
    exact (hReport.setTimers _).handleClose id _

/- The connections of the nodes popped wait to be closed. -/
theorem Owned.expire
    {s : EventLoop}
    (h : s.Owned)
    (policy : TopPolicy)
    (clock : Nat → Timeval) :
    { s with
        timers :=
          (s.timers.handleExpiredEvent policy clock).1 }.Owned ∧
      { s with
        timers :=
          (s.timers.handleExpiredEvent policy
            clock).1 }.Expiring
        (s.timers.handleExpiredEvent policy clock).2 := by
  rcases
    TimerManager.handleExpiredEvent_parts h.sound
      (fun node hNode node' hNode' id hNames hNames' =>
        congrArg TimerNode.addr
          (h.unique hNode hNode' hNames hNames'))
      policy clock with
    ⟨left, closed, hEvent, hSound, hSub, hApart, _, hNamed,
      hNodup⟩
  rw [hEvent]
  refine
    ⟨h.setTimers hSound fun node hNode _ _ =>
        hSub node hNode,
      ?_, ?_, hNodup⟩
  · intro id hDue
    rcases hNamed id hDue with ⟨node, hNode, hNames⟩
    rcases h.node node hNode id hNames with
      ⟨obj, hObj, hHeld, _⟩
    exact ⟨obj, hObj, hHeld⟩
  · intro id hDue node hNode hNames
    exact hApart node hNode id hNames hDue

/- The next connection due is closed. -/
theorem Owned.closeExpired
    {s : EventLoop}
    {id : ConnId}
    {due : List ConnId}
    (h : s.Owned)
    (hDue : s.Expiring (id :: due)) :
    (s.closeExpired id).Owned ∧
      (s.closeExpired id).Expiring due := by
  have hApart := List.nodup_cons.mp hDue.nodup
  rcases hDue.held id List.mem_cons_self with
    ⟨obj, hObj, hHeld⟩
  have hUnnamed := hDue.unnamed id List.mem_cons_self
  have hPos := (h.slots.known id obj hObj).2
  unfold EventLoop.closeExpired
  rw [hObj]
  refine
    ⟨h.handleClose hUnnamed hObj hHeld rfl hPos, ?_, ?_,
      hApart.2⟩
  · intro id' hLater
    rcases hDue.held id' (List.mem_cons_of_mem _ hLater) with
      ⟨obj', hObj', hHeld'⟩
    have hNe : id' ≠ id := by
      rintro rfl
      exact hApart.1 hLater
    have hFd : obj'.fd ≠ obj.fd := by
      intro hSame
      rw [hSame, hHeld] at hHeld'
      exact hNe (Option.some.inj hHeld').symm
    exact
      ⟨obj', (Function.update_of_ne hNe _ _).trans hObj',
        (Function.update_of_ne hFd _ _).trans hHeld'⟩
  · intro id' hLater
    exact hDue.unnamed id' (List.mem_cons_of_mem _ hLater)

theorem Owned.closeAll
    {s : EventLoop}
    {due : List ConnId}
    (h : s.Owned)
    (hDue : s.Expiring due) :
    (due.foldl EventLoop.closeExpired s).Owned := by
  induction due generalizing s with
  | nil => exact h
  | cons id due ih =>
      have hNext := h.closeExpired hDue
      exact ih hNext.1 hNext.2

/- Every step keeps the owners, whatever is refused. -/
theorem Owned.step
    {s t : EventLoop}
    {e : LoopEvent × Bool}
    (h : s.Owned)
    (hEnabled : refusingLoop.enabled s e)
    (hStep : refusingLoop.step s e = some t) :
    t.Owned := by
  rcases e with ⟨e, refused⟩
  cases e with
  | newEvent fd now =>
      cases hStep
      exact
        (h.opened hEnabled now).drops
          (drops_tryNewEvent refused s fd now)
  | handleEvents fd revents fs reads writes now =>
      rcases tryHandleEvents_cases hStep with
        ⟨_, hDrops | ⟨id, obj, obj', hObj, hFd, hHttp,
          hDrops⟩⟩ |
          ⟨id, obj, c, _, hChan, hObj, hCall, rfl⟩
      · exact h.drops hDrops
      · have hPos := (h.slots.known id obj hObj).2
        rw [← hHttp] at hPos
        exact
          (h.put hObj hFd hPos
            (.inr (congrArg HttpData.timer hHttp))).drops
            hDrops
      · have hHeld := h.channel fd id hChan
        rw [← h.object hHeld hObj] at hHeld
        rcases h.seperate hObj with ⟨hOwned, hUnnamed⟩
        rcases h.handled_cases hObj hCall now with
          ⟨_, next, hFd, hPos, hTimer, hDrops⟩ |
            ⟨_, next, hFd, hPos, hDrops⟩ |
            ⟨_, next, hFd, hPos, hDrops⟩
        · exact
            (hOwned.arm hUnnamed hObj hHeld hFd hPos hTimer
              c.timeout now).drops hDrops
        · exact
            (hOwned.put hObj hFd hPos
              (.inl hUnnamed)).drops hDrops
        · exact
            (hOwned.handleClose hUnnamed hObj hHeld hFd
              hPos).drops hDrops
  | handleExpired policy clock =>
      cases hStep
      rcases h.expire policy clock with ⟨hOwned, hDue⟩
      exact hOwned.closeAll hDue

end EventLoop

end V3

end WebServer
