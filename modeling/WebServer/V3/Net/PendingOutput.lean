import WebServer.V3.Net.EventLoop

/-
  Registered events and the output of a connection in
  version 3.0.

  After `handleConn` has run, the kernel should watch the
  connection for the event that lets it go on: `EPOLLOUT`
  while output waits, `EPOLLIN` otherwise.

  This file settles when that holds in every state of a
  loop. `modfd` skips the call of `epoll_ctl` only when the
  registered events are the wanted ones and not one-shot.
  Two things go wrong. The half-closed branch of
  `handleConn` sets `events_` and never calls the poller,
  and a response that is first written short and then sent
  in the same call leaves `EPOLLOUT` in `events_`.

  Key definitions include:
    * `Registration.Serves`
    * `EventLoop.OutputArmed`
    * `HttpObject.WatchedBy`
    * `Conn.ServedBy`
    * `EventLoop.PendingMeets`

  Key theorems include:
    * `Conn.pending_handleEvents`
    * `EventLoop.Watched.step`
    * `EventLoop.Watched.step_not`
    * `output_armed_iff`
-/

------------------------------------------------------------
-- Armed Output
------------------------------------------------------------

namespace WebServer

namespace V3

/-
  The kernel will report that the connection can go on.
-/
def Registration.Serves
    (reg : Registration)
    (outBuffer : Bytes) : Prop :=
  reg.armed = true ∧
    if outBuffer = [] then
      reg.events.epollIn = true
    else
      reg.events.epollOut = true

/-
  What `handleConn` must find so that the registration is
  right afterwards. `EPOLLOUT` stands for output that waits;
  a half-closed connection has none, and its registration
  still stands.
-/
def Conn.ServedBy
    (c : Conn)
    (reg : Registration) : Prop :=
  c.http.error = false →
    c.channel.events.epollOut = true →
      if c.http.connectionState = .connected then
        c.http.outBuffer ≠ []
      else
        c.http.outBuffer = [] ∧
          reg.events.epollOneShot = false

namespace EventLoop

/-
  Every connection held whose connection handler ran when it
  was last handled is watched for what it waits for.
-/
def OutputArmed
    (s : EventLoop) : Prop :=
  ∀ fd id obj,
    s.fd2http fd = some id →
      s.objects id = some obj →
        obj.handlerRan = true →
          ∃ reg,
            s.epoll fd = some reg ∧
              reg.Serves obj.http.outBuffer

/- What a step must meet. -/
def PendingMeets
    (s : EventLoop) :
    LoopEvent → Prop
| .handleEvents fd revents fs reads writes now =>
    ∀ c reg,
      s.CallsHandleConn
          (.handleEvents fd revents fs reads writes now) c →
        s.epoll fd = some reg →
          c.ServedBy reg
| _ => True

end EventLoop

end V3

end WebServer

------------------------------------------------------------
-- Events Asked For By The Handlers
------------------------------------------------------------

namespace WebServer

namespace V3

namespace Conn

/- `events_` holds nothing but `EPOLLIN` and `EPOLLOUT`. -/
def AsksPlainly
    (c : Conn) : Prop :=
  ∃ i o,
    c.channel.events =
      { Events.none with
        epollIn := i
        epollOut := o }

/- Output that waits is asked for. -/
def AsksToWrite
    (c : Conn) : Prop :=
  c.http.error = false →
    c.http.outBuffer ≠ [] →
      c.channel.events.epollOut = true

/- What the handlers keep of a channel. -/
structure SameChannel
    (c c' : Conn) : Prop where
  events : c.AsksPlainly → c'.AsksPlainly
  lastEvents : c'.channel.lastEvents = c.channel.lastEvents

theorem SameChannel.refl
    (c : Conn) :
    c.SameChannel c where
  events := id
  lastEvents := rfl

theorem SameChannel.trans
    {c₁ c₂ c₃ : Conn}
    (h₁ : c₁.SameChannel c₂)
    (h₂ : c₂.SameChannel c₃) :
    c₁.SameChannel c₃ where
  events := h₂.events ∘ h₁.events
  lastEvents := h₂.lastEvents.trans h₁.lastEvents

theorem sameChannel_of_eq
    {c c' : Conn}
    (h : c'.channel = c.channel) :
    c.SameChannel c' where
  events := by
    unfold AsksPlainly
    rw [h]
    exact id
  lastEvents := by
    rw [h]

theorem sameChannel_addEpollIn
    (c : Conn) :
    c.SameChannel c.addEpollIn where
  events := by
    rintro ⟨i, o, hEvents⟩
    exact ⟨true, o, by simp [addEpollIn, hEvents,
      Channel.setEvents]⟩
  lastEvents := rfl

theorem sameChannel_askToWrite
    (c : Conn) :
    c.SameChannel c.askToWrite := by
  unfold askToWrite
  split_ifs
  · refine ⟨?_, rfl⟩
    rintro ⟨i, o, hEvents⟩
    exact ⟨i, true, by simp [addEpollOut, hEvents,
      Channel.setEvents]⟩
  · exact .refl c

theorem sameChannel_handleWrite
    (c : Conn) :
    c.SameChannel c.handleWrite := by
  rcases c.handleWrite_cases with
    ⟨_, h⟩ | ⟨_, writes, sent, out, h⟩ |
      ⟨_, _, writes, sent, h⟩ <;>
    rw [h]
  · exact .refl c
  · have hWrote : c.SameChannel (c.wrote writes sent out) :=
      sameChannel_of_eq rfl
    exact hWrote.trans (sameChannel_askToWrite _)
  · refine SameChannel.trans ?_ (sameChannel_askToWrite _)
    exact ⟨fun _ => ⟨false, false, rfl⟩, rfl⟩

theorem sameChannel_sendPending
    (c : Conn) :
    c.SameChannel c.sendPending := by
  unfold sendPending
  split_ifs
  · exact sameChannel_handleWrite c
  · exact .refl c

theorem sameChannel_reset
    (c : Conn) :
    c.SameChannel c.reset := by
  rcases c.reset_frame with ⟨timer, timers, hReset⟩
  rw [hReset]
  exact sameChannel_of_eq rfl

theorem sameChannel_conclude
    (c : Conn) :
    c.SameChannel c.conclude.2 := by
  unfold conclude
  split_ifs
  · exact .refl c
  · exact sameChannel_reset c
  · exact sameChannel_addEpollIn c
  · exact .refl c

theorem handleWrite_connectionState
    (c : Conn) :
    c.handleWrite.http.connectionState =
      c.http.connectionState := by
  rcases c.handleWrite_cases with
    ⟨_, h⟩ | ⟨_, writes, sent, out, h⟩ |
      ⟨_, _, writes, sent, h⟩ <;>
    rw [h]
  · rw [askToWrite_http]
    rfl
  · rw [askToWrite_http]

/-
  `handleWrite` asks for `EPOLLOUT` for what it leaves, on a
  connection that is not closed.
-/
theorem asksToWrite_handleWrite
    {c : Conn}
    (hOpen : c.http.connectionState ≠ .disconnected) :
    c.handleWrite.AsksToWrite := by
  have hAsk : ∀ c₁ : Conn,
      c₁.http.outBuffer ≠ [] →
        c₁.askToWrite.channel.events.epollOut = true := by
    intro c₁ hOut
    unfold askToWrite
    rw [if_pos hOut]
    rfl
  intro hError hOut
  rcases c.handleWrite_cases with
    ⟨hDown, h⟩ | ⟨_, writes, sent, out, h⟩ |
      ⟨_, _, writes, sent, h⟩ <;>
    rw [h] at hError hOut ⊢
  · rcases hDown with hTrue | hDown
    · rw [hTrue] at hError
      cases hError
    · exact absurd hDown hOpen
  · rw [askToWrite_http] at hOut
    exact hAsk _ hOut
  · rw [askToWrite_http] at hError
    cases hError

theorem asksToWrite_sendPending
    {c : Conn}
    (hOpen : c.http.connectionState ≠ .disconnected) :
    c.sendPending.AsksToWrite := by
  unfold sendPending
  split_ifs with hSend
  · exact asksToWrite_handleWrite hOpen
  · intro hError hOut
    exact absurd ⟨by simp [hError], hOut⟩ hSend

theorem AsksToWrite.conclude
    {c : Conn}
    (h : c.AsksToWrite) :
    c.conclude.2.AsksToWrite := by
  unfold Conn.conclude
  split_ifs
  · exact h
  · rcases c.reset_frame with ⟨timer, timers, hReset⟩
    rw [hReset]
    exact h
  · exact h
  · exact h

/- A later connection is not closed by its handlers. -/
theorem Later.not_disconnected
    {c c' : Conn}
    (h : c.Later c')
    (hOpen : c.http.connectionState ≠ .disconnected) :
    c'.http.connectionState ≠ .disconnected := by
  rcases h.connectionState with hSame | hDown
  · rw [hSame]
    exact hOpen
  · rw [hDown]
    intro hClosed
    cases hClosed

/- One pass asks for `EPOLLOUT` for the output it leaves. -/
theorem asksToWrite_pass
    {c c' : Conn}
    {fs : FileSystem}
    {again : Bool}
    (hPos : c.http.nowReadPos = 0)
    (hOpen : c.http.connectionState ≠ .disconnected)
    (h : c.pass fs = .ok (again, c')) :
    c.SameChannel c' ∧ c'.AsksToWrite := by
  rcases exists_stages h with ⟨c₁, hStages, hEnd⟩
  have hOn := onward_stages hPos hStages
  have hOpen₁ := hOn.later.not_disconnected hOpen
  have hLast := sameChannel_conclude c₁.sendPending
  have hAsks := (asksToWrite_sendPending hOpen₁).conclude
  rw [hEnd] at hLast hAsks
  exact
    ⟨(sameChannel_of_eq hOn.channel).trans
        ((sameChannel_sendPending c₁).trans hLast),
      hAsks⟩

theorem asksToWrite_handleRead
    {c c' : Conn}
    {fs : FileSystem}
    (hPos : c.http.nowReadPos = 0)
    (hOpen : c.http.connectionState ≠ .disconnected)
    (h : c.handleRead fs = .ok c') :
    c.SameChannel c' ∧ c'.AsksToWrite := by
  apply
    handleReadAt_rule
      (I := fun c₁ =>
        c₁.http.nowReadPos = 0 ∧
          c₁.http.connectionState ≠ .disconnected ∧
          c.SameChannel c₁)
      (R := fun c₁ => c.SameChannel c₁ ∧ c₁.AsksToWrite)
      ?_ ?_ ⟨hPos, hOpen, .refl c⟩ h
  · rintro c₁ c₂ ⟨hPos₁, hOpen₁, hSame⟩ hPass
    have hLater := later_pass hPos₁ hPass
    have hAsks := asksToWrite_pass hPos₁ hOpen₁ hPass
    exact
      ⟨hLater.nowReadPos hPos₁,
        hLater.not_disconnected hOpen₁,
        hSame.trans hAsks.1⟩
  · rintro c₁ c₂ ⟨hPos₁, hOpen₁, hSame⟩ hPass
    have hAsks := asksToWrite_pass hPos₁ hOpen₁ hPass
    exact ⟨hSame.trans hAsks.1, hAsks.2⟩

/- What `handleConn` finds on a connection. -/
structure Found
    (c c' : Conn)
    (revents : Events) : Prop where
  plain : c'.AsksPlainly
  lastEvents : c'.channel.lastEvents = c.channel.lastEvents
  asks : c'.AsksToWrite
  connectionState :
    c'.http.connectionState = c.http.connectionState ∨
      (c'.http.connectionState = .disconnecting ∧
        revents.callsRead = true)

/- The handlers called for the events that were reported. -/
theorem pending_handleEvents
    {c c' : Conn}
    {fs : FileSystem}
    {revents : Events}
    (hPos : c.http.nowReadPos = 0)
    (hOpen : c.http.connectionState ≠ .disconnected)
    (hCalled :
      revents.callsRead = true ∨ revents.epollOut = true)
    (h : c.handleEvents fs revents = .ok (true, c')) :
    c.Found c' revents := by
  have hPlain : c.clearEvents.AsksPlainly :=
    ⟨false, false, rfl⟩
  have hWrites : ∀ c₁ : Conn,
      c.clearEvents.SameChannel c₁ →
        c₁.http.connectionState ≠ .disconnected →
          (c₁.AsksToWrite ∨ revents.epollOut = true) →
            (c₁.http.connectionState =
                c.http.connectionState ∨
              (c₁.http.connectionState = .disconnecting ∧
                revents.callsRead = true)) →
              c.Found
                (if revents.epollOut then
                  c₁.handleWrite
                else
                  c₁)
                revents := by
    intro c₁ hSame hOpen₁ hAsks hState
    split_ifs with hOut
    · have hWrite := sameChannel_handleWrite c₁
      refine
        ⟨hWrite.events (hSame.events hPlain),
          hWrite.lastEvents.trans hSame.lastEvents,
          asksToWrite_handleWrite hOpen₁, ?_⟩
      rw [handleWrite_connectionState]
      exact hState
    · exact
        ⟨hSame.events hPlain, hSame.lastEvents,
          hAsks.resolve_right hOut, hState⟩
  rcases handleEvents_cases h with
    ⟨hRan, _⟩ | ⟨_, c₁, hRead, rfl⟩
  · cases hRan
  · rcases hRead with ⟨hCalls, hCall⟩ | ⟨hCalls, rfl⟩
    · have hPos₀ : c.clearEvents.http.nowReadPos = 0 := hPos
      have hAsks :=
        asksToWrite_handleRead hPos₀ hOpen hCall
      have hLater := later_handleReadAt hPos₀ hCall
      refine
        hWrites c₁ hAsks.1 (hLater.not_disconnected hOpen)
          (.inl hAsks.2) ?_
      rcases hLater.connectionState with hKept | hDown
      · exact .inl hKept
      · exact .inr ⟨hDown, hCalls⟩
    · refine
        hWrites _ (.refl _) hOpen (.inr ?_) (.inl rfl)
      rcases hCalled with hTrue | hOut
      · rw [hCalls] at hTrue
        cases hTrue
      · exact hOut

end Conn

end V3

end WebServer

------------------------------------------------------------
-- Registrations
------------------------------------------------------------

namespace WebServer

namespace V3

/- How a registration goes with the object it belongs to. -/
structure HttpObject.WatchedBy
    (obj : HttpObject)
    (reg : Registration) : Prop where
  kind :
    reg.events = .defaultEvent ∨
      reg.events = .inEt ∨ reg.events = .outEt
  last : obj.channel.lastEvents = reg.events
  armed :
    reg.armed = true ∨ reg.events.epollOneShot = true
  halfOpen :
    obj.http.connectionState = .connected ∨
      (obj.http.connectionState = .disconnecting ∧
        reg.events.epollIn = true)
  serves :
    obj.handlerRan = true →
      reg.Serves obj.http.outBuffer

/- The events are cleared and no connection handler is run. -/
theorem HttpObject.WatchedBy.cleared
    {obj : HttpObject}
    {reg : Registration}
    {timers : TimerManager}
    {reads : List ReadResult}
    {writes : List WriteResult}
    (h : obj.WatchedBy reg) :
    (obj.after (obj.conn timers reads writes).clearEvents
      false).WatchedBy reg.reported := by
  have hEvents : reg.reported.events = reg.events := by
    unfold Registration.reported
    split_ifs
    · rfl
    · rfl
  refine
    { kind := ?_
      last := ?_
      armed := ?_
      halfOpen := ?_
      serves := ?_ }
  · rw [hEvents]
    exact h.kind
  · rw [hEvents]
    exact h.last
  · unfold Registration.reported
    split_ifs with hShot
    · exact .inr hShot
    · exact h.armed
  · rw [hEvents]
    exact h.halfOpen
  · intro hRan
    cases hRan

/- An event for a handler, and what it says of the events. -/
theorem Registration.Reports.calls
    {reg : Registration}
    {revents : Events}
    (h : reg.Reports revents)
    (hHup : ¬ (revents.epollHup && !revents.epollIn))
    (hErr : ¬ revents.epollErr) :
    revents.callsRead = true ∨ revents.epollOut = true := by
  rcases h with ⟨_, hSome, _, _, _, _, hEt, hShot⟩
  by_contra hNone
  simp only [Events.callsRead, not_or, Bool.or_eq_true,
    Bool.not_eq_true] at hNone
  rcases hNone with ⟨⟨⟨hIn, hPri⟩, hRdHup⟩, hOut⟩
  apply hSome
  rcases revents with ⟨i, p, o, e, u, r, t, s⟩
  simp only at hIn hPri hRdHup hOut hEt hShot hErr hHup
  simp only [hIn, Bool.not_false, Bool.and_true,
    Bool.not_eq_true] at hErr hHup
  simp only [Events.none, Events.mk.injEq]
  exact
    ⟨hIn, hPri, hOut, hErr, hHup, hRdHup, hEt, hShot⟩

/- A readable event comes from a set with `EPOLLIN`. -/
theorem HttpObject.WatchedBy.epollIn
    {obj : HttpObject}
    {reg : Registration}
    {revents : Events}
    (h : obj.WatchedBy reg)
    (hReports : reg.Reports revents)
    (hRead : revents.callsRead = true) :
    reg.events.epollIn = true := by
  rcases hReports with ⟨_, _, hIn, hPri, _, hRdHup, _⟩
  unfold Events.callsRead at hRead
  simp only [Bool.or_eq_true] at hRead
  rcases h.kind with hKind | hKind | hKind
  · rw [hKind]
    rfl
  · rw [hKind]
    rfl
  · rw [hKind] at hIn hPri hRdHup
    rcases hRead with (hI | hP) | hR
    · cases hIn hI
    · cases hPri hP
    · cases hRdHup hR

/- A set with `EPOLLIN` does not ask for `EPOLLOUT`. -/
theorem HttpObject.WatchedBy.not_epollOut
    {obj : HttpObject}
    {reg : Registration}
    (h : obj.WatchedBy reg)
    (hIn : reg.events.epollIn = true) :
    reg.events.epollOut = false := by
  rcases h.kind with hKind | hKind | hKind
  · rw [hKind]
    rfl
  · rw [hKind]
    rfl
  · rw [hKind] at hIn
    cases hIn

/- `handleConn` watches for one of the two events. -/
theorem Conn.AsksPlainly.watched
    {c : Conn}
    (h : c.AsksPlainly) :
    c.watched =
      if c.channel.events.epollOut then
        Events.outEt
      else
        Events.inEt := by
  rcases h with ⟨i, o, hEvents⟩
  unfold Conn.watched
  rw [hEvents]
  clear hEvents
  revert i o
  decide

namespace EventLoop

/-
  After `modfd` the registration is armed with the wanted
  events, whether or not `epoll_ctl` was called.
-/
theorem registers_self
    {s : EventLoop}
    {fd : Fd}
    {reg : Registration}
    {channel : Channel}
    {events : Events}
    (hReg : s.epoll fd = some reg)
    (hArmed : reg.armed = true)
    (hLast : channel.lastEvents = reg.events)
    (hEvents : events.epollOneShot = false) :
    (s.report fd).registers fd channel events fd =
      some ⟨events, true⟩ := by
  rw [report_eq hReg]
  unfold registers
  split_ifs with hSame
  · have hKept : reg.reported = reg := by
      unfold Registration.reported
      rw [← hLast, hSame, hEvents]
      rfl
    simp only [Function.update_self]
    rw [hKept, ← hSame, hLast, ← hArmed]
  · exact Function.update_self _ _ _

theorem registers_other
    {s : EventLoop}
    {fd fd' : Fd}
    {reg : Registration}
    (hReg : s.epoll fd = some reg)
    (hNe : fd' ≠ fd)
    (channel : Channel)
    (events : Events) :
    (s.report fd).registers fd channel events fd' =
      s.epoll fd' := by
  rw [report_eq hReg]
  unfold registers
  split_ifs
  · exact Function.update_of_ne hNe _ _
  · simp only [Function.update_of_ne hNe]

/- Every connection held is watched by its registration. -/
def Watched
    (s : EventLoop) : Prop :=
  ∀ fd id obj reg,
    s.fd2http fd = some id →
      s.objects id = some obj →
        s.epoll fd = some reg →
          obj.WatchedBy reg

theorem watched_new :
    new.Watched := by
  intro fd id obj reg hHeld
  cases hHeld

theorem Watched.outputArmed
    {s : EventLoop}
    (h : s.Watched)
    (hWired : s.Wired) :
    s.OutputArmed := by
  intro fd id obj hHeld hObj hRan
  cases hReg : s.epoll fd with
  | none =>
      rw [(hWired.registered fd).mp hReg] at hHeld
      cases hHeld
  | some reg =>
      exact
        ⟨reg, rfl,
          (h fd id obj reg hHeld hObj hReg).serves hRan⟩

/- A change of one connection leaves the others watched. -/
theorem Watched.put
    {s : EventLoop}
    {fd : Fd}
    {id : ConnId}
    {old obj : HttpObject}
    {epoll : Fd → Option Registration}
    (h : s.Watched)
    (hWired : s.Wired)
    (hHeld : s.fd2http fd = some id)
    (hOld : s.objects id = some old)
    (hFd : old.fd = fd)
    (hOthers : ∀ fd', fd' ≠ fd → epoll fd' = s.epoll fd')
    (hNew : ∀ reg, epoll fd = some reg → obj.WatchedBy reg)
    (timers : TimerManager) :
    ({ s with
        timers := timers
        epoll := epoll }.put id obj).Watched := by
  intro fd' id' obj' reg hHeld' hObj hReg
  change s.fd2http fd' = some id' at hHeld'
  change epoll fd' = some reg at hReg
  change Function.update s.objects id (some obj) id' =
    some obj' at hObj
  rcases hWired.object fd' id' hHeld' with
    ⟨obj₀, hObj₀, hFd₀⟩
  by_cases hSame : id' = id
  · subst hSame
    rw [Function.update_self] at hObj
    cases hObj
    rw [hOld] at hObj₀
    cases hObj₀
    rw [← hFd₀, hFd] at hReg
    exact hNew reg hReg
  · rw [Function.update_of_ne hSame] at hObj
    by_cases hFd' : fd' = fd
    · subst hFd'
      rw [hHeld] at hHeld'
      exact absurd (Option.some.inj hHeld').symm hSame
    · rw [hOthers fd' hFd'] at hReg
      exact h fd' id' obj' reg hHeld' hObj hReg

theorem Watched.handleClose
    {s : EventLoop}
    {id : ConnId}
    {old obj : HttpObject}
    {epoll : Fd → Option Registration}
    (h : s.Watched)
    (hWired : s.Wired)
    (hOld : s.objects id = some old)
    (hFd : obj.fd = old.fd)
    (hOthers :
      ∀ fd', fd' ≠ obj.fd → epoll fd' = s.epoll fd')
    (timers : TimerManager) :
    ({ s with
        timers := timers
        epoll := epoll }.handleClose id obj).Watched := by
  intro fd' id' obj' reg hHeld hObj hReg
  change Function.update s.fd2http obj.fd none fd' =
    some id' at hHeld
  change Function.update epoll obj.fd none fd' =
    some reg at hReg
  change Function.update s.objects id (some _) id' =
    some obj' at hObj
  have hNe : fd' ≠ obj.fd := by
    intro hSame
    subst hSame
    rw [Function.update_self] at hHeld
    cases hHeld
  rw [Function.update_of_ne hNe] at hHeld hReg
  rw [hOthers fd' hNe] at hReg
  have hOther : id' ≠ id := by
    intro hSame
    subst hSame
    rcases hWired.object fd' id' hHeld with
      ⟨obj₀, hObj₀, hFd₀⟩
    rw [hOld] at hObj₀
    cases hObj₀
    exact hNe (hFd₀.symm.trans hFd.symm)
  rw [Function.update_of_ne hOther] at hObj
  exact h fd' id' obj' reg hHeld hObj hReg

theorem Watched.newEvent
    {s : EventLoop}
    {fd : Fd}
    (h : s.Watched)
    (hWired : s.Wired)
    (hUnused : s.Unused fd)
    (now : Timeval) :
    (s.newEvent fd now).Watched := by
  rw [newEvent_eq (hWired.epoll_of_unused hUnused),
    EventLoop.opened]
  intro fd' id' obj' reg hHeld hObj hReg
  simp only at hHeld hObj hReg
  by_cases hFd : fd' = fd
  · subst hFd
    rw [Function.update_self] at hHeld hReg
    cases hHeld
    cases hReg
    rw [Function.update_self] at hObj
    cases hObj
    exact
      { kind := .inl rfl
        last := rfl
        armed := .inl rfl
        halfOpen := .inl rfl
        serves := by
          intro hRan
          cases hRan }
  · rw [Function.update_of_ne hFd] at hHeld hReg
    rcases hWired.object fd' id' hHeld with
      ⟨obj₀, hObj₀, _⟩
    have hOther : id' ≠ s.nextId :=
      Nat.ne_of_lt (hWired.known id' obj₀ hObj₀).1
    rw [Function.update_of_ne hOther] at hObj
    exact h fd' id' obj' reg hHeld hObj hReg

theorem Watched.closeAll
    {s : EventLoop}
    (h : s.Watched)
    (hWired : s.Wired)
    (closed : List ConnId) :
    (closed.foldl EventLoop.closeExpired s).Watched := by
  induction closed generalizing s with
  | nil => exact h
  | cons id closed ih =>
      refine ih ?_ (hWired.closeExpired id)
      unfold EventLoop.closeExpired
      cases hObj : s.objects id with
      | none => exact h
      | some obj =>
          exact
            h.handleClose hWired hObj rfl (fun _ _ => rfl)
              s.timers

end EventLoop

end V3

end WebServer

------------------------------------------------------------
-- One Reported Event
------------------------------------------------------------

namespace WebServer

namespace V3

namespace EventLoop

/- What a step starts from, up to its call of `handleConn`. -/
structure Entered
    (s : EventLoop)
    (fd : Fd)
    (revents : Events)
    (id : ConnId)
    (obj : HttpObject)
    (reg : Registration)
    (c : Conn) : Prop where
  held : s.fd2http fd = some id
  object : s.objects id = some obj
  descriptor : obj.fd = fd
  registration : s.epoll fd = some reg
  reports : reg.Reports revents
  watched : obj.WatchedBy reg
  plain : c.AsksPlainly
  asks : c.AsksToWrite
  lastEvents : c.channel.lastEvents = reg.events
  halfOpen :
    c.http.connectionState = .connected ∨
      (c.http.connectionState = .disconnecting ∧
        reg.events.epollIn = true)

theorem Watched.entered
    {s : EventLoop}
    {fd : Fd}
    {revents : Events}
    {fs : FileSystem}
    {reads : List ReadResult}
    {writes : List WriteResult}
    {id : ConnId}
    {obj : HttpObject}
    {reg : Registration}
    {c : Conn}
    (h : s.Watched)
    (hWired : s.Wired)
    (hReg : s.epoll fd = some reg)
    (hReports : reg.Reports revents)
    (hHeld : s.fd2http fd = some id)
    (hObj : s.objects id = some obj)
    (hCall :
      (obj.conn s.timers reads writes).handleEvents fs
        revents = .ok (true, c)) :
    s.Entered fd revents id obj reg c := by
  have hWatched := h fd id obj reg hHeld hObj hReg
  have hFd : obj.fd = fd := by
    rcases hWired.object fd id hHeld with
      ⟨obj', hObj', hFd⟩
    rw [hObj] at hObj'
    cases hObj'
    exact hFd
  have hOpen :
      (obj.conn s.timers reads
        writes).http.connectionState ≠ .disconnected := by
    change obj.http.connectionState ≠ .disconnected
    intro hDown
    rcases hWatched.halfOpen with hUp | ⟨hHalf, _⟩
    · rw [hDown] at hUp
      cases hUp
    · rw [hDown] at hHalf
      cases hHalf
  have hRuns := Conn.handleEvents_runs hCall
  have hCalled := hReports.calls hRuns.1 hRuns.2
  have hFound :=
    Conn.pending_handleEvents (hWired.known id obj hObj).2
      hOpen hCalled hCall
  refine
    { held := hHeld
      object := hObj
      descriptor := hFd
      registration := hReg
      reports := hReports
      watched := hWatched
      plain := hFound.plain
      asks := hFound.asks
      lastEvents := hFound.lastEvents.trans hWatched.last
      halfOpen := ?_ }
  rcases hFound.connectionState with hKept | ⟨hDown, hRead⟩
  · rw [hKept]
    exact hWatched.halfOpen
  · exact
      .inr ⟨hDown, hWatched.epollIn hReports hRead⟩

/- The registration that `modfd` leaves. -/
theorem Entered.registers
    {s : EventLoop}
    {fd : Fd}
    {revents : Events}
    {id : ConnId}
    {obj : HttpObject}
    {reg : Registration}
    {c : Conn}
    (h : s.Entered fd revents id obj reg c) :
    (s.report fd).registers obj.fd c.channel c.watched fd =
      some ⟨c.watched, true⟩ := by
  rw [h.descriptor]
  apply
    registers_self h.registration h.reports.1 h.lastEvents
  rw [h.plain.watched]
  split_ifs
  · rfl
  · rfl

/- `handleConn` on what meets the condition. -/
theorem Entered.handleConn
    {s : EventLoop}
    {fd : Fd}
    {revents : Events}
    {id : ConnId}
    {obj : HttpObject}
    {reg : Registration}
    {c : Conn}
    (h : s.Entered fd revents id obj reg c)
    (hAll : s.Watched)
    (hWired : s.Wired)
    (hServed : c.ServedBy reg)
    (now : Timeval) :
    ((s.report fd).handleConn id obj c now).Watched := by
  have hReported :
      (s.report fd).epoll obj.fd = some reg.reported := by
    rw [report_eq h.registration, h.descriptor]
    exact Function.update_self _ _ _
  have hKept : ∀ fd', fd' ≠ fd →
      (s.report fd).epoll fd' = s.epoll fd' := by
    intro fd' hNe
    rw [report_eq h.registration]
    exact Function.update_of_ne hNe _ _
  rcases handleConn_cases hReported id c now with
    ⟨hError, hOpen, timeout, hCase⟩ | ⟨hHalf, hCase⟩ |
      ⟨_, hCase⟩
  · rw [hCase]
    refine
      hAll.put hWired h.held h.object h.descriptor ?_ ?_ _
    · intro fd' hNe
      rw [h.descriptor]
      exact registers_other h.registration hNe _ _
    · intro reg' hReg'
      rw [h.registers] at hReg'
      cases hReg'
      refine
        { kind := ?_
          last := rfl
          armed := .inl rfl
          halfOpen := .inl hOpen
          serves := ?_ }
      · simp only
        rw [h.plain.watched]
        split_ifs
        · exact .inr (.inr rfl)
        · exact .inr (.inl rfl)
      · intro _
        refine ⟨rfl, ?_⟩
        have hAsks := h.asks hError
        have hStands := hServed hError
        rw [if_pos hOpen] at hStands
        simp only
        rw [h.plain.watched]
        change
          if c.http.outBuffer = [] then
            (if c.channel.events.epollOut then
              Events.outEt
            else
              Events.inEt).epollIn = true
          else
            (if c.channel.events.epollOut then
              Events.outEt
            else
              Events.inEt).epollOut = true
        by_cases hOut : c.http.outBuffer = []
        · rw [if_pos hOut,
            if_neg fun hAsked => hStands hAsked hOut]
          rfl
        · rw [if_neg hOut, if_pos (hAsks hOut)]
          rfl
  · rw [hCase]
    have hStands := hServed hHalf.1 hHalf.2.2
    have hNotOpen :
        c.http.connectionState ≠ .connected := by
      rw [hHalf.2.1]
      intro hUp
      cases hUp
    rw [if_neg hNotOpen] at hStands
    have hIn : reg.events.epollIn = true := by
      rcases h.halfOpen with hUp | ⟨_, hIn⟩
      · exact absurd hUp hNotOpen
      · exact hIn
    have hSame : reg.reported = reg := by
      unfold Registration.reported
      rw [hStands.2]
      rfl
    rcases c.seperateTimer_frame with ⟨timer, timers, hSep⟩
    refine
      hAll.put hWired h.held h.object h.descriptor hKept ?_ _
    intro reg' hReg'
    have hAt : (s.report fd).epoll fd = some reg := by
      rw [← hSame, ← hReported, h.descriptor]
    rw [hAt] at hReg'
    cases hReg'
    rw [hSep]
    exact
      { kind := h.watched.kind
        last := h.lastEvents
        armed := .inl h.reports.1
        halfOpen := .inr ⟨hHalf.2.1, hIn⟩
        serves := by
          intro _
          refine ⟨h.reports.1, ?_⟩
          change
            if c.http.outBuffer = [] then
              reg.events.epollIn = true
            else
              reg.events.epollOut = true
          rw [if_pos hStands.1]
          exact hIn }
  · rw [hCase]
    refine
      @Watched.handleClose s id obj
        (obj.after c.seperateTimer true) _ hAll hWired
        h.object rfl ?_ _
    intro fd' hNe
    refine hKept fd' ?_
    rw [← h.descriptor]
    exact hNe

/- `handleConn` on what does not meet the condition. -/
theorem Entered.handleConn_not
    {s : EventLoop}
    {fd : Fd}
    {revents : Events}
    {id : ConnId}
    {obj : HttpObject}
    {reg : Registration}
    {c : Conn}
    (h : s.Entered fd revents id obj reg c)
    (hNot : ¬ c.ServedBy reg)
    (now : Timeval) :
    ¬ ((s.report fd).handleConn id obj c now).OutputArmed := by
  have hReported :
      (s.report fd).epoll obj.fd = some reg.reported := by
    rw [report_eq h.registration, h.descriptor]
    exact Function.update_self _ _ _
  unfold Conn.ServedBy at hNot
  push Not at hNot
  rcases hNot with ⟨hError, hAsked, hLost⟩
  intro hArmed
  rcases handleConn_cases hReported id c now with
    ⟨_, hOpen, timeout, hCase⟩ | ⟨hHalf, hCase⟩ |
      ⟨hCloses, _⟩
  · -- `EPOLLOUT` is registered and nothing is to be sent
    rw [if_pos hOpen] at hLost
    rw [hCase] at hArmed
    rcases
      hArmed fd id _ h.held (Function.update_self _ _ _)
        rfl with
      ⟨reg', hReg', hServes⟩
    have hAt := h.registers
    change
      (s.report fd).registers obj.fd c.channel c.watched fd =
        some reg' at hReg'
    rw [hAt] at hReg'
    cases hReg'
    have hIn := hServes.2
    change
      if c.http.outBuffer = [] then
        c.watched.epollIn = true
      else
        c.watched.epollOut = true at hIn
    rw [h.plain.watched, if_pos hAsked] at hIn
    rw [if_pos (by simpa using hLost)] at hIn
    cases hIn
  · rw [hCase] at hArmed
    have hNotOpen :
        c.http.connectionState ≠ .connected := by
      rw [hHalf.2.1]
      intro hUp
      cases hUp
    rw [if_neg hNotOpen] at hLost
    have hIn : reg.events.epollIn = true := by
      rcases h.halfOpen with hUp | ⟨_, hIn⟩
      · exact absurd hUp hNotOpen
      · exact hIn
    rcases
      hArmed fd id _ h.held (Function.update_self _ _ _)
        rfl with
      ⟨reg', hReg', hServes⟩
    change (s.report fd).epoll fd = some reg' at hReg'
    rw [← h.descriptor, h.descriptor] at hReg'
    rw [h.descriptor] at hReported
    rw [hReported] at hReg'
    cases hReg'
    cases hShot : reg.events.epollOneShot with
    | true =>
        -- the one event of the registration is spent
        have hStill := hServes.1
        unfold Registration.reported at hStill
        rw [hShot] at hStill
        cases hStill
    | false =>
        have hSame : reg.reported = reg := by
          unfold Registration.reported
          rw [hShot]
          rfl
        rw [hSame] at hServes
        have hWait := hServes.2
        rcases c.seperateTimer_frame with
          ⟨timer, timers, hSep⟩
        rw [hSep] at hWait
        change
          if c.http.outBuffer = [] then
            reg.events.epollIn = true
          else
            reg.events.epollOut = true at hWait
        by_cases hOut : c.http.outBuffer = []
        · exact hLost ⟨hOut, hShot⟩
        · rw [if_neg hOut, h.watched.not_epollOut hIn] at hWait
          cases hWait
  · rcases h.halfOpen with hUp | ⟨hDown, _⟩
    · exact hCloses.1 ⟨hError, hUp⟩
    · exact hCloses.2 ⟨hError, hDown, hAsked⟩

end EventLoop

end V3

end WebServer

------------------------------------------------------------
-- Whole Runs
------------------------------------------------------------

namespace WebServer

namespace V3

namespace EventLoop

/- A step that meets the condition keeps the watch. -/
theorem Watched.step
    {s t : EventLoop}
    {e : LoopEvent}
    (h : s.Watched)
    (hWired : s.Wired)
    (hEnabled : eventLoop.enabled s e)
    (hMeets : s.PendingMeets e)
    (hStep : eventLoop.step s e = some t) :
    t.Watched := by
  cases e with
  | newEvent fd now =>
      cases hStep
      exact h.newEvent hWired hEnabled now
  | handleEvents fd revents fs reads writes now =>
      rcases hEnabled with ⟨reg, hReg, hReports⟩
      rcases hWired.handleEvents_cases hReg hStep with
        ⟨id, obj, c, hHeld, hObj, hFd, hCase⟩
      rcases hCase with ⟨hCall, rfl⟩ | ⟨hCall, rfl⟩
      · have hClear :
            c =
              (obj.conn s.timers reads
                writes).clearEvents := by
          rcases Conn.handleEvents_cases hCall with
            ⟨_, hEq⟩ | ⟨hRan, _⟩
          · exact hEq
          · cases hRan
        have hWatched := h fd id obj reg hHeld hObj hReg
        rw [hClear, report_eq hReg]
        refine h.put hWired hHeld hObj hFd ?_ ?_ _
        · intro fd' hNe
          exact Function.update_of_ne hNe _ _
        · intro reg' hReg'
          simp only [Function.update_self] at hReg'
          cases hReg'
          exact hWatched.cleared
      · have hEntered :=
          h.entered hWired hReg hReports hHeld hObj hCall
        refine hEntered.handleConn h hWired ?_ now
        exact
          hMeets c reg
            ⟨id, obj, (hWired.channel fd).trans hHeld, hObj,
              hCall⟩
            hReg
  | handleExpired policy clock =>
      cases hStep
      have hTimers :
          ∀ timers : TimerManager,
            { s with timers := timers }.Watched :=
        fun _ => h
      exact
        (hTimers _).closeAll (hWired.setTimers _) _

/- A step without it leaves a connection unwatched. -/
theorem Watched.step_not
    {s : EventLoop}
    {e : LoopEvent}
    (h : s.Watched)
    (hWired : s.Wired)
    (hEnabled : eventLoop.enabled s e)
    (hNot : ¬ s.PendingMeets e) :
    ∃ t, eventLoop.step s e = some t ∧ ¬ t.OutputArmed := by
  cases e with
  | newEvent fd now => exact absurd trivial hNot
  | handleExpired policy clock => exact absurd trivial hNot
  | handleEvents fd revents fs reads writes now =>
      rcases hEnabled with ⟨reg, hReg, hReports⟩
      unfold PendingMeets at hNot
      push Not at hNot
      rcases hNot with
        ⟨c, reg', ⟨id, obj, hChan, hObj, hCall⟩, hReg',
          hServed⟩
      rw [hReg] at hReg'
      cases hReg'
      have hHeld := (hWired.channel fd).symm.trans hChan
      have hEntered :=
        h.entered hWired hReg hReports hHeld hObj hCall
      exact
        ⟨_, handleEvents_of_calls hChan hObj hCall now,
          hEntered.handleConn_not hServed now⟩

end EventLoop

open EventLoop

/-
  Along a run every handled connection is armed for what it
  waits for if and only if `handleConn` finds `EPOLLOUT`
  only where output waits on an open connection, or nothing
  waits on a half-closed one that is still registered.
-/
theorem output_armed_iff
    (es : List LoopEvent) :
    eventLoop.Always OutputArmed .new es ↔
      eventLoop.StepsMeet PendingMeets .new es := by
  apply
    Machine.always_iff_stepsMeet
      (I := fun s => s.Wired ∧ s.Watched)
  · rintro s ⟨hWired, h⟩
    exact h.outputArmed hWired
  · rintro s e t ⟨hWired, h⟩ hEnabled hMeets hStep
    exact
      ⟨hWired.step hEnabled hStep,
        h.step hWired hEnabled hMeets hStep⟩
  · rintro s e ⟨hWired, h⟩ hEnabled hNot
    exact h.step_not hWired hEnabled hNot
  · exact ⟨wired_new, watched_new⟩

/-
  A client sends one request and closes its side, and the
  response cannot be sent at once: nothing is armed.
-/
theorem half_closed_not_armed :
    ¬ ∀ es, eventLoop.Always OutputArmed .new es := by
  intro hAll
  have hRun :=
    hAll
      [ .newEvent 5 ⟨0, 0, by decide⟩,
        .handleEvents 5 { Events.none with epollIn := true }
          noFiles
          [ .data
              (utf8 "GET /hello HTTP/1.1\r\nHost: a\r\n\r\n"),
            .data [] ]
          [.eagain] ⟨0, 0, by decide⟩ ]
  have hFirst :
      eventLoop.enabled .new
        (.newEvent 5 ⟨0, 0, by decide⟩) :=
    EventLoop.unused_new 5
  have hReports := Registration.readable_reported
  have hAnswered :=
    (hRun.2 hFirst _ rfl).2 ⟨_, rfl, hReports⟩
  have hEnd :
      ((EventLoop.new.newEvent 5
            ⟨0, 0, by decide⟩).handleEvents 5
          { Events.none with epollIn := true } noFiles
          [ .data
              (utf8 "GET /hello HTTP/1.1\r\nHost: a\r\n\r\n"),
            .data [] ]
          [.eagain] ⟨0, 0, by decide⟩).map
          (fun t =>
            (t.fd2http 5,
              (t.objects 0).map HttpObject.handlerRan,
              (t.epoll 5).map Registration.armed)) =
        some (some 0, some true, some false) := by
    decide +kernel
  rcases Option.map_eq_some_iff.mp hEnd with
    ⟨t, hStep, hView⟩
  simp only [Prod.mk.injEq] at hView
  rcases hView with ⟨hHeld, hRan, hReg⟩
  rcases Option.map_eq_some_iff.mp hRan with
    ⟨obj, hObj, hRan⟩
  rcases hAnswered t hStep 5 0 obj hHeld hObj hRan with
    ⟨reg, hSome, hArmed, _⟩
  rw [hSome] at hReg
  have hLost := Option.some.inj hReg
  rw [hArmed] at hLost
  cases hLost

end V3

end WebServer
