import WebServer.V3.Net.Functors
import WebServer.V3.Net.Openings

/-
  One event loop of version 3.0 with all that it owns: the
  thread that runs `EventLoop::loop`, its poller, and the
  list that `EpollPoller::poll` returned.

  `poll` collects the channels of a whole batch of events
  before the first of them is handled. The loops of
  `LoopThread` and `EventLoop` take the two sides of this
  apart: the first knows nothing of connections, and the
  second handles each connection as it is reported. This
  file puts them together and shows that both are simulated:
  the handlers of a batch do what they would do one report
  at a time.

  Key definitions include:
    * `WaitEntry`
    * `Reactor`
    * `Reactor.enabled`
    * `Reactor.step`
    * `EventLoop.handleActive`
    * `Reactor.Behind`

  Key theorems include:
    * `EventLoop.tryHandleConn_report`
    * `Reactor.Behind.poll`
    * `Reactor.Behind.handleConn`
    * `Reactor.Behind.step`
-/

------------------------------------------------------------
-- A Loop And Its Connections
------------------------------------------------------------

namespace WebServer

namespace V3

/- An entry of `events_`, as `epoll_wait` fills it. -/
inductive WaitEntry
| wakeup
| conn (fd : Fd) (revents : Events)

/- The descriptor of an entry, if it is a connection's. -/
def WaitEntry.connFd : WaitEntry → Option Fd
| .wakeup => none
| .conn fd _ => some fd

/-
  A connection in the list that `poll` returns, with the
  events that were stored in its channel.
-/
structure ActiveConn where
  id : ConnId
  fd : Fd
  revents : Events

/-
  A loop: its thread, whose functors are calls of `newEvent`
  on the connection of a descriptor, its connections, and
  those in `ret` that are still to be handled.
-/
structure Reactor where
  thread : LoopThread Fd
  poller : EventLoop
  active : List ActiveConn

/- A step of the loop, or of the thread that wakes it. -/
inductive ReactorStep
| wakeup
| epollWait (entries : Option (List WaitEntry))
| handleWakeup
| handleConn
    (fs : FileSystem)
    (reads : List ReadResult)
    (writes : List WriteResult)
    (now : Timeval)
    (refused : Bool)
| swapFunctors
| callFunctor (now : Timeval) (refused : Bool)
| endFunctors
| handleExpired
    (policy : TopPolicy)
    (clock : Nat → Timeval)

namespace EventLoop

/- `fd2chan_[fd]`, where it is not null. -/
def channelOf
    (s : EventLoop) :
    WaitEntry → Option ActiveChannel
| .wakeup => some .wakeup
| .conn fd _ => (s.fd2chan fd).map fun _ => .other

/- The connection that an entry makes active. -/
def activeOf
    (s : EventLoop) :
    WaitEntry → Option ActiveConn
| .wakeup => none
| .conn fd revents =>
    (s.fd2chan fd).map fun id => ⟨id, fd, revents⟩

/-
  `handleEvents()` on an active connection. It fails when a
  handler raises or the object is gone.
-/
def handleActive
    (refused : Bool)
    (s : EventLoop)
    (a : ActiveConn)
    (fs : FileSystem)
    (reads : List ReadResult)
    (writes : List WriteResult)
    (now : Timeval) : Option EventLoop :=
  match s.objects a.id with
  | none => none
  | some obj =>
      match
        (obj.conn s.timers reads writes).handleEvents fs
          a.revents with
      | .error _ => none
      | .ok (false, c) =>
          some
            ({ s with timers := c.timers }.put a.id
              (obj.after c false))
      | .ok (true, c) =>
          some (s.tryHandleConn refused a.id obj c now)

/- The events of several descriptors are reported. -/
def reportAll
    (s : EventLoop)
    (fds : List Fd) : EventLoop :=
  fds.foldl EventLoop.report s

end EventLoop

namespace Reactor

/- A loop just started. -/
def new : Reactor where
  thread := .new
  poller := .new
  active := []

/- What a step is to the thread. -/
def loopStep
    (r : Reactor) :
    ReactorStep → LoopStep Fd
| .wakeup => .wakeup false
| .epollWait none => .epollWait .error
| .epollWait (some entries) =>
    .epollWait (.ready (entries.map r.poller.channelOf))
| .handleWakeup => .handleEvents
| .handleConn _ _ _ _ _ => .handleEvents
| .swapFunctors => .swapFunctors
| .callFunctor _ _ => .callFunctor
| .endFunctors => .endFunctors
| .handleExpired _ _ => .handleExpired

/- What the kernel and the list of active channels allow. -/
def allows
    (r : Reactor) :
    ReactorStep → Prop
| .epollWait (some entries) =>
    (entries.filterMap WaitEntry.connFd).Nodup ∧
      ∀ fd revents, .conn fd revents ∈ entries →
        ∃ reg,
          r.poller.epoll fd = some reg ∧ reg.Reports revents
| .handleWakeup =>
    ∃ active, r.thread.pos = .handling (.wakeup :: active)
| .handleConn _ _ _ _ _ =>
    ∃ active, r.thread.pos = .handling (.other :: active)
| _ => True

def enabled
    (r : Reactor)
    (e : ReactorStep) : Prop :=
  r.thread.enabled (r.loopStep e) ∧ r.allows e

/- What a step does to the connections. -/
def serve
    (r : Reactor) :
    ReactorStep → Option (EventLoop × List ActiveConn)
| .epollWait (some entries) =>
    some
      (r.poller.reportAll
          (entries.filterMap WaitEntry.connFd),
        entries.filterMap r.poller.activeOf)
| .handleConn fs reads writes now refused =>
    match r.active with
    | [] => none
    | a :: active =>
        (r.poller.handleActive refused a fs reads writes
          now).map (·, active)
| .callFunctor now refused =>
    match r.thread.taken with
    | [] => none
    | fd :: _ =>
        some
          (r.poller.tryNewEvent refused fd now, r.active)
| .handleExpired policy clock =>
    some (r.poller.handleExpired policy clock, r.active)
| _ => some (r.poller, r.active)

def step
    (r : Reactor)
    (e : ReactorStep) : Option Reactor :=
  (r.serve e).map fun served =>
    { thread := r.thread.step (r.loopStep e)
      poller := served.1
      active := served.2 }

/- `queueInLoop` of a `newEvent`, by the accepting thread. -/
def queueInLoop
    (r : Reactor)
    (fd : Fd) : Reactor :=
  { r with thread := r.thread.queueInLoop false fd }

end Reactor

end V3

end WebServer

------------------------------------------------------------
-- Reports
------------------------------------------------------------

namespace WebServer

namespace V3

namespace EventLoop

theorem report_comm
    (s : EventLoop)
    (fd fd' : Fd) :
    (s.report fd).report fd' = (s.report fd').report fd := by
  by_cases hSame : fd = fd'
  · rw [hSame]
  · unfold report
    simp only [Function.update_of_ne hSame,
      Function.update_of_ne (Ne.symm hSame)]
    rw [Function.update_comm hSame]

theorem reportAll_cons
    (s : EventLoop)
    (fd : Fd)
    (fds : List Fd) :
    s.reportAll (fd :: fds) = (s.report fd).reportAll fds :=
  rfl

/- A report may come before or after the others. -/
theorem reportAll_report
    (s : EventLoop)
    (fds : List Fd)
    (fd : Fd) :
    (s.report fd).reportAll fds =
      (s.reportAll fds).report fd := by
  induction fds generalizing s with
  | nil => rfl
  | cons fd' fds ih =>
      rw [reportAll_cons, report_comm, ih, reportAll_cons]

theorem reportAll_concat
    (s : EventLoop)
    (fds : List Fd)
    (fd : Fd) :
    s.reportAll (fds ++ [fd]) = (s.reportAll fds).report fd :=
  List.foldl_concat _ _ _ _

/- Reports touch the kernel's table only, where they are. -/
theorem reportAll_frame
    (s : EventLoop)
    (fds : List Fd) :
    ∃ epoll,
      s.reportAll fds = { s with epoll := epoll } ∧
        ∀ fd, fd ∉ fds → epoll fd = s.epoll fd := by
  induction fds generalizing s with
  | nil => exact ⟨s.epoll, rfl, fun _ _ => rfl⟩
  | cons fd' fds ih =>
      rcases ih (s.report fd') with ⟨epoll, hEq, hSame⟩
      refine ⟨epoll, ?_, ?_⟩
      · rw [reportAll_cons, hEq]
        rfl
      · intro fd hNot
        rw [hSame fd (List.not_mem_of_not_mem_cons hNot)]
        exact
          Function.update_of_ne
            (List.ne_of_not_mem_cons hNot) _ _

end EventLoop

end V3

end WebServer

------------------------------------------------------------
-- Handlers Of One Descriptor
------------------------------------------------------------

namespace WebServer

namespace V3

namespace EventLoop

variable {obj : HttpObject}
variable {fd : Fd}

/- `delfd` and a report on another descriptor. -/
theorem handleClose_report
    (hNe : obj.fd ≠ fd)
    (s : EventLoop)
    (id : ConnId) :
    (s.report fd).handleClose id obj =
      (s.handleClose id obj).report fd := by
  unfold handleClose delfd put report
  simp only [Function.update_of_ne hNe.symm]
  rw [Function.update_comm hNe]

theorem tryModfd_report
    (hNe : obj.fd ≠ fd)
    (refused : Bool)
    (s : EventLoop)
    (id : ConnId)
    (timeout : Nat)
    (now : Timeval) :
    (s.report fd).tryModfd refused id obj timeout now =
      ((s.tryModfd refused id obj timeout now).1.report fd,
        (s.tryModfd refused id obj timeout now).2) := by
  have hOther :
      Function.update s.epoll fd
          ((s.epoll fd).map Registration.reported) obj.fd =
        s.epoll obj.fd :=
    Function.update_of_ne hNe _ _
  have hComm : ∀ reg,
      Function.update
          (Function.update s.epoll fd
            ((s.epoll fd).map Registration.reported))
          obj.fd reg =
        Function.update (Function.update s.epoll obj.fd reg)
          fd ((s.epoll fd).map Registration.reported) :=
    fun reg => Function.update_comm hNe.symm _ _ _
  unfold tryModfd addTimer report
  simp only
  split_ifs <;>
    simp_all [Function.update_of_ne hNe.symm]

theorem tryModfd_frame
    (hNe : obj.fd ≠ fd)
    (refused : Bool)
    (s : EventLoop)
    (id : ConnId)
    (timeout : Nat)
    (now : Timeval) :
    (s.tryModfd refused id obj timeout now).1.fd2chan fd =
        s.fd2chan fd ∧
      (s.tryModfd refused id obj timeout now).1.epoll fd =
        s.epoll fd := by
  unfold tryModfd addTimer
  simp only
  split_ifs <;> simp [Function.update_of_ne hNe.symm]

/-
  `handleConn` looks at the kernel's table for its own
  descriptor only.
-/
theorem tryHandleConn_report
    (hNe : obj.fd ≠ fd)
    (refused : Bool)
    (s : EventLoop)
    (id : ConnId)
    (c : Conn)
    (now : Timeval) :
    (s.report fd).tryHandleConn refused id obj c now =
      (s.tryHandleConn refused id obj c now).report fd := by
  unfold tryHandleConn
  rcases c.handleConn with ⟨call, c'⟩
  cases call with
  | updatePoller timeout =>
      have hMod :=
        @tryModfd_report (obj.after c' true) fd hNe
          refused { s with timers := c'.timers } id timeout
          now
      exact congrArg (fun p => p.1.put id p.2) hMod
  | handleClose =>
      exact
        @handleClose_report (obj.after c' true) fd hNe
          { s with timers := c'.timers } id
  | noCall => rfl

/- The slots of other descriptors are left alone. -/
theorem tryHandleConn_frame
    (hNe : obj.fd ≠ fd)
    (refused : Bool)
    (s : EventLoop)
    (id : ConnId)
    (c : Conn)
    (now : Timeval) :
    (s.tryHandleConn refused id obj c now).fd2chan fd =
        s.fd2chan fd ∧
      (s.tryHandleConn refused id obj c now).epoll fd =
        s.epoll fd := by
  unfold tryHandleConn
  rcases c.handleConn with ⟨call, c'⟩
  cases call with
  | updatePoller timeout =>
      exact
        @tryModfd_frame (obj.after c' true) fd hNe refused
          { s with timers := c'.timers } id timeout now
  | handleClose =>
      exact
        ⟨Function.update_of_ne hNe.symm _ _,
          Function.update_of_ne hNe.symm _ _⟩
  | noCall => exact ⟨rfl, rfl⟩

end EventLoop

end V3

end WebServer

------------------------------------------------------------
-- One By One
------------------------------------------------------------

namespace WebServer

namespace V3

namespace LoopThread

/- Active channels of connections, still to be handled. -/
def others
    {F : Type}
    (s : LoopThread F) : Nat :=
  match s.pos with
  | .handling active => active.count .other
  | _ => 0

end LoopThread

namespace EventLoop

/-
  Connections that the loop may report one after another:
  distinct descriptors, each with its channel and an event
  that the kernel may report.
-/
structure Ready
    (t : EventLoop)
    (active : List ActiveConn) : Prop where
  nodup : (active.map ActiveConn.fd).Nodup
  channel : ∀ a ∈ active, t.fd2chan a.fd = some a.id
  reported :
    ∀ a ∈ active,
      ∃ reg,
        t.epoll a.fd = some reg ∧ reg.Reports a.revents

theorem Ready.nil
    (t : EventLoop) :
    t.Ready [] where
  nodup := List.nodup_nil
  channel := fun _ hMem => nomatch hMem
  reported := fun _ hMem => nomatch hMem

/- Nothing about another descriptor changed. -/
theorem Ready.frame
    {t u : EventLoop}
    {active : List ActiveConn}
    {fd : Fd}
    (h : t.Ready active)
    (hNot : fd ∉ active.map ActiveConn.fd)
    (hChan : ∀ fd', fd ≠ fd' → u.fd2chan fd' = t.fd2chan fd')
    (hReg : ∀ fd', fd ≠ fd' → u.epoll fd' = t.epoll fd') :
    u.Ready active := by
  have hNe : ∀ a ∈ active, fd ≠ a.fd := by
    rintro a hMem rfl
    exact hNot (List.mem_map_of_mem hMem)
  refine ⟨h.nodup, ?_, ?_⟩
  · intro a hMem
    rw [hChan a.fd (hNe a hMem)]
    exact h.channel a hMem
  · intro a hMem
    rw [hReg a.fd (hNe a hMem)]
    exact h.reported a hMem

/- One more connection is collected. -/
theorem Ready.concat
    {t : EventLoop}
    {active : List ActiveConn}
    {a : ActiveConn}
    {reg : Registration}
    (h : t.Ready active)
    (hNot : a.fd ∉ active.map ActiveConn.fd)
    (hChan : t.fd2chan a.fd = some a.id)
    (hReg : t.epoll a.fd = some reg)
    (hReports : reg.Reports a.revents) :
    t.Ready (active ++ [a]) := by
  refine ⟨?_, ?_, ?_⟩
  · rw [List.map_append, List.map_singleton]
    refine
      List.nodup_append.mpr
        ⟨h.nodup, List.nodup_singleton _, ?_⟩
    rintro x hx y hy rfl
    rw [List.mem_singleton.mp hy] at hx
    exact hNot hx
  · intro b hMem
    rcases List.mem_append.mp hMem with hOld | hNew
    · exact h.channel b hOld
    · rw [List.mem_singleton.mp hNew]
      exact hChan
  · intro b hMem
    rcases List.mem_append.mp hMem with hOld | hNew
    · exact h.reported b hOld
    · rw [List.mem_singleton.mp hNew]
      exact ⟨reg, hReg, hReports⟩

end EventLoop

/-
  The loop stands where one stands that reports a connection
  when it comes to handle it: only the reports of the active
  connections are ahead.
-/
structure Reactor.Behind
    (r : Reactor)
    (t : EventLoop) : Prop where
  owned : t.Owned
  ready : t.Ready r.active
  poller :
    r.poller = t.reportAll (r.active.map ActiveConn.fd)
  counted : r.active.length = r.thread.others

namespace Reactor

/-
  The loop stands where one stands that took steps from a
  given state, and opened these connections on the way.
-/
def Follows
    (r : Reactor)
    (t : EventLoop)
    (opened : List Fd) : Prop :=
  ∃ ds t',
    refusingLoop.Reaches t ds t' ∧
      ds.filterMap LoopEvent.opens = opened ∧ r.Behind t'

/- The connections that a step opens. -/
def opens
    (r : Reactor) :
    ReactorStep → List Fd
| .callFunctor _ _ => r.thread.taken.take 1
| _ => []

theorem Behind.follows
    {r : Reactor}
    {t : EventLoop}
    (h : r.Behind t) :
    r.Follows t [] :=
  ⟨[], t, .nil t, rfl, h⟩

theorem behind_new :
    Reactor.new.Behind .new where
  owned := EventLoop.owned_new
  ready := EventLoop.Ready.nil _
  poller := rfl
  counted := rfl

/- Outside of its handlers, the loop is level. -/
theorem Behind.level
    {r : Reactor}
    {t : EventLoop}
    (h : r.Behind t)
    (hNone : r.thread.others = 0) :
    r.active = [] ∧ r.poller = t := by
  have hNil : r.active = [] :=
    List.eq_nil_of_length_eq_zero (h.counted.trans hNone)
  refine ⟨hNil, ?_⟩
  rw [h.poller, hNil]
  rfl

end Reactor

end V3

end WebServer

------------------------------------------------------------
-- A Batch Of Reports
------------------------------------------------------------

namespace WebServer

namespace V3

namespace EventLoop

theorem activeOf_conn
    (s : EventLoop)
    (fd : Fd)
    (revents : Events) :
    s.activeOf (.conn fd revents) =
      (s.fd2chan fd).map fun id => ⟨id, fd, revents⟩ := rfl

/- A descriptor without a channel is reported and dropped. -/
theorem reaches_report
    {t : EventLoop}
    {fd : Fd}
    {revents : Events}
    {reg : Registration}
    (hNone : t.fd2chan fd = none)
    (hReg : t.epoll fd = some reg)
    (hReports : reg.Reports revents) :
    ∃ ds,
      refusingLoop.Reaches t ds (t.report fd) ∧
        ds.filterMap LoopEvent.opens = [] := by
  refine
    ⟨[(.handleEvents fd revents noFiles [] []
        ⟨0, 0, Timeval.on_second⟩, false)], ?_, rfl⟩
  refine .single ⟨reg, hReg, hReports⟩ ?_
  show t.tryHandleEvents false fd revents _ [] [] _ = _
  unfold tryHandleEvents
  rw [hNone]

/-
  The entries of one `epoll_wait`, taken in turn. Those of
  connections wait in the list; the others are reported and
  dropped at once. The induction is on the entries, with the
  connections already collected.
-/
theorem polls
    {s t : EventLoop}
    {active : List ActiveConn}
    {entries : List WaitEntry}
    (hBehind : s = t.reportAll (active.map ActiveConn.fd))
    (hReady : t.Ready active)
    (hDistinct :
      (active.map ActiveConn.fd ++
        entries.filterMap WaitEntry.connFd).Nodup)
    (hReports :
      ∀ fd revents, .conn fd revents ∈ entries →
        ∃ reg,
          t.epoll fd = some reg ∧ reg.Reports revents) :
    ∃ ds t',
      refusingLoop.Reaches t ds t' ∧
        ds.filterMap LoopEvent.opens = [] ∧
        s.reportAll (entries.filterMap WaitEntry.connFd) =
          t'.reportAll
            ((active ++ entries.filterMap s.activeOf).map
              ActiveConn.fd) ∧
        t'.Ready
          (active ++ entries.filterMap s.activeOf) := by
  induction entries generalizing s t active with
  | nil =>
      rw [List.filterMap_nil, List.filterMap_nil,
        List.append_nil]
      exact ⟨[], t, .nil t, rfl, hBehind, hReady⟩
  | cons entry entries ih =>
      have hTail : ∀ fd revents,
          .conn fd revents ∈ entries →
            ∃ reg,
              t.epoll fd = some reg ∧
                reg.Reports revents :=
        fun fd revents hMem =>
          hReports fd revents (List.mem_cons_of_mem _ hMem)
      cases entry with
      | wakeup => exact ih hBehind hReady hDistinct hTail
      | conn fd revents =>
          rcases hReports fd revents List.mem_cons_self with
            ⟨reg, hReg, hEvent⟩
          rcases t.reportAll_frame
              (active.map ActiveConn.fd) with
            ⟨epoll, hFrame, _⟩
          have hSame : s.fd2chan fd = t.fd2chan fd := by
            rw [hBehind, hFrame]
          change
            (active.map ActiveConn.fd ++
              fd :: entries.filterMap
                WaitEntry.connFd).Nodup at hDistinct
          have hApart := List.nodup_append.mp hDistinct
          have hFirst := List.nodup_cons.mp hApart.2.1
          have hNot : fd ∉ active.map ActiveConn.fd := by
            intro hMem
            exact
              hApart.2.2 fd hMem fd List.mem_cons_self rfl
          change
            ∃ ds t',
              refusingLoop.Reaches t ds t' ∧
                ds.filterMap LoopEvent.opens = [] ∧
                (s.report fd).reportAll
                    (entries.filterMap WaitEntry.connFd) =
                  t'.reportAll _ ∧
                t'.Ready _
          cases hChan : t.fd2chan fd with
          | some id =>
              have hEntry :
                  s.activeOf (.conn fd revents) =
                    some ⟨id, fd, revents⟩ := by
                rw [activeOf_conn, hSame, hChan]
                rfl
              rw [List.filterMap_cons_some hEntry,
                List.append_cons]
              refine ih (s := s.report fd) ?_ ?_ ?_ hTail
              · rw [List.map_append, List.map_singleton,
                  reportAll_concat, ← hBehind]
              · exact
                  hReady.concat (a := ⟨id, fd, revents⟩) hNot
                    hChan hReg hEvent
              · rw [List.map_append, List.map_singleton,
                  ← List.append_cons]
                exact hDistinct
          | none =>
              have hEntry :
                  s.activeOf (.conn fd revents) = none := by
                rw [activeOf_conn, hSame, hChan]
                rfl
              rw [List.filterMap_cons_none hEntry]
              rcases reaches_report hChan hReg hEvent with
                ⟨ds, hReport, hNone⟩
              have hKept : ∀ fd', fd ≠ fd' →
                  (t.report fd).epoll fd' = t.epoll fd' :=
                fun fd' hNe =>
                  Function.update_of_ne hNe.symm _ _
              have hLevel :
                  s.report fd =
                    (t.report fd).reportAll
                      (active.map ActiveConn.fd) := by
                rw [reportAll_report, ← hBehind]
              have hReady' : (t.report fd).Ready active :=
                hReady.frame hNot (fun _ _ => rfl) hKept
              have hDistinct' :
                  (active.map ActiveConn.fd ++
                    entries.filterMap
                      WaitEntry.connFd).Nodup :=
                List.nodup_append.mpr
                  ⟨hApart.1, hFirst.2,
                    fun x hx y hy =>
                      hApart.2.2 x hx y
                        (List.mem_cons_of_mem _ hy)⟩
              have hTail' : ∀ fd' revents',
                  .conn fd' revents' ∈ entries →
                    ∃ reg,
                      (t.report fd).epoll fd' = some reg ∧
                        reg.Reports revents' := by
                intro fd' revents' hMem
                have hNe : fd ≠ fd' := by
                  rintro rfl
                  exact
                    hFirst.1
                      (List.mem_filterMap.mpr
                        ⟨_, hMem, rfl⟩)
                rw [hKept fd' hNe]
                exact hTail fd' revents' hMem
              have hNext :=
                ih hLevel hReady' hDistinct' hTail'
              rcases hNext with ⟨ds', t', hRun, hNone', hEnd⟩
              refine
                ⟨ds ++ ds', t', hReport.append hRun, ?_, hEnd⟩
              rw [List.filterMap_append, hNone, hNone']
              rfl

end EventLoop

end V3

end WebServer

------------------------------------------------------------
-- One Active Connection
------------------------------------------------------------

namespace WebServer

namespace V3

namespace EventLoop

theorem reportAll_tryHandleConn
    {obj : HttpObject}
    {fds : List Fd}
    (hNot : obj.fd ∉ fds)
    (refused : Bool)
    (s : EventLoop)
    (id : ConnId)
    (c : Conn)
    (now : Timeval) :
    (s.reportAll fds).tryHandleConn refused id obj c now =
      (s.tryHandleConn refused id obj c now).reportAll
        fds := by
  induction fds generalizing s with
  | nil => rfl
  | cons fd fds ih =>
      have hNe := List.ne_of_not_mem_cons hNot
      have hRest := List.not_mem_of_not_mem_cons hNot
      rw [reportAll_cons, reportAll_cons, ih hRest,
        tryHandleConn_report hNe]

theorem reportAll_put
    (s : EventLoop)
    (fds : List Fd)
    (timers : TimerManager)
    (id : ConnId)
    (obj : HttpObject) :
    { s.reportAll fds with timers := timers }.put id obj =
      ({ s with timers := timers }.put id obj).reportAll
        fds := by
  induction fds generalizing s with
  | nil => rfl
  | cons fd fds ih => exact ih (s.report fd)

/-
  What the handlers of an active connection do, they do as
  well where it is reported only now.
-/
theorem handleActive_behind
    {refused : Bool}
    {t u : EventLoop}
    {a : ActiveConn}
    {fds : List Fd}
    {fs : FileSystem}
    {reads : List ReadResult}
    {writes : List WriteResult}
    {now : Timeval}
    (hOwned : t.Owned)
    (hChan : t.fd2chan a.fd = some a.id)
    (hNot : a.fd ∉ fds)
    (hStep :
      (t.reportAll (a.fd :: fds)).handleActive refused a fs
          reads writes now =
        some u) :
    ∃ t',
      t.tryHandleEvents refused a.fd a.revents fs reads writes
          now =
        some t' ∧
      u = t'.reportAll fds ∧
      ∀ fd, a.fd ≠ fd →
        t'.fd2chan fd = t.fd2chan fd ∧
          t'.epoll fd = t.epoll fd := by
  rcases t.reportAll_frame (a.fd :: fds) with
    ⟨epoll, hFrame, _⟩
  have hKept : ∀ fd, a.fd ≠ fd →
      (t.report a.fd).epoll fd = t.epoll fd :=
    fun fd hNe => Function.update_of_ne hNe.symm _ _
  have hObjects :
      (t.reportAll (a.fd :: fds)).objects = t.objects := by
    rw [hFrame]
  have hTimers :
      (t.reportAll (a.fd :: fds)).timers = t.timers := by
    rw [hFrame]
  unfold handleActive at hStep
  unfold tryHandleEvents
  rw [hChan]
  simp only
  cases hObj : t.objects a.id with
  | none =>
      rw [congrFun hObjects a.id, hObj] at hStep
      cases hStep
  | some obj =>
      have hFd : obj.fd = a.fd :=
        hOwned.object (hOwned.channel a.fd a.id hChan) hObj
      rw [congrFun hObjects a.id, hObj] at hStep
      simp only [hTimers] at hStep ⊢
      rcases hCall :
          (obj.conn t.timers reads writes).handleEvents fs
            a.revents with
        f | ⟨handlerRan, c⟩
      · rw [hCall] at hStep
        cases hStep
      · rw [hCall] at hStep
        cases handlerRan with
        | false =>
            cases hStep
            exact
              ⟨_, rfl,
                reportAll_put (t.report a.fd) fds c.timers
                  a.id (obj.after c false),
                fun fd hNe => ⟨rfl, hKept fd hNe⟩⟩
        | true =>
            cases hStep
            refine ⟨_, rfl, ?_, ?_⟩
            · rw [← hFd] at hNot
              exact
                reportAll_tryHandleConn hNot refused
                  (t.report a.fd) a.id c now
            · intro fd hNe
              have hOther : obj.fd ≠ fd := by
                rw [hFd]
                exact hNe
              have hSame :=
                tryHandleConn_frame hOther refused
                  (t.report a.fd) a.id c now
              exact
                ⟨hSame.1, hSame.2.trans (hKept fd hNe)⟩

end EventLoop

end V3

end WebServer

------------------------------------------------------------
-- Steps Of A Loop
------------------------------------------------------------

namespace WebServer

namespace V3

namespace EventLoop

theorem channelOf_conn
    (s : EventLoop)
    (fd : Fd)
    (revents : Events) :
    s.channelOf (.conn fd revents) =
      (s.fd2chan fd).map fun _ => .other := rfl

/- Each active connection has one active channel. -/
theorem count_channelOf
    (s : EventLoop)
    (entries : List WaitEntry) :
    (WaitResult.ready (entries.map s.channelOf)).active.count
        .other =
      (entries.filterMap s.activeOf).length := by
  show ((entries.map s.channelOf).filterMap id).count _ = _
  induction entries with
  | nil => rfl
  | cons entry entries ih =>
      cases entry with
      | wakeup => exact ih
      | conn fd revents =>
          rw [List.map_cons]
          cases hChan : s.fd2chan fd with
          | none =>
              have hChannel :
                  s.channelOf (.conn fd revents) = none := by
                rw [channelOf_conn, hChan]
                rfl
              have hEntry :
                  s.activeOf (.conn fd revents) = none := by
                rw [activeOf_conn, hChan]
                rfl
              rw [List.filterMap_cons_none hEntry, hChannel]
              exact ih
          | some id =>
              have hChannel :
                  s.channelOf (.conn fd revents) =
                    some .other := by
                rw [channelOf_conn, hChan]
                rfl
              have hEntry :
                  s.activeOf (.conn fd revents) =
                    some ⟨id, fd, revents⟩ := by
                rw [activeOf_conn, hChan]
                rfl
              rw [List.filterMap_cons_some hEntry,
                List.length_cons, ← ih, hChannel]
              exact List.count_cons_self

end EventLoop

namespace LoopThread

theorem others_poll
    {F : Type}
    {s : LoopThread F}
    (hPos : s.pos = .waiting)
    (result : WaitResult) :
    (s.poll result).others = result.active.count .other := by
  unfold poll
  simp only
  by_cases hNone : result.active = []
  · rw [if_pos hNone, hNone]
    simp [others, hPos]
  · rw [if_neg hNone]
    rfl

/- Only the poller makes channels active. -/
theorem others_of_not_handling
    {F : Type}
    {s : LoopThread F}
    (hPos : ∀ active, s.pos ≠ .handling active) :
    s.others = 0 := by
  unfold others
  split
  next active hHandling =>
    exact absurd hHandling (hPos active)
  next => rfl

end LoopThread

namespace Reactor

variable {r r' : Reactor}
variable {t : EventLoop}

/- `poll` collects a batch. -/
theorem Behind.poll
    {entries : List WaitEntry}
    (h : r.Behind t)
    (hEnabled : r.enabled (.epollWait (some entries)))
    (hStep : r.step (.epollWait (some entries)) = some r') :
    r'.Follows t [] := by
  rcases hEnabled with ⟨hWait, hDistinct, hReports⟩
  have hPos : r.thread.pos = .waiting := hWait.1
  have hNone : r.thread.others = 0 := by
    apply LoopThread.others_of_not_handling
    intro active hHandling
    rw [hPos] at hHandling
    cases hHandling
  rcases h.level hNone with ⟨hNil, hLevel⟩
  rw [hLevel] at hReports
  rcases Option.some.inj hStep with rfl
  have hBehind :
      r.poller =
        t.reportAll
          (([] : List ActiveConn).map ActiveConn.fd) :=
    hLevel
  rcases
    EventLoop.polls hBehind (.nil t) hDistinct hReports with
    ⟨ds, t', hRun, hOpens, hReported, hReady⟩
  refine ⟨ds, t', hRun, hOpens, ?_⟩
  exact
    { owned :=
        hRun.invariant
          (fun _ _ _ hOwned hOn hNext => hOwned.step hOn hNext)
          h.owned
      ready := hReady
      poller := hReported
      counted := by
        have hCount := r.poller.count_channelOf entries
        exact
          hCount.symm.trans
            (LoopThread.others_poll hPos _).symm }

/- The first active connection is handled. -/
theorem Behind.handleConn
    {fs : FileSystem}
    {reads : List ReadResult}
    {writes : List WriteResult}
    {now : Timeval}
    {refused : Bool}
    (h : r.Behind t)
    (hEnabled :
      r.enabled (.handleConn fs reads writes now refused))
    (hStep :
      r.step (.handleConn fs reads writes now refused) =
        some r') :
    r'.Follows t [] := by
  rcases hEnabled.2 with ⟨left, hPos⟩
  rcases Option.map_eq_some_iff.mp hStep with
    ⟨served, hServe, rfl⟩
  cases hActive : r.active with
  | nil =>
      unfold serve at hServe
      rw [hActive] at hServe
      cases hServe
  | cons a active =>
      unfold serve at hServe
      rw [hActive] at hServe
      rcases Option.map_eq_some_iff.mp hServe with
        ⟨u, hHandle, rfl⟩
      have hReady := h.ready
      have hPoller := h.poller
      have hCount := h.counted
      rw [hActive] at hReady hPoller hCount
      rw [hPoller] at hHandle
      have hApart := List.nodup_cons.mp hReady.nodup
      have hChan := hReady.channel a List.mem_cons_self
      have hEvent := hReady.reported a List.mem_cons_self
      rcases
        EventLoop.handleActive_behind h.owned hChan hApart.1
          hHandle with
        ⟨t', hOne, rfl, hFrame⟩
      let e : LoopEvent × Bool :=
        (.handleEvents a.fd a.revents fs reads writes now,
          refused)
      have hOn : refusingLoop.enabled t e := hEvent
      refine ⟨[e], t', .single hOn hOne, rfl, ?_⟩
      have hLater : t.Ready active :=
        { nodup := hApart.2
          channel := fun b hMem =>
            hReady.channel b (List.mem_cons_of_mem _ hMem)
          reported := fun b hMem =>
            hReady.reported b (List.mem_cons_of_mem _ hMem) }
      exact
        { owned := h.owned.step hOn hOne
          ready :=
            hLater.frame hApart.1
              (fun fd hNe => (hFrame fd hNe).1)
              (fun fd hNe => (hFrame fd hNe).2)
          poller := rfl
          counted := by
            show active.length =
              (r.thread.handleEvents).others
            unfold LoopThread.others at hCount ⊢
            unfold LoopThread.handleEvents
            rw [hPos] at hCount ⊢
            simp at hCount ⊢
            exact hCount }

/- Steps that leave the connections alone. -/
theorem Behind.frame
    (h : r.Behind t)
    (hPoller : r'.poller = r.poller)
    (hActive : r'.active = r.active)
    (hOthers : r'.thread.others = r.thread.others) :
    r'.Behind t where
  owned := h.owned
  ready := by
    rw [hActive]
    exact h.ready
  poller := by
    rw [hPoller, hActive]
    exact h.poller
  counted := by
    rw [hActive, hOthers]
    exact h.counted

theorem Behind.queueInLoop
    (h : r.Behind t)
    (fd : Fd) :
    (r.queueInLoop fd).Behind t :=
  h.frame rfl rfl rfl

/- The connection of a functor is opened. -/
theorem Behind.callFunctor
    {now : Timeval}
    {refused : Bool}
    (h : r.Behind t)
    (hEnabled : r.enabled (.callFunctor now refused))
    (hUnused :
      ∀ fd ∈ r.thread.taken.head?, r.poller.Unused fd)
    (hStep : r.step (.callFunctor now refused) = some r') :
    r'.Follows t (r.thread.taken.take 1) := by
  rcases hEnabled.1.2 with ⟨running, fd, left, hPos⟩
  change r.thread.pos = _ at hPos
  have hNone : r.thread.others = 0 := by
    unfold LoopThread.others
    rw [hPos]
  have hTaken : r.thread.taken = fd :: left := by
    unfold LoopThread.taken
    rw [hPos]
  rcases h.level hNone with ⟨hNil, hLevel⟩
  rcases Option.map_eq_some_iff.mp hStep with
    ⟨served, hServe, rfl⟩
  unfold serve at hServe
  rw [hTaken] at hServe
  rcases Option.some.inj hServe with rfl
  have hFree : t.Unused fd := by
    rw [← hLevel]
    apply hUnused
    rw [hTaken]
    exact rfl
  let e : LoopEvent × Bool := (.newEvent fd now, refused)
  have hOn : refusingLoop.enabled t e := hFree
  have hOne :
      refusingLoop.step t e =
        some (t.tryNewEvent refused fd now) := rfl
  rw [hTaken]
  refine ⟨[e], _, .single hOn hOne, rfl, ?_⟩
  exact
    { owned := h.owned.step hOn hOne
      ready := by
        show EventLoop.Ready _ r.active
        rw [hNil]
        exact .nil _
      poller := by
        show r.poller.tryNewEvent refused fd now =
          EventLoop.reportAll _ (r.active.map ActiveConn.fd)
        rw [hNil, hLevel]
        rfl
      counted := by
        show r.active.length = (r.thread.callFunctor).others
        unfold LoopThread.others LoopThread.callFunctor
        rw [hNil, hPos]
        rfl }

/- The expiry check closes the connections that are due. -/
theorem Behind.handleExpired
    {policy : TopPolicy}
    {clock : Nat → Timeval}
    (h : r.Behind t)
    (hEnabled : r.enabled (.handleExpired policy clock))
    (hStep : r.step (.handleExpired policy clock) = some r') :
    r'.Follows t [] := by
  have hPos : r.thread.pos = .expiring := hEnabled.1
  have hNone : r.thread.others = 0 := by
    unfold LoopThread.others
    rw [hPos]
  rcases h.level hNone with ⟨hNil, hLevel⟩
  rcases Option.some.inj hStep with rfl
  let e : LoopEvent × Bool :=
    (.handleExpired policy clock, false)
  have hOn : refusingLoop.enabled t e := trivial
  have hOne :
      refusingLoop.step t e =
        some (t.handleExpired policy clock) := rfl
  refine ⟨[e], _, .single hOn hOne, rfl, ?_⟩
  exact
    { owned := h.owned.step hOn hOne
      ready := by
        show EventLoop.Ready _ r.active
        rw [hNil]
        exact .nil _
      poller := by
        show r.poller.handleExpired policy clock =
          EventLoop.reportAll _ (r.active.map ActiveConn.fd)
        rw [hNil, hLevel]
        rfl
      counted := by
        show r.active.length =
          (r.thread.handleExpired).others
        rw [hNil, LoopThread.others_of_not_handling]
        · rfl
        · intro active hHandling
          unfold LoopThread.handleExpired at hHandling
          simp only at hHandling
          split at hHandling <;> cases hHandling }

/-
  Every step of a loop is matched by steps of the loop that
  handles its connections as they are reported, as long as a
  connection that it opens has a descriptor of its own.
-/
theorem Behind.step
    {e : ReactorStep}
    (h : r.Behind t)
    (hEnabled : r.enabled e)
    (hUnused :
      ∀ now refused, e = .callFunctor now refused →
        ∀ fd ∈ r.thread.taken.head?, r.poller.Unused fd)
    (hStep : r.step e = some r') :
    r'.Follows t (r.opens e) := by
  cases e with
  | wakeup =>
      rcases Option.some.inj hStep with rfl
      exact Behind.follows (h.frame rfl rfl rfl)
  | epollWait entries =>
      cases entries with
      | none =>
          rcases Option.some.inj hStep with rfl
          exact Behind.follows (h.frame rfl rfl rfl)
      | some entries => exact h.poll hEnabled hStep
  | handleWakeup =>
      rcases hEnabled.2 with ⟨left, hPos⟩
      rcases Option.some.inj hStep with rfl
      refine Behind.follows (h.frame rfl rfl ?_)
      show (r.thread.handleEvents).others = _
      unfold LoopThread.others LoopThread.handleEvents
      rw [hPos]
      simp
  | handleConn fs reads writes now refused =>
      exact h.handleConn hEnabled hStep
  | swapFunctors =>
      have hPos : r.thread.pos = .handling [] := hEnabled.1
      rcases Option.some.inj hStep with rfl
      refine Behind.follows (h.frame rfl rfl ?_)
      show (r.thread.swapFunctors).others = _
      unfold LoopThread.others LoopThread.swapFunctors
      rw [hPos]
      rfl
  | callFunctor now refused =>
      exact
        h.callFunctor hEnabled (hUnused now refused rfl) hStep
  | endFunctors =>
      rcases hEnabled.1.2 with ⟨running, hPos⟩
      change r.thread.pos = _ at hPos
      rcases Option.some.inj hStep with rfl
      refine Behind.follows (h.frame rfl rfl ?_)
      show (r.thread.endFunctors).others = _
      unfold LoopThread.others LoopThread.endFunctors
      rw [hPos]
  | handleExpired policy clock =>
      exact h.handleExpired hEnabled hStep

end Reactor

end V3

end WebServer
