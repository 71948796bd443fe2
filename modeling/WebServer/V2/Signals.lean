import WebServer.Common
import WebServer.V2.MainLoop

/-
  Signals in the main loop of version 2.0 (`Server::start`,
  `deal_sig_event`, `Utils::sig_handler`).

  A signal handler writes one byte to a socket pair, and
  `start` watches the other end, `pipefd[0]`. Its branch for
  that descriptor stands behind the one for all readable
  descriptors and asks for a readable event again, so no
  event reaches it: the bytes pile up in the socket, and
  neither `timeout` nor `stop_server` is ever set.

  Key definitions include:
    * `MainFds.dispatch`
    * `SignalLoop`
    * `SignalLoop.dealSigEvent`
    * `SignalLoop.handleBatch`
    * `SignalLoop.SignalsReach`
    * `signalMachine`

  Key theorems include:
    * `SignalLoop.dealSigEvent_flags`
    * `MainFds.dispatch_ne_dealSigEvent`
    * `SignalLoop.signals_reach_iff`
    * `signals_never_received`
-/

------------------------------------------------------------
-- Branches Of The Loop
------------------------------------------------------------

namespace WebServer

namespace V2

/-
  The descriptors that are not connections. Both are open,
  so they are not the same.
-/
structure MainFds where
  listenfd : Fd
  pipefd : Fd
  distinct : listenfd ≠ pipefd

/- What `start` calls for one event. -/
inductive Handler
| dealListenEvent
| closeConn (sockfd : Fd)
| dealReadEvent (sockfd : Fd)
| dealWriteEvent (sockfd : Fd)
| dealSigEvent
deriving DecidableEq, Repr

namespace MainFds

/- The branches for `events[i]`. -/
def dispatch
    (fds : MainFds)
    (sockfd : Fd)
    (events : EpollEvents) : Option Handler :=
  if sockfd = fds.listenfd then
    some .dealListenEvent
  else if events.hangsUp then
    some (.closeConn sockfd)
  else if events.epollIn then
    some (.dealReadEvent sockfd)
  else if events.epollOut then
    some (.dealWriteEvent sockfd)
  else if sockfd = fds.pipefd ∧ events.epollIn then
    some .dealSigEvent
  else
    none

end MainFds

/- The signals that the server handles. -/
def sigalrm : Byte := 14

def sigterm : Byte := 15

/-
  The main thread. `pending` are the bytes in the socket
  pair that were not received.
-/
structure SignalLoop where
  server : ServerState
  timeout : Bool
  stopServer : Bool
  pending : Bytes

/-
  One entry of `events`: what is reported, the answers that
  its handler gets, and the signals that come before it.
-/
structure BatchEntry where
  sockfd : Fd
  events : EpollEvents
  answers : Answers
  signals : Bytes

namespace SignalLoop

def start
    (server : ServerState) : SignalLoop where
  server := server
  timeout := false
  stopServer := false
  pending := []

/- `sig_handler(sig)`, for one signal after another. -/
def sigHandler
    (l : SignalLoop)
    (signals : Bytes) : SignalLoop :=
  { l with pending := l.pending ++ signals }

/- The `switch` of `deal_sig_event`. -/
def dealSignal
    (l : SignalLoop)
    (sig : Byte) : SignalLoop :=
  if sig = sigalrm then
    { l with timeout := true }
  else if sig = sigterm then
    { l with stopServer := true }
  else
    l

/-
  `deal_sig_event()`: one `recv` into `signals[1024]`. With
  nothing to receive it fails, and nothing is done.
-/
def dealSigEvent
    (l : SignalLoop) : SignalLoop :=
  (l.pending.take 1024).foldl dealSignal
    { l with pending := l.pending.drop 1024 }

/- One event of the batch. -/
def handle
    (fds : MainFds)
    (l : SignalLoop)
    (e : BatchEntry) : Option SignalLoop :=
  let l := l.sigHandler e.signals
  let a := e.answers
  match fds.dispatch e.sockfd e.events with
  | some .dealListenEvent => do
      let server ←
        l.server.dealListenEvent a.accepted a.timer a.cur
      some { l with server := server }
  | some (.closeConn sockfd) =>
      some { l with server := l.server.closeConn sockfd }
  | some (.dealReadEvent sockfd) => do
      let server ← l.server.dealReadEvent sockfd a.read a.cur
      some { l with server := server }
  | some (.dealWriteEvent sockfd) => do
      let server ←
        l.server.dealWriteEvent sockfd a.write.ret a.cur
      some { l with server := server }
  | some .dealSigEvent => some l.dealSigEvent
  | none => some l

/- The `for` loop over `events`. -/
def handleBatch
    (fds : MainFds)
    (l : SignalLoop)
    (batch : List BatchEntry) : Option SignalLoop :=
  batch.foldlM (handle fds) l

/-
  The end of one iteration, and whether `timer_handler` was
  called.
-/
def timedEvents
    (l : SignalLoop)
    (cur : Int) : Option (Bool × SignalLoop) :=
  if l.timeout then do
    let server ← l.server.tick cur
    some (true, { l with server := server, timeout := false })
  else
    some (false, l)

end SignalLoop

end V2

end WebServer

------------------------------------------------------------
-- Signals That Are Reported
------------------------------------------------------------

namespace WebServer

namespace V2

/-
  A readable event on `pipefd[0]` with no hang-up or error
  bit.
-/
def BatchEntry.IsSignal
    (fds : MainFds)
    (e : BatchEntry) : Prop :=
  e.sockfd = fds.pipefd ∧
    e.events.epollIn = true ∧
    e.events.hangsUp = false

namespace SignalLoop

/-
  In the iteration for this batch the signals reach the
  loop: their event is handled by `deal_sig_event`, the
  signals readable when the batch is taken have set their
  flags by its end, and the timers are ticked.
-/
structure SignalsReach
    (fds : MainFds)
    (l : SignalLoop)
    (batch : List BatchEntry)
    (cur : Int) : Prop where
  dispatched :
    ∀ e ∈ batch, e.IsSignal fds →
      fds.dispatch e.sockfd e.events = some .dealSigEvent
  flagged :
    ∀ e ∈ batch, e.IsSignal fds →
      ∀ t, l.handleBatch fds batch = some t →
        (sigalrm ∈ l.pending → t.timeout = true) ∧
          (sigterm ∈ l.pending → t.stopServer = true)
  ticked :
    ∀ e ∈ batch, e.IsSignal fds →
      ∀ t, l.handleBatch fds batch = some t →
        ∀ ticks u, t.timedEvents cur = some (ticks, u) →
          sigalrm ∈ l.pending → ticks = true

end SignalLoop

end V2

end WebServer

------------------------------------------------------------
-- The Branch For The Pipe
------------------------------------------------------------

namespace WebServer

namespace V2

/- Where an event on the pipe goes. -/
theorem MainFds.dispatch_of_isSignal
    {fds : MainFds}
    {e : BatchEntry}
    (h : e.IsSignal fds) :
    fds.dispatch e.sockfd e.events =
      some (.dealReadEvent fds.pipefd) := by
  rcases h with ⟨hFd, hIn, hUp⟩
  unfold MainFds.dispatch
  rw [hFd, if_neg fds.distinct.symm, hUp, if_neg nofun, hIn,
    if_pos rfl]

/- No event at all is handled by `deal_sig_event`. -/
theorem MainFds.dispatch_ne_dealSigEvent
    (fds : MainFds)
    (sockfd : Fd)
    (events : EpollEvents) :
    fds.dispatch sockfd events ≠ some .dealSigEvent := by
  unfold MainFds.dispatch
  split_ifs with hListen hUp hIn hOut hPipe
  · nofun
  · nofun
  · nofun
  · nofun
  · exact absurd hPipe.2 hIn
  · nofun

namespace SignalLoop

/- What `deal_sig_event` would do with what it receives. -/
theorem dealSigEvent_flags
    (l : SignalLoop) :
    (l.dealSigEvent.timeout = true ↔
        l.timeout = true ∨ sigalrm ∈ l.pending.take 1024) ∧
      (l.dealSigEvent.stopServer = true ↔
        l.stopServer = true ∨
          sigterm ∈ l.pending.take 1024) := by
  suffices hFrom :
      ∀ (signals : Bytes) (m : SignalLoop),
        ((signals.foldl dealSignal m).timeout = true ↔
            m.timeout = true ∨ sigalrm ∈ signals) ∧
          ((signals.foldl dealSignal m).stopServer = true ↔
            m.stopServer = true ∨ sigterm ∈ signals) by
    exact hFrom _ _
  intro signals
  induction signals with
  | nil => simp
  | cons sig signals ih =>
      intro m
      have hRest := ih (m.dealSignal sig)
      rw [List.foldl_cons, hRest.1, hRest.2]
      unfold dealSignal
      split_ifs with hAlarm hTerm
      · subst hAlarm
        simp [sigalrm, sigterm]
      · subst hTerm
        simp [sigalrm, sigterm]
      · simp [Ne.symm hAlarm, Ne.symm hTerm]

/- One event changes no flag and receives no signal. -/
theorem handle_frame
    {fds : MainFds}
    {l t : SignalLoop}
    {e : BatchEntry}
    (hStep : l.handle fds e = some t) :
    t.timeout = l.timeout ∧
      t.stopServer = l.stopServer ∧
      t.pending = l.pending ++ e.signals := by
  unfold handle at hStep
  cases hCall : fds.dispatch e.sockfd e.events with
  | none =>
      rw [hCall] at hStep
      cases hStep
      exact ⟨rfl, rfl, rfl⟩
  | some handler =>
      rw [hCall] at hStep
      cases handler with
      | dealListenEvent =>
          rcases Option.bind_eq_some_iff.mp hStep with
            ⟨server, _, hSome⟩
          cases hSome
          exact ⟨rfl, rfl, rfl⟩
      | closeConn sockfd =>
          cases hStep
          exact ⟨rfl, rfl, rfl⟩
      | dealReadEvent sockfd =>
          rcases Option.bind_eq_some_iff.mp hStep with
            ⟨server, _, hSome⟩
          cases hSome
          exact ⟨rfl, rfl, rfl⟩
      | dealWriteEvent sockfd =>
          rcases Option.bind_eq_some_iff.mp hStep with
            ⟨server, _, hSome⟩
          cases hSome
          exact ⟨rfl, rfl, rfl⟩
      | dealSigEvent =>
          exact
            absurd hCall (fds.dispatch_ne_dealSigEvent _ _)

theorem handleBatch_frame
    {fds : MainFds}
    {l t : SignalLoop}
    {batch : List BatchEntry}
    (hStep : l.handleBatch fds batch = some t) :
    t.timeout = l.timeout ∧
      t.stopServer = l.stopServer ∧
      t.pending =
        l.pending ++ batch.flatMap BatchEntry.signals := by
  unfold handleBatch at hStep
  induction batch generalizing l with
  | nil =>
      cases hStep
      exact ⟨rfl, rfl, (List.append_nil _).symm⟩
  | cons e batch ih =>
      rw [List.foldlM_cons] at hStep
      rcases Option.bind_eq_some_iff.mp hStep with
        ⟨u, hFirst, hRest⟩
      have hHead := handle_frame hFirst
      have hTail := ih hRest
      refine
        ⟨hTail.1.trans hHead.1, hTail.2.1.trans hHead.2.1,
          ?_⟩
      rw [hTail.2.2, hHead.2.2, List.flatMap_cons,
        List.append_assoc]

/-
  For every batch the signals reach the loop exactly when no
  event of the batch reports them.
-/
theorem signals_reach_iff
    (fds : MainFds)
    (l : SignalLoop)
    (batch : List BatchEntry)
    (cur : Int) :
    l.SignalsReach fds batch cur ↔
      ∀ e ∈ batch, ¬ e.IsSignal fds := by
  constructor
  · intro h e hMem hSignal
    exact
      fds.dispatch_ne_dealSigEvent _ _
        (h.dispatched e hMem hSignal)
  · intro hNone
    refine ⟨?_, ?_, ?_⟩
    · intro e hMem hSignal
      exact absurd hSignal (hNone e hMem)
    · intro e hMem hSignal
      exact absurd hSignal (hNone e hMem)
    · intro e hMem hSignal
      exact absurd hSignal (hNone e hMem)

end SignalLoop

end V2

end WebServer

------------------------------------------------------------
-- Whole Runs
------------------------------------------------------------

namespace WebServer

namespace V2

/- A signal comes between iterations, or the loop runs one. -/
inductive SignalStep
| signal (sig : Byte)
| iteration (batch : List BatchEntry) (cur : Int)

/- The signals of a step. -/
def SignalStep.signals :
    SignalStep → Bytes
| .signal sig => [sig]
| .iteration batch _ => batch.flatMap BatchEntry.signals

/- `while (!stop_server)`. -/
def signalMachine
    (fds : MainFds) : Machine SignalLoop SignalStep where
  enabled l
  | .signal _ => True
  | .iteration _ _ => l.stopServer = false
  step l
  | .signal sig => some (l.sigHandler [sig])
  | .iteration batch cur => do
      let l ← l.handleBatch fds batch
      let (_, l) ← l.timedEvents cur
      some l

/- No flag is set, and these signals wait to be received. -/
structure SignalLoop.Waits
    (l : SignalLoop)
    (signals : Bytes) : Prop where
  timeout : l.timeout = false
  stopServer : l.stopServer = false
  pending : l.pending = signals

/- An iteration then ticks no timer. -/
theorem SignalLoop.Waits.iteration
    {fds : MainFds}
    {l t : SignalLoop}
    {signals : Bytes}
    {batch : List BatchEntry}
    (h : l.Waits signals)
    (hBatch : l.handleBatch fds batch = some t)
    (cur : Int) :
    t.timedEvents cur = some (false, t) ∧
      t.Waits
        (signals ++ batch.flatMap BatchEntry.signals) := by
  have hFrame := SignalLoop.handleBatch_frame hBatch
  have hTimeout := hFrame.1.trans h.timeout
  refine ⟨?_, hTimeout, hFrame.2.1.trans h.stopServer, ?_⟩
  · unfold SignalLoop.timedEvents
    rw [hTimeout, if_neg nofun]
  · rw [hFrame.2.2, h.pending]

theorem SignalLoop.Waits.step
    {fds : MainFds}
    {l t : SignalLoop}
    {signals : Bytes}
    {e : SignalStep}
    (h : l.Waits signals)
    (hStep : (signalMachine fds).step l e = some t) :
    t.Waits (signals ++ e.signals) := by
  cases e with
  | signal sig =>
      cases hStep
      refine ⟨h.timeout, h.stopServer, ?_⟩
      exact congrArg (· ++ [sig]) h.pending
  | iteration batch cur =>
      rcases Option.bind_eq_some_iff.mp hStep with
        ⟨u, hBatch, hRest⟩
      rcases Option.bind_eq_some_iff.mp hRest with
        ⟨⟨ticks, v⟩, hTimed, hSome⟩
      cases hSome
      have hNext := h.iteration hBatch cur
      rw [hNext.1] at hTimed
      cases hTimed
      exact hNext.2

/-
  In every run of the server no signal is received: each one
  waits in the socket pair, `stop_server` stays false, and
  no iteration ticks the timers.
-/
theorem signals_never_received
    {fds : MainFds}
    {server : ServerState}
    {es : List SignalStep}
    {l : SignalLoop}
    (hReach :
      (signalMachine fds).Reaches (.start server) es l) :
    l.Waits (es.flatMap SignalStep.signals) ∧
      ∀ batch t, l.handleBatch fds batch = some t →
        ∀ cur, t.timedEvents cur = some (false, t) := by
  suffices hFrom :
      ∀ {s t : SignalLoop} {signals : Bytes}
        {es : List SignalStep},
        (signalMachine fds).Reaches s es t →
          s.Waits signals →
            t.Waits
              (signals ++ es.flatMap SignalStep.signals) by
    have hStart : (SignalLoop.start server).Waits [] :=
      ⟨rfl, rfl, rfl⟩
    have hWaits := hFrom hReach hStart
    rw [List.nil_append] at hWaits
    refine ⟨hWaits, ?_⟩
    intro batch t hBatch cur
    exact (hWaits.iteration hBatch cur).1
  intro s t signals es hRun
  induction hRun generalizing signals with
  | nil s =>
      intro h
      rw [List.flatMap_nil, List.append_nil]
      exact h
  | cons _ hStep _ ih =>
      intro h
      rw [List.flatMap_cons, ← List.append_assoc]
      exact ih (h.step hStep)

/- The alarm goes off and its byte is reported. -/
theorem alarm_not_handled :
    ¬ ∀ fds l batch cur,
      SignalLoop.SignalsReach fds l batch cur := by
  intro hAll
  obtain ⟨fds, hFds⟩ : ∃ fds : MainFds,
      fds = ⟨3, 5, by decide⟩ :=
    ⟨_, rfl⟩
  obtain ⟨entry, hEntry⟩ : ∃ entry : BatchEntry,
      entry =
        ⟨5, ⟨true, false, false, false, false⟩,
          ⟨0, 0, 0, false, .failed⟩, []⟩ :=
    ⟨_, rfl⟩
  have hSignal : entry.IsSignal fds := by
    rw [hEntry, hFds]
    exact ⟨rfl, rfl, rfl⟩
  have hHandled :=
    (hAll fds
      ((SignalLoop.start ServerState.init).sigHandler
        [sigalrm])
      [entry] 5).dispatched entry List.mem_cons_self hSignal
  exact fds.dispatch_ne_dealSigEvent _ _ hHandled

end V2

end WebServer
