import WebServer.V3.Net.Reactor

/-
  The server of version 3.0 (`Server.cpp`,
  `net/EventLoopThreadPool.cpp`): one thread that accepts
  connections and several loops that serve them.

  `handNewConn` takes connections off the backlog of the
  listening socket, gives each to the next loop of the pool,
  and queues its `newEvent` there. All threads share one
  table of descriptors: `accept` returns a number that is
  open nowhere in the process.

  The listening socket is watched edge-triggered. An edge is
  a connection that came since the last report, or a change
  of the registration.

  Key definitions include:
    * `Server`
    * `Server.getNextLoop`
    * `Server.accept`
    * `Server.setNonBlocking`
    * `Server.At`
    * `serverMachine`
-/

------------------------------------------------------------
-- The Server
------------------------------------------------------------

namespace WebServer

namespace V3

/- `MAXFDS`, the size of the tables of a poller. -/
def maxFds : Nat := 100000

/-
  A number of loops. The constructor of the pool aborts where
  it is not positive.
-/
abbrev PoolSize : Type := { n : Nat // 0 < n }

/-
  Where the main thread stands: in `epoll_wait`, before
  `accept` in the loop of `handNewConn`, or behind it with a
  new connection and the loop chosen for it.
-/
inductive AcceptPos (numThreads : Nat)
| waiting
| accepting
| accepted (fd : Fd) (loop : Fin numThreads)
deriving DecidableEq

/-
  The pool with its loops, the accept channel, and what the
  kernel keeps of the listening socket: the events that it
  watches, the connections not yet accepted, and whether an
  edge is still to be reported. `lost` are descriptors that
  are open and that nothing refers to.
-/
structure Server (numThreads : Nat) where
  loops : Fin numThreads → Reactor
  next : Fin numThreads
  acceptChannel : Channel
  registered : Events
  backlog : Nat
  edge : Bool
  pos : AcceptPos numThreads
  lost : List Fd

/- A step of a client, of the main thread or of a loop. -/
inductive ServerStep (numThreads : Nat)
| connect
| pollAccept
| accept (result : Option Fd)
| setNonBlocking (succeeds : Bool)
| loop (i : Fin numThreads) (e : ReactorStep)

/- Connections handed to a loop and not yet opened there. -/
def Reactor.queued
    (r : Reactor) : List Fd :=
  r.thread.taken ++ r.thread.pendingFunctors

namespace Server

variable {numThreads : Nat}

/- After `start()`. -/
def start
    (size : PoolSize) : Server size.val where
  loops := fun _ => .new
  next := ⟨0, size.property⟩
  acceptChannel :=
    (Channel.new.setEvents .inEt).equalAndUpdateLastEvents.2
  registered := .inEt
  backlog := 0
  edge := false
  pos := .waiting
  lost := []

/- `getNextLoop()`. -/
def getNextLoop
    (s : Server numThreads) :
    Fin numThreads × Server numThreads :=
  (s.next,
    { s with
      next :=
        ⟨(s.next.val + 1) % numThreads,
          Nat.mod_lt _ s.next.pos⟩ })

/-
  `handThisConn()`, which updates the poller, and the end of
  the pass.
-/
def handThisConn
    (s : Server numThreads) : Server numThreads :=
  let (equal, channel) :=
    s.acceptChannel.equalAndUpdateLastEvents
  let s := { s with acceptChannel := channel, pos := .waiting }
  if equal then
    s
  else
    { s with
      registered := channel.events
      edge :=
        channel.events.epollIn && decide (0 < s.backlog) }

/-
  `accept` returns in `handNewConn`. Its loop ends where the
  result is not positive.
-/
def accept
    (s : Server numThreads) :
    Option Fd → Server numThreads
| none =>
    { s with
      acceptChannel :=
        s.acceptChannel.setEvents .inEt }.handThisConn
| some 0 =>
    { s with
      backlog := s.backlog - 1
      lost := s.lost ++ [0]
      acceptChannel :=
        s.acceptChannel.setEvents .inEt }.handThisConn
| some fd =>
    let (loop, s) :=
      { s with backlog := s.backlog - 1 }.getNextLoop
    if maxFds ≤ fd then
      -- `close(accept_fd)`
      s
    else
      { s with pos := .accepted fd loop }

/-
  `setSocketNonBlocking(accept_fd)` returns. If it fails, so
  does `handNewConn`, before it asks for events again.
-/
def setNonBlocking
    (s : Server numThreads)
    (succeeds : Bool) : Server numThreads :=
  match s.pos with
  | .accepted fd loop =>
      if succeeds then
        { s with
          loops :=
            Function.update s.loops loop
              ((s.loops loop).queueInLoop fd)
          pos := .accepting }
      else
        { s with lost := s.lost ++ [fd] }.handThisConn
  | _ => s

end Server

end V3

end WebServer

------------------------------------------------------------
-- Descriptors
------------------------------------------------------------

namespace WebServer

namespace V3

/- A place that keeps a descriptor open. -/
inductive Place (numThreads : Nat)
| lost (k : Nat)
| accepted
| queued (i : Fin numThreads) (k : Nat)
| object (i : Fin numThreads) (id : ConnId)
deriving DecidableEq

namespace Server

variable {numThreads : Nat}

/- The descriptor is kept open in this place. -/
def At
    (s : Server numThreads)
    (fd : Fd) :
    Place numThreads → Prop
| .lost k => s.lost[k]? = some fd
| .accepted => ∃ loop, s.pos = .accepted fd loop
| .queued i k => (s.loops i).queued[k]? = some fd
| .object i id =>
    (s.loops i).poller.Alive id ∧
      ∃ obj,
        (s.loops i).poller.objects id = some obj ∧
          obj.fd = fd

/- The descriptor is open. -/
def Open
    (s : Server numThreads)
    (fd : Fd) : Prop :=
  ∃ p, s.At fd p

/- What the kernel and the other threads allow. -/
def enabled
    (s : Server numThreads) :
    ServerStep numThreads → Prop
| .connect => True
| .pollAccept =>
    s.pos = .waiting ∧
      s.registered.epollIn = true ∧
      s.edge = true ∧ 0 < s.backlog
| .accept none => s.pos = .accepting
| .accept (some fd) =>
    s.pos = .accepting ∧ 0 < s.backlog ∧ ¬ s.Open fd
| .setNonBlocking _ => ∃ fd loop, s.pos = .accepted fd loop
| .loop i e => (s.loops i).enabled e

def step
    (s : Server numThreads) :
    ServerStep numThreads → Option (Server numThreads)
| .connect =>
    some
      { s with
        backlog := s.backlog + 1
        edge := s.edge || s.registered.epollIn }
| .pollAccept =>
    some
      { s with
        edge := false
        acceptChannel := s.acceptChannel.setEvents .none
        pos := .accepting }
| .accept result => some (s.accept result)
| .setNonBlocking succeeds => some (s.setNonBlocking succeeds)
| .loop i e =>
    ((s.loops i).step e).map fun r =>
      { s with loops := Function.update s.loops i r }

end Server

/- The threads of the server, with their clients. -/
def serverMachine
    (numThreads : Nat) :
    Machine (Server numThreads) (ServerStep numThreads) where
  enabled := Server.enabled
  step := Server.step

end V3

end WebServer
