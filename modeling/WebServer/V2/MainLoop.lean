import WebServer.V2.Http.ProcessRead
import WebServer.V2.Server
import WebServer.V2.Threadpool.ThreadPool

/-
  The main loop of version 2.0 with its worker threads
  (`Server::start`, `threadpool::run`, `http_conn::process`).

  All connections are registered with `EPOLLONESHOT`: once
  `epoll_wait` has reported one, it is not watched until
  `modfd` arms it again. The main thread takes the reports
  one by one, reads and writes, and queues connections for
  the workers, which parse and arm them again. Descriptors
  and timers are those of `ServerState`, the queue and the
  workers those of `ThreadPool`.

  A step of a thread ends where another thread can see it.
  The calls that the threads make of the system, and what
  parsing and answering come to, are data of the events.
  Signals are left out: a tick may follow any batch of
  reports.

  Key definitions include:
    * `Serving`
    * `Serving.handle`
    * `Serving.goOn`
    * `Serving.process`
    * `servingMachine`
-/

------------------------------------------------------------
-- Reports And Registrations
------------------------------------------------------------

namespace WebServer

namespace V2

/- What a descriptor is registered for. -/
inductive Interest
| epollIn
| epollOut
deriving DecidableEq, Repr

/- The bits of `events[i].events` that `start` reads. -/
structure EpollEvents where
  epollIn : Bool
  epollOut : Bool
  epollRdhup : Bool
  epollHup : Bool
  epollErr : Bool
deriving DecidableEq, Repr

/- `MAX_EVENT_NUMBER`. -/
def maxEventNumber : Nat := 10000

/- One entry of `events`: the listener or a connection. -/
inductive Report
| listen
| conn (fd : Fd) (events : EpollEvents)
deriving DecidableEq, Repr

/- The connection a report is about. -/
def Report.fd :
    Report → Option Fd
| .listen => none
| .conn fd _ => some fd

namespace EpollEvents

/- `events & (EPOLLRDHUP | EPOLLHUP | EPOLLERR)`. -/
def hangsUp
    (ev : EpollEvents) : Bool :=
  ev.epollRdhup || ev.epollHup || ev.epollErr

/-
  What the kernel may report of a descriptor: something, and
  of reading and writing only what it is registered for.
-/
def Fits
    (ev : EpollEvents) :
    Option Interest → Prop
| none => False
| some .epollIn =>
    ev.epollOut = false ∧ (ev.hangsUp || ev.epollIn) = true
| some .epollOut =>
    ev.epollIn = false ∧ (ev.hangsUp || ev.epollOut) = true

instance
    (ev : EpollEvents) :
    ∀ interest, Decidable (ev.Fits interest)
| none => isFalse id
| some .epollIn => inferInstanceAs (Decidable (_ ∧ _))
| some .epollOut => inferInstanceAs (Decidable (_ ∧ _))

end EpollEvents

/-
  How `http_conn::write()` ends: nothing was left to send,
  `writev` failed with `EAGAIN` or otherwise, or all is sent.
-/
inductive WriteEnd
| nothingToSend
| wouldBlock
| failed
| sent (linger : Bool)
deriving DecidableEq, Repr

namespace WriteEnd

/- The `modfd` that `write()` calls. -/
def modfd :
    WriteEnd → Option Interest
| .nothingToSend => some .epollIn
| .wouldBlock => some .epollOut
| .failed => none
| .sent _ => some .epollIn

/- What `write()` returns. -/
def ret :
    WriteEnd → Bool
| .nothingToSend => true
| .wouldBlock => true
| .failed => false
| .sent linger => linger

end WriteEnd

/-
  What a handler is answered: the descriptor of `accept`,
  the address of a new timer, the time, and how
  `users[fd].read()` and `users[fd].write()` end.
-/
structure Answers where
  accepted : Fd
  timer : Addr
  cur : Int
  read : Bool
  write : WriteEnd
deriving DecidableEq, Repr

end V2

end WebServer

------------------------------------------------------------
-- The State
------------------------------------------------------------

namespace WebServer

namespace V2

/-
  Where the main thread is: before a report or `epoll_wait`,
  past the lock of `append`, or before the `close_conn` of a
  handler, with the connection armed by `write()` or not.
-/
inductive MainPos
| looping
| appended (fd : Fd)
| closing (fd : Fd) (armed : Bool)
deriving DecidableEq, Repr

/-
  `interest` is what `epoll_wait` watches. `events` are the
  reports still to be handled. The workers in `halfClosed`
  are between `close` and `m_sockfd = -1` of `close_conn`.
-/
structure Serving where
  server : ServerState
  interest : Fd → Option Interest
  events : List Report
  pos : MainPos
  pool : ThreadPool Fd
  halfClosed : List Nat

/- `new threadpool<http_conn>()`, with its defaults. -/
def createThreadpool : ThreadPool Fd where
  maxRequests := 10000
  workqueue := []
  queuestat := 0
  calls := []
  workers := List.replicate 8 .waiting

example : ThreadPool.new 8 10000 = some createThreadpool :=
  rfl

namespace ThreadPool

variable {T : Type}

/- The request that a worker is in `process()` of. -/
def requestOf
    (s : ThreadPool T)
    (worker : Nat) : Option T :=
  match s.workers[worker]? with
  | some (.processing request) => some request
  | _ => none

/- What is left of the last call of `append`. -/
def finishAppend
    (s : ThreadPool T) : Option (ThreadPool T) :=
  match s.calls.getLast? with
  | some ⟨_, .pushed⟩ => s.post (s.calls.length - 1)
  | _ => some s

end ThreadPool

namespace Serving

/- The server before its first event. -/
def init : Serving where
  server := ServerState.init
  interest := fun _ => none
  events := []
  pos := .looping
  pool := createThreadpool
  halfClosed := []

/-
  The server's state moved on. The kernel drops the
  registration of a descriptor that is closed.
-/
def serve
    (st : Serving)
    (server : ServerState) : Serving :=
  { st with
    server := server
    interest := fun fd =>
      if (server.conns fd).isSome then
        st.interest fd
      else
        none }

/-
  `addfd` or `modfd` for a descriptor that may be -1. It
  fails where no connection is open.
-/
def modfd
    (st : Serving)
    (sockfd : Option Fd)
    (ev : Interest) : Serving :=
  match sockfd with
  | none => st
  | some fd =>
      if (st.server.conns fd).isSome then
        { st with
          interest :=
            Function.update st.interest fd (some ev) }
      else
        st

end Serving

end V2

end WebServer

------------------------------------------------------------
-- The Main Thread
------------------------------------------------------------

namespace WebServer

namespace V2

namespace Serving

/- `epoll_wait` returned these reports. -/
def epollWait
    (st : Serving)
    (reports : List Report) : Serving :=
  { st with
    interest := fun fd =>
      if some fd ∈ reports.map Report.fd then
        none
      else
        st.interest fd
    events := reports }

/-
  `deal_listen_event()`. A connection that was not turned
  away is armed in `http_conn::init`.
-/
def dealListenEvent
    (st : Serving)
    (a : Answers) : Option Serving := do
  let server ←
    st.server.dealListenEvent a.accepted a.timer a.cur
  some ((st.serve server).modfd (some a.accepted) .epollIn)

/- `deal_read_event(fd)` up to `append` or `close_conn`. -/
def dealReadEvent
    (st : Serving)
    (fd : Fd)
    (a : Answers) : Serving :=
  if a.read then
    { st with
      pool := st.pool.append (some fd)
      pos := .appended fd }
  else
    { st with pos := .closing fd false }

/- `deal_write_event(fd)` up to `close_conn`. -/
def dealWriteEvent
    (st : Serving)
    (fd : Fd)
    (a : Answers) : Option Serving := do
  let armed :=
    match a.write.modfd with
    | none => st
    | some ev => st.modfd (st.server.users fd) ev
  if a.write.ret then
    let server ← st.server.dealWriteEvent fd true a.cur
    some (armed.serve server)
  else
    some
      { armed with
        pos := .closing fd a.write.modfd.isSome }

/- The branches of `start` for one report. -/
def handle
    (st : Serving)
    (a : Answers) : Option Serving :=
  match st.events with
  | [] => none
  | .listen :: rest =>
      { st with events := rest }.dealListenEvent a
  | .conn fd ev :: rest =>
      let st := { st with events := rest }
      if ev.hangsUp then
        some (st.serve (st.server.closeConn fd))
      else if ev.epollIn then
        some (st.dealReadEvent fd a)
      else if ev.epollOut then
        st.dealWriteEvent fd a
      else
        some st

/-
  The rest of `deal_read_event` or `deal_write_event`. The
  value that `append` returns is not looked at.
-/
def goOn
    (st : Serving)
    (cur : Int) : Option Serving :=
  match st.pos with
  | .looping => none
  | .appended fd => do
      let pool ← st.pool.finishAppend
      let server ← st.server.dealReadEvent fd true cur
      some
        ({ st with pool := pool, pos := .looping }.serve
          server)
  | .closing fd _ => do
      let server ←
        st.server.retire fd (st.server.usersTimer fd).timer
      some ({ st with pos := .looping }.serve server)

/- `timer_handler()`. -/
def tick
    (st : Serving)
    (cur : Int) : Option Serving := do
  let server ← st.server.tick cur
  some (st.serve server)

end Serving

end V2

end WebServer

------------------------------------------------------------
-- The Workers
------------------------------------------------------------

namespace WebServer

namespace V2

namespace Serving

/- `process()` returns after `modfd`. -/
def rearm
    (st : Serving)
    (worker : Nat)
    (fd : Fd)
    (ev : Interest) : Serving :=
  { st with pool := st.pool.processed worker }.modfd
    (st.server.users fd) ev

/-
  `process()`, given what `process_read` and `process_write`
  returned, up to its end or to the `close` of `close_conn`.
-/
def process
    (st : Serving)
    (worker : Nat)
    (readRet : HttpCode)
    (writeRet : Bool) : Option Serving := do
  let fd ← st.pool.requestOf worker
  if readRet = .noRequest then
    some (st.rearm worker fd .epollIn)
  else if writeRet then
    some (st.rearm worker fd .epollOut)
  else
    match st.server.users fd with
    | none =>
        some { st with pool := st.pool.processed worker }
    | some sockfd =>
        some
          ({ st with
              halfClosed := worker :: st.halfClosed }.serve
            (st.server.close sockfd))

/-
  The end of `close_conn` in `process()`. The `modfd` behind
  it is called with -1.
-/
def endClose
    (st : Serving)
    (worker : Nat) : Option Serving := do
  let fd ← st.pool.requestOf worker
  some
    { st with
      server :=
        { st.server with
          users := Function.update st.server.users fd none
          userCount := st.server.userCount - 1 }
      pool := st.pool.processed worker
      halfClosed := st.halfClosed.filter (· ≠ worker) }

end Serving

end V2

end WebServer

------------------------------------------------------------
-- The Threads As A Machine
------------------------------------------------------------

namespace WebServer

namespace V2

/- One step of the main thread or of a worker. -/
inductive ServingEvent
| epollWait (reports : List Report)
| handle (a : Answers)
| goOn (cur : Int)
| tick (cur : Int)
| wait (worker : Nat)
| waitError (worker : Nat)
| take (worker : Nat)
| process
    (worker : Nat)
    (readRet : HttpCode)
    (writeRet : Bool)
| endClose (worker : Nat)
deriving DecidableEq, Repr

namespace Serving

/- `epoll_wait` reports what is armed. -/
def Reportable
    (st : Serving) :
    Report → Prop
| .listen => True
| .conn fd ev => ev.Fits (st.interest fd)

instance
    (st : Serving) :
    ∀ r, Decidable (st.Reportable r)
| .listen => isTrue trivial
| .conn _ _ => inferInstanceAs (Decidable (EpollEvents.Fits _ _))

/-
  A handler runs to its end before the next report is taken,
  and all reports are handled before the next `epoll_wait`.
  `accept` returns a descriptor that is not open.
-/
def enabled
    (st : Serving) :
    ServingEvent → Prop
| .epollWait reports =>
    (st.pos = .looping ∧ st.events = []) ∧
      (reports.length ≤ maxEventNumber ∧
        (reports.map Report.fd).Nodup) ∧
          ∀ r ∈ reports, st.Reportable r
| .handle a =>
    (st.pos = .looping ∧ st.events ≠ []) ∧
      st.server.conns a.accepted = none ∧
        st.server.timerLst.heap a.timer = none
| .goOn _ => st.pos ≠ .looping
| .tick _ => st.pos = .looping ∧ st.events = []
| .wait worker =>
    st.pool.workers[worker]? = some .waiting ∧
      0 < st.pool.queuestat
| .waitError worker =>
    st.pool.workers[worker]? = some .waiting
| .take worker => st.pool.workers[worker]? = some .woken
| .process worker _ _ =>
    st.pool.requestOf worker ≠ none ∧
      worker ∉ st.halfClosed
| .endClose worker =>
    st.pool.requestOf worker ≠ none ∧
      worker ∈ st.halfClosed

instance
    (st : Serving) :
    ∀ e, Decidable (st.enabled e)
| .epollWait _ => inferInstanceAs (Decidable (_ ∧ _))
| .handle _ => inferInstanceAs (Decidable (_ ∧ _))
| .goOn _ => inferInstanceAs (Decidable (_ ≠ _))
| .tick _ => inferInstanceAs (Decidable (_ ∧ _))
| .wait _ => inferInstanceAs (Decidable (_ ∧ _))
| .waitError _ => inferInstanceAs (Decidable (_ = _))
| .take _ => inferInstanceAs (Decidable (_ = _))
| .process _ _ _ => inferInstanceAs (Decidable (_ ∧ _))
| .endClose _ => inferInstanceAs (Decidable (_ ∧ _))

def step
    (st : Serving) :
    ServingEvent → Option Serving
| .epollWait reports => some (st.epollWait reports)
| .handle a => st.handle a
| .goOn cur => st.goOn cur
| .tick cur => st.tick cur
| .wait worker =>
    some { st with pool := st.pool.wait worker }
| .waitError worker =>
    some { st with pool := st.pool.waitError worker }
| .take worker =>
    some { st with pool := st.pool.take worker }
| .process worker readRet writeRet =>
    st.process worker readRet writeRet
| .endClose worker => st.endClose worker

end Serving

/- The main thread and the workers as one machine. -/
def servingMachine : Machine Serving ServingEvent where
  enabled := Serving.enabled
  step := Serving.step

instance
    (st : Serving)
    (e : ServingEvent) :
    Decidable (servingMachine.enabled st e) :=
  inferInstanceAs (Decidable (st.enabled e))

end V2

end WebServer
