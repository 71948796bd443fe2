import WebServer.Library.Machine
import WebServer.V2.Timer.LstTimer

/-
  The event loop of version 2.0 (`server.cpp`) as far as
  connections, their descriptors and their timers go.

  The state holds the arrays `users` and `users_timer`, the
  timer list and the kernel's table of open connections. A
  closed descriptor number may be given to a later
  connection. Two fields only record history: which
  connection each timer was created for, and which
  connections the timers have closed.

  Key definitions include:
    * `ServerState`
    * `ServerState.addClient`
    * `ServerState.dealReadEvent`
    * `ServerState.dealWriteEvent`
    * `ServerState.cbFunc`
    * `serverMachine`
-/

------------------------------------------------------------
-- Server State
------------------------------------------------------------

namespace WebServer

namespace V2

/- Identity of one accepted connection. -/
abbrev ConnId := Nat

/- `MAX_FD`, the length of both arrays. -/
def maxFd : Nat := 65535

/- `TIMESLOT`, in seconds. -/
def timeslot : Int := 5

/- One slot of `users_timer`. -/
structure ClientData where
  sockfd : Fd
  timer : Option Addr
deriving DecidableEq, Repr

/-
  `users` gives `m_sockfd` of each `http_conn`, `none` for
  its value -1.
-/
structure ServerState where
  users : Fd → Option Fd
  usersTimer : Fd → ClientData
  timerLst : SortTimerLst
  userCount : Int
  conns : Fd → Option ConnId
  nextConn : ConnId
  createdFor : Addr → Option ConnId
  closedByTimer : List (Option ConnId × Option ConnId)

namespace ServerState

/- The server before its first event. -/
def init : ServerState where
  users := fun _ => none
  usersTimer := fun _ => ⟨0, none⟩
  timerLst := SortTimerLst.empty
  userCount := 0
  conns := fun _ => none
  nextConn := 0
  createdFor := fun _ => none
  closedByTimer := []

/- `accept()` handing out descriptor `fd`. -/
def accept
    (st : ServerState)
    (fd : Fd) : ServerState :=
  { st with
    conns := Function.update st.conns fd (some st.nextConn)
    nextConn := st.nextConn + 1 }

/- `close(fd)`. -/
def close
    (st : ServerState)
    (fd : Fd) : ServerState :=
  { st with conns := Function.update st.conns fd none }

/- `http_conn::close_conn()` on `users[fd]`. -/
def closeConn
    (st : ServerState)
    (fd : Fd) : ServerState :=
  match st.users fd with
  | none => st
  | some sockfd =>
      { st.close sockfd with
        users := Function.update st.users fd none
        userCount := st.userCount - 1 }

/-
  `cb_func(user_data)`, called for one timer. It touches
  neither the connection object nor the slot.
-/
def cbFunc
    (st : ServerState)
    (timer : Addr)
    (userData : Fd) : ServerState :=
  let sockfd := (st.usersTimer userData).sockfd
  { st.close sockfd with
    userCount := st.userCount - 1
    closedByTimer :=
      st.closedByTimer ++
        [(st.createdFor timer, st.conns sockfd)] }

end ServerState

end V2

end WebServer

------------------------------------------------------------
-- Event Handlers
------------------------------------------------------------

namespace WebServer

namespace V2

namespace ServerState

/-
  `add_client(fd, addr)`, with the new timer at address
  `timer`. A descriptor past the arrays is a bad access.
-/
def addClient
    (st : ServerState)
    (fd : Fd)
    (timer : Addr)
    (cur : Int) : Option ServerState :=
  if fd < maxFd then do
    let expire := cur + 3 * timeslot
    let lst ←
      (st.timerLst.alloc timer expire fd).addTimer timer
    some
      { st with
        users := Function.update st.users fd (some fd)
        userCount := st.userCount + 1
        usersTimer :=
          Function.update st.usersTimer fd ⟨fd, some timer⟩
        timerLst := lst
        createdFor :=
          Function.update st.createdFor timer (st.conns fd) }
  else
    none

/- `deal_listen_event()`, `accept` having returned `fd`. -/
def dealListenEvent
    (st : ServerState)
    (fd : Fd)
    (timer : Addr)
    (cur : Int) : Option ServerState :=
  if (maxFd : Int) ≤ st.userCount then
    some ((st.accept fd).close fd)
  else
    (st.accept fd).addClient fd timer cur

/-
  `timer->expire = cur + 3 * TIMESLOT` and `adjust_timer`,
  when the slot holds a timer.
-/
def prolong
    (st : ServerState)
    (timer : Option Addr)
    (cur : Int) : Option ServerState :=
  match timer with
  | none => some st
  | some timer => do
      let lst ←
        st.timerLst.setExpire timer (cur + 3 * timeslot)
      let lst ← lst.adjustTimer timer
      some { st with timerLst := lst }

/- `close_conn()` and then `del_timer`, if there is one. -/
def retire
    (st : ServerState)
    (fd : Fd)
    (timer : Option Addr) : Option ServerState :=
  let st := st.closeConn fd
  match timer with
  | none => some st
  | some timer => do
      let lst ← st.timerLst.delTimer timer
      some { st with timerLst := lst }

/-
  `deal_read_event(fd)`, given what `users[fd].read()`
  returned. The request it queues for the thread pool is
  answered in a later `process` event.
-/
def dealReadEvent
    (st : ServerState)
    (fd : Fd)
    (read : Bool)
    (cur : Int) : Option ServerState :=
  let timer := (st.usersTimer fd).timer
  if read then
    st.prolong timer cur
  else
    st.retire fd timer

/-
  `deal_write_event(fd)`, given what `users[fd].write()`
  returned.
-/
def dealWriteEvent
    (st : ServerState)
    (fd : Fd)
    (write : Bool)
    (cur : Int) : Option ServerState :=
  let timer := (st.usersTimer fd).timer
  if write then
    st.prolong timer cur
  else
    st.retire fd timer

/-
  `http_conn::process()` in a worker thread, given what
  `process_write` returned.
-/
def process
    (st : ServerState)
    (fd : Fd)
    (writeRet : Bool) : ServerState :=
  if writeRet then st else st.closeConn fd

/- The callbacks of one tick, in order. -/
def runCallbacks
    (st : ServerState)
    (fired : List (Addr × Fd)) : ServerState :=
  fired.foldl (fun st f => st.cbFunc f.1 f.2) st

/-
  `timer_lst.tick()` at clock reading `cur`. The callbacks
  do not touch the list, so they run after its walk here.
-/
def tick
    (st : ServerState)
    (cur : Int) : Option ServerState := do
  let (lst, fired) ← st.timerLst.tick cur
  some { st.runCallbacks fired with timerLst := lst }

end ServerState

end V2

end WebServer

------------------------------------------------------------
-- The Server As A Machine
------------------------------------------------------------

namespace WebServer

namespace V2

/- What the kernel, the peers and the clock may do. -/
inductive ServerEvent
| accept (fd : Fd) (timer : Addr) (cur : Int)
| hangUp (fd : Fd)
| readable (fd : Fd) (read : Bool) (cur : Int)
| writable (fd : Fd) (write : Bool) (cur : Int)
| process (fd : Fd) (writeRet : Bool)
| tick (cur : Int)
deriving DecidableEq, Repr

namespace ServerState

/-
  A new connection gets a descriptor that is not open and a
  timer at a free address. All other events but a tick are
  about an open connection.
-/
def enabled
    (st : ServerState) :
    ServerEvent → Prop
| .accept fd timer _ =>
    st.conns fd = none ∧ st.timerLst.heap timer = none
| .hangUp fd => (st.conns fd).isSome
| .readable fd _ _ => (st.conns fd).isSome
| .writable fd _ _ => (st.conns fd).isSome
| .process fd _ => (st.conns fd).isSome
| .tick _ => True

def step
    (st : ServerState) :
    ServerEvent → Option ServerState
| .accept fd timer cur => st.dealListenEvent fd timer cur
| .hangUp fd => some (st.closeConn fd)
| .readable fd read cur => st.dealReadEvent fd read cur
| .writable fd write cur => st.dealWriteEvent fd write cur
| .process fd writeRet => some (st.process fd writeRet)
| .tick cur => st.tick cur

end ServerState

/- The server as a machine over the events it receives. -/
def serverMachine : Machine ServerState ServerEvent where
  enabled := ServerState.enabled
  step := ServerState.step

end V2

end WebServer
