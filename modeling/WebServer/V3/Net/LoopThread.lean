import WebServer.V3.Net.EventLoop

/-
  The thread of an event loop (`EventLoop::loop`,
  `EpollPoller::poll`) and the functors that other threads
  hand to it (`queueInLoop`, `wakeup`, `doPendingFunctors`).

  A step is one return of `epoll_wait`, one handler, one
  functor, one push under the mutex or one write to the
  wakeup descriptor. Handlers and functors are known by what
  they call: `queueInLoop`, `runInLoop` and `quit`. Every
  write to the wakeup descriptor is a new edge for
  `epoll_wait`; its counter does not overflow.

  Key definitions include:
    * `LoopThread`
    * `LoopThread.queueInLoop`
    * `LoopThread.poll`
    * `LoopThread.handleWakeup`
    * `loopMachine`
-/

------------------------------------------------------------
-- The Loop Thread
------------------------------------------------------------

namespace WebServer

namespace V3

variable {F : Type}

/- An entry of the list that `poll` returns. -/
inductive ActiveChannel
| wakeup
| other
deriving DecidableEq, Repr

/-
  What `epoll_wait` returns: an error, or the channels of
  the descriptors with an event, null for a descriptor
  without a channel. A timeout returns no descriptor.
-/
inductive WaitResult
| error
| ready (channels : List (Option ActiveChannel))
deriving DecidableEq, Repr

/-
  Where the thread stands in `loop`: in `epoll_wait`, in the
  handler of the first active channel or behind the last,
  among the functors it took, before `handleExpired`, or
  returned. `running` says that a functor was called.
-/
inductive LoopPos (F : Type)
| waiting
| handling (active : List ActiveChannel)
| functors (running : Bool) (left : List F)
| expiring
| finished
deriving DecidableEq, Repr

/-
  Members of the loop, its wakeup descriptor and its
  threads. `registered` are the events that the kernel
  watches on the descriptor, `counter` its value, and
  `unreported` says that it was written since `epoll_wait`
  last reported it. `owing` counts the other threads, and
  `loopOwes` the loop thread, between push and `wakeup`.
-/
structure LoopThread (F : Type) where
  pos : LoopPos F
  quit : Bool
  pendingFunctors : List F
  callingPendingFunctors : Bool
  pwakeupChannel : Channel
  registered : Events
  counter : Nat
  unreported : Bool
  owing : Nat
  loopOwes : Bool
deriving DecidableEq, Repr

namespace LoopThread

/-
  After the constructor, which registers the wakeup channel,
  and the first statements of `loop`.
-/
def new : LoopThread F where
  pos := .waiting
  quit := false
  pendingFunctors := []
  callingPendingFunctors := false
  pwakeupChannel :=
    (Channel.new.setEvents .inEt).equalAndUpdateLastEvents.2
  registered := .inEt
  counter := 0
  unreported := false
  owing := 0
  loopOwes := false

/-
  The push of `queueInLoop(cb)`, and whether `wakeup` is the
  calling thread's next step.
-/
def queueInLoop
    (s : LoopThread F)
    (isInLoopThread : Bool)
    (cb : F) : LoopThread F :=
  let s :=
    { s with pendingFunctors := s.pendingFunctors ++ [cb] }
  if !isInLoopThread then
    { s with owing := s.owing + 1 }
  else if s.callingPendingFunctors then
    { s with loopOwes := true }
  else
    s

/- `runInLoop(cb)`; on the loop thread `cb` runs at once. -/
def runInLoop
    (s : LoopThread F)
    (isInLoopThread : Bool)
    (cb : F) : LoopThread F :=
  if isInLoopThread then s else s.queueInLoop false cb

/- `wakeup()`, by a thread that owes it. -/
def wakeup
    (s : LoopThread F)
    (isInLoopThread : Bool) : LoopThread F :=
  let s :=
    { s with
      counter := s.counter + 1
      unreported := true }
  if isInLoopThread then
    { s with loopOwes := false }
  else
    { s with owing := s.owing - 1 }

/- `quit()`, before another thread's `wakeup`. -/
def setQuit
    (s : LoopThread F)
    (isInLoopThread : Bool) : LoopThread F :=
  if isInLoopThread then
    { s with quit := true }
  else
    { s with quit := true, owing := s.owing + 1 }

end LoopThread

end V3

end WebServer

------------------------------------------------------------
-- One Pass Of The Loop
------------------------------------------------------------

namespace WebServer

namespace V3

variable {F : Type}

/- The channels that `poll` collects. -/
def WaitResult.active :
    WaitResult → List ActiveChannel
| .error => []
| .ready channels => channels.filterMap id

namespace LoopThread

/-
  One return of `epoll_wait` inside `poll`. The inner loop
  waits again unless there is an active channel.
-/
def poll
    (s : LoopThread F)
    (result : WaitResult) : LoopThread F :=
  let active := result.active
  let s :=
    if .wakeup ∈ active then
      { s with
        unreported := false
        pwakeupChannel := s.pwakeupChannel.setEvents .none }
    else
      s
  if active = [] then
    s
  else
    { s with pos := .handling active }

/-
  `handleEvents()` on the wakeup channel: its read handler
  empties the counter, its connection handler updates the
  poller.
-/
def handleWakeup
    (s : LoopThread F) : LoopThread F :=
  let channel := s.pwakeupChannel.setEvents .none
  let s := { s with counter := 0 }
  let channel := channel.setEvents .inEt
  let (equal, channel) := channel.equalAndUpdateLastEvents
  let s := { s with pwakeupChannel := channel }
  if equal then
    s
  else
    { s with
      registered := channel.events
      unreported := decide (0 < s.counter) }

/- The handlers of the first active channel return. -/
def handleEvents
    (s : LoopThread F) : LoopThread F :=
  match s.pos with
  | .handling (.wakeup :: active) =>
      { s.handleWakeup with pos := .handling active }
  | .handling (.other :: active) =>
      { s with pos := .handling active }
  | _ => s

/- The swap at the head of `doPendingFunctors`. -/
def swapFunctors
    (s : LoopThread F) : LoopThread F :=
  { s with
    callingPendingFunctors := true
    pos := .functors false s.pendingFunctors
    pendingFunctors := [] }

/- The next functor is called. -/
def callFunctor
    (s : LoopThread F) : LoopThread F :=
  match s.pos with
  | .functors _ (_ :: left) =>
      { s with pos := .functors true left }
  | _ => s

/- The end of `doPendingFunctors`. -/
def endFunctors
    (s : LoopThread F) : LoopThread F :=
  { s with
    callingPendingFunctors := false
    pos := .expiring }

/- `handleExpired()`, and the test at the loop's head. -/
def handleExpired
    (s : LoopThread F) : LoopThread F :=
  { s with pos := if s.quit then .finished else .waiting }

end LoopThread

end V3

end WebServer

------------------------------------------------------------
-- The Loop As A Machine
------------------------------------------------------------

namespace WebServer

namespace V3

variable {F : Type}

/- One step of the loop thread or of another thread. -/
inductive LoopStep (F : Type)
| queueInLoop (isInLoopThread : Bool) (cb : F)
| runInLoop (isInLoopThread : Bool) (cb : F)
| wakeup (isInLoopThread : Bool)
| quit (isInLoopThread : Bool)
| epollWait (result : WaitResult)
| handleEvents
| swapFunctors
| callFunctor
| endFunctors
| handleExpired
deriving DecidableEq, Repr

namespace LoopThread

/-
  A handler or a functor runs on the loop thread, and the
  thread is not between a push and its `wakeup`.
-/
def runsCallback
    (s : LoopThread F) : Bool :=
  !s.loopOwes &&
    match s.pos with
    | .handling (_ :: _) => true
    | .functors running _ => running
    | _ => false

/- The kernel has an event of the wakeup descriptor. -/
def wakes
    (s : LoopThread F) : Bool :=
  s.registered.epollIn && s.unreported &&
    decide (0 < s.counter)

def enabled
    (s : LoopThread F) :
    LoopStep F → Prop
| .queueInLoop isInLoopThread _ =>
    isInLoopThread = true → s.runsCallback = true
| .runInLoop isInLoopThread _ =>
    isInLoopThread = true → s.runsCallback = true
| .quit isInLoopThread =>
    isInLoopThread = true → s.runsCallback = true
| .wakeup isInLoopThread =>
    if isInLoopThread then s.loopOwes = true else 0 < s.owing
| .epollWait result =>
    s.pos = .waiting ∧
      (.wakeup ∈ result.active → s.wakes = true) ∧
      result.active.count .wakeup ≤ 1
| .handleEvents =>
    s.loopOwes = false ∧
      ∃ c active, s.pos = .handling (c :: active)
| .swapFunctors => s.pos = .handling []
| .callFunctor =>
    s.loopOwes = false ∧
      ∃ running cb left,
        s.pos = .functors running (cb :: left)
| .endFunctors =>
    s.loopOwes = false ∧
      ∃ running, s.pos = .functors running []
| .handleExpired => s.pos = .expiring

instance
    [DecidableEq F]
    (s : LoopThread F) :
    ∀ e, Decidable (s.enabled e)
| .queueInLoop isInLoopThread _ =>
    inferInstanceAs
      (Decidable
        (isInLoopThread = true → s.runsCallback = true))
| .runInLoop isInLoopThread _ =>
    inferInstanceAs
      (Decidable
        (isInLoopThread = true → s.runsCallback = true))
| .quit isInLoopThread =>
    inferInstanceAs
      (Decidable
        (isInLoopThread = true → s.runsCallback = true))
| .wakeup isInLoopThread =>
    inferInstanceAs
      (Decidable
        (if isInLoopThread then
          s.loopOwes = true
        else
          0 < s.owing))
| .epollWait result =>
    inferInstanceAs
      (Decidable
        (s.pos = .waiting ∧
          (.wakeup ∈ result.active → s.wakes = true) ∧
            result.active.count .wakeup ≤ 1))
| .handleEvents =>
    match hPos : s.pos with
    | .handling (c :: active) =>
        decidable_of_iff (s.loopOwes = false)
          ⟨fun h => ⟨h, c, active, hPos⟩, And.left⟩
    | .handling [] => isFalse (by simp [enabled, hPos])
    | .waiting => isFalse (by simp [enabled, hPos])
    | .functors _ _ => isFalse (by simp [enabled, hPos])
    | .expiring => isFalse (by simp [enabled, hPos])
    | .finished => isFalse (by simp [enabled, hPos])
| .swapFunctors =>
    inferInstanceAs (Decidable (s.pos = .handling []))
| .callFunctor =>
    match hPos : s.pos with
    | .functors running (cb :: left) =>
        decidable_of_iff (s.loopOwes = false)
          ⟨fun h => ⟨h, running, cb, left, hPos⟩, And.left⟩
    | .functors _ [] => isFalse (by simp [enabled, hPos])
    | .waiting => isFalse (by simp [enabled, hPos])
    | .handling _ => isFalse (by simp [enabled, hPos])
    | .expiring => isFalse (by simp [enabled, hPos])
    | .finished => isFalse (by simp [enabled, hPos])
| .endFunctors =>
    match hPos : s.pos with
    | .functors running [] =>
        decidable_of_iff (s.loopOwes = false)
          ⟨fun h => ⟨h, running, hPos⟩, And.left⟩
    | .functors _ (_ :: _) =>
        isFalse (by simp [enabled, hPos])
    | .waiting => isFalse (by simp [enabled, hPos])
    | .handling _ => isFalse (by simp [enabled, hPos])
    | .expiring => isFalse (by simp [enabled, hPos])
    | .finished => isFalse (by simp [enabled, hPos])
| .handleExpired =>
    inferInstanceAs (Decidable (s.pos = .expiring))

def step
    (s : LoopThread F) :
    LoopStep F → LoopThread F
| .queueInLoop isInLoopThread cb =>
    s.queueInLoop isInLoopThread cb
| .runInLoop isInLoopThread cb =>
    s.runInLoop isInLoopThread cb
| .quit isInLoopThread => s.setQuit isInLoopThread
| .wakeup isInLoopThread => s.wakeup isInLoopThread
| .epollWait result => s.poll result
| .handleEvents => s.handleEvents
| .swapFunctors => s.swapFunctors
| .callFunctor => s.callFunctor
| .endFunctors => s.endFunctors
| .handleExpired => s.handleExpired

end LoopThread

/- The loop thread and the threads that call into it. -/
def loopMachine : Machine (LoopThread F) (LoopStep F) where
  enabled := LoopThread.enabled
  step s e := some (s.step e)

end V3

end WebServer
