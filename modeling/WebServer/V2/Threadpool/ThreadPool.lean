import WebServer.Library.Machine

/-
  The thread pool of version 2.0 (`threadpool/threadpool.h`).

  Any number of threads call `append`, and each worker
  thread runs `run`. The code between `lock` and `unlock` of
  the queue's mutex is one step, as are `wait` and `post` of
  the semaphore. A request is a pointer and may be null.
  `m_stop` is set by the destructor only, so the loop of
  `run` does not end here; the semaphore's value has no
  upper bound.

  Key definitions include:
    * `ThreadPool`
    * `ThreadPool.append`
    * `ThreadPool.take`
    * `poolMachine`
-/

------------------------------------------------------------
-- Pool State
------------------------------------------------------------

namespace WebServer

namespace V2

variable {T : Type}

/-
  What became of a call of `append`: it returned false, it
  is between `push_back` and `post`, or it returned true.
-/
inductive AppendPos
| refused
| pushed
| posted
deriving DecidableEq, Repr

/- One call of `append`, from its critical section on. -/
structure AppendCall (T : Type) where
  request : Option T
  pos : AppendPos
deriving DecidableEq, Repr

/-
  Where a worker stands in `run`: at the wait for the
  semaphore, before the lock, or in `process()`.
-/
inductive WorkerPos (T : Type)
| waiting
| woken
| processing (request : T)
deriving DecidableEq, Repr

/- The members, the calls of `append` and the workers. -/
structure ThreadPool (T : Type) where
  maxRequests : Nat
  workqueue : List (Option T)
  queuestat : Nat
  calls : List (AppendCall T)
  workers : List (WorkerPos T)
deriving DecidableEq, Repr

namespace ThreadPool

/-
  The constructor. It throws unless both counts are
  positive.
-/
def new
    (threadNumber : Int)
    (maxRequests : Int) : Option (ThreadPool T) :=
  if threadNumber ≤ 0 ∨ maxRequests ≤ 0 then
    none
  else
    some
      { maxRequests := maxRequests.toNat
        workqueue := []
        queuestat := 0
        calls := []
        workers := List.replicate threadNumber.toNat .waiting }

end ThreadPool

end V2

end WebServer

------------------------------------------------------------
-- Appending And Taking
------------------------------------------------------------

namespace WebServer

namespace V2

variable {T : Type}

namespace ThreadPool

/- The critical section of `append(request)`. -/
def append
    (s : ThreadPool T)
    (request : Option T) : ThreadPool T :=
  if s.workqueue.length > s.maxRequests then
    { s with calls := s.calls ++ [⟨request, .refused⟩] }
  else
    { s with
      workqueue := s.workqueue ++ [request]
      calls := s.calls ++ [⟨request, .pushed⟩] }

/- `m_queuestat.post()` and the return of the call. -/
def post
    (s : ThreadPool T)
    (call : Nat) : Option (ThreadPool T) := do
  let c ← s.calls[call]?
  some
    { s with
      queuestat := s.queuestat + 1
      calls := s.calls.set call { c with pos := .posted } }

/- Move one worker. -/
def setWorker
    (s : ThreadPool T)
    (worker : Nat)
    (pos : WorkerPos T) : ThreadPool T :=
  { s with workers := s.workers.set worker pos }

/- `m_queuestat.wait()` took a unit of the semaphore. -/
def wait
    (s : ThreadPool T)
    (worker : Nat) : ThreadPool T :=
  { s with queuestat := s.queuestat - 1 }.setWorker worker
    .woken

/- `m_queuestat.wait()` returned early with an error. -/
def waitError
    (s : ThreadPool T)
    (worker : Nat) : ThreadPool T :=
  s.setWorker worker .woken

/- What a worker does with the request it took. -/
def goOn : Option T → WorkerPos T
| none => .waiting
| some request => .processing request

/-
  The critical section of `run`: the oldest request, if
  there is one.
-/
def take
    (s : ThreadPool T)
    (worker : Nat) : ThreadPool T :=
  match s.workqueue with
  | [] => s.setWorker worker .waiting
  | request :: rest =>
      { s with workqueue := rest }.setWorker worker
        (goOn request)

/- `process()` returned. -/
def processed
    (s : ThreadPool T)
    (worker : Nat) : ThreadPool T :=
  s.setWorker worker .waiting

end ThreadPool

end V2

end WebServer

------------------------------------------------------------
-- The Pool As A Machine
------------------------------------------------------------

namespace WebServer

namespace V2

variable {T : Type}

/- One step of a thread that appends or of a worker. -/
inductive PoolEvent (T : Type)
| append (request : Option T)
| post (call : Nat)
| wait (worker : Nat)
| waitError (worker : Nat)
| take (worker : Nat)
| processed (worker : Nat)
deriving DecidableEq, Repr

namespace ThreadPool

/- Each thread goes on from where it stands. -/
def enabled
    (s : ThreadPool T) :
    PoolEvent T → Prop
| .append _ => True
| .post call =>
    (s.calls[call]?).map AppendCall.pos = some .pushed
| .wait worker =>
    s.workers[worker]? = some .waiting ∧ 0 < s.queuestat
| .waitError worker => s.workers[worker]? = some .waiting
| .take worker => s.workers[worker]? = some .woken
| .processed worker =>
    ∃ request, s.workers[worker]? = some (.processing request)

def step
    (s : ThreadPool T) :
    PoolEvent T → Option (ThreadPool T)
| .append request => some (s.append request)
| .post call => s.post call
| .wait worker => some (s.wait worker)
| .waitError worker => some (s.waitError worker)
| .take worker => some (s.take worker)
| .processed worker => some (s.processed worker)

end ThreadPool

/- The pool as a machine over the steps of its threads. -/
def poolMachine : Machine (ThreadPool T) (PoolEvent T) where
  enabled := ThreadPool.enabled
  step := ThreadPool.step

end V2

end WebServer
