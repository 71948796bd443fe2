import Mathlib.Logic.Function.Basic
import WebServer.Library.Machine
import WebServer.V3.Base.FixedBuffer

/-
  The asynchronous logger of version 3.0
  (`base/AsyncLogging.h`, `base/AsyncLogging.cpp`).

  Front-end threads call `append`; one back-end thread runs
  `threadFunc`. Buffers are shared objects with an identity.
  A step is one `append`, one call of `stop`, or one piece
  of `threadFunc`; between two steps the lock is free, and
  inside `timewait` it is free too. The result `none` is a
  failed assertion or a null pointer dereferenced.

  Key definitions include:
    * `AsyncLogging`
    * `AsyncLogging.append`
    * `AsyncLogging.collect`
    * `AsyncLogging.threadFunc`
    * `loggingMachine`
-/

------------------------------------------------------------
-- Logger State
------------------------------------------------------------

namespace WebServer

namespace V3

/- `kLargeBuffer`. -/
def kLargeBuffer : Nat := 4000 * 1000

/- Identity of one `Buffer` object. -/
abbrev BufferId := Nat

/-
  Where the back-end thread stands in `threadFunc`: before
  its first statement, at the head of the loop, before the
  lock, inside `timewait`, or in the unlocked part.
-/
inductive ThreadPos
| entry
| loopHead
| beforeLock
| waiting
| collected
| writing (i : Nat)
| resizing
| refilling1
| refilling2
| clearing
| finished
deriving DecidableEq, Repr

/-
  Members, and the local variables of `threadFunc`. `heap`
  gives the buffer behind each identity; `output` is what
  was passed to `LogFile::append`.
-/
structure AsyncLogging where
  running : Bool
  currentBuffer : Option BufferId
  nextBuffer : Option BufferId
  buffers : List BufferId
  newBuffer1 : Option BufferId
  newBuffer2 : Option BufferId
  buffersToWrite : List BufferId
  heap : BufferId → FixedBuffer kLargeBuffer
  nextId : Nat
  output : Bytes
  pos : ThreadPos

namespace AsyncLogging

/-
  After the constructor and the first two statements of
  `start()`: `running_` is set and the thread exists.
-/
def init : AsyncLogging where
  running := true
  currentBuffer := some 0
  nextBuffer := some 1
  buffers := []
  newBuffer1 := none
  newBuffer2 := none
  buffersToWrite := []
  heap := fun _ => FixedBuffer.empty
  nextId := 2
  output := []
  pos := .entry

/- Store a buffer under its identity. -/
def setBuffer
    (s : AsyncLogging)
    (id : BufferId)
    (b : FixedBuffer kLargeBuffer) : AsyncLogging :=
  { s with heap := Function.update s.heap id b }

/- Every buffer a variable holds, variable by variable. -/
def reachable
    (s : AsyncLogging) : List BufferId :=
  s.currentBuffer.toList ++
    (s.nextBuffer.toList ++
      (s.buffers ++
        (s.buffersToWrite ++
          (s.newBuffer1.toList ++ s.newBuffer2.toList))))

end AsyncLogging

end V3

end WebServer

------------------------------------------------------------
-- Front End
------------------------------------------------------------

namespace WebServer

namespace V3

namespace AsyncLogging

/- `currentBuffer_->append(logline, len)`. -/
def appendCurrent
    (s : AsyncLogging)
    (logline : Bytes) : Option AsyncLogging := do
  let id ← s.currentBuffer
  let b ← (s.heap id).append logline
  some (s.setBuffer id b)

/-
  A new current buffer, once the full one was pushed: the
  spare one if there is one, else a fresh one.
-/
def renewCurrent
    (s : AsyncLogging) : AsyncLogging :=
  match s.nextBuffer with
  | some id =>
      { s with currentBuffer := some id, nextBuffer := none }
  | none =>
      { s.setBuffer s.nextId FixedBuffer.empty with
        currentBuffer := some s.nextId
        nextId := s.nextId + 1 }

/- `append(logline, len)`. -/
def append
    (s : AsyncLogging)
    (logline : Bytes) : Option AsyncLogging := do
  let id ← s.currentBuffer
  if (logline.length : Int) < (s.heap id).avail then
    s.appendCurrent logline
  else
    let s :=
      { s with
        buffers := s.buffers ++ [id]
        currentBuffer := none }
    s.renewCurrent.appendCurrent logline

/- `stop()`, up to the wait for the thread. -/
def stop
    (s : AsyncLogging) : AsyncLogging :=
  { s with running := false }

end AsyncLogging

end V3

end WebServer

------------------------------------------------------------
-- Back End
------------------------------------------------------------

namespace WebServer

namespace V3

namespace AsyncLogging

/- The two spare buffers, made once before the loop. -/
def prepare
    (s : AsyncLogging) : AsyncLogging :=
  { (s.setBuffer s.nextId FixedBuffer.empty).setBuffer
      (s.nextId + 1) FixedBuffer.empty with
    newBuffer1 := some s.nextId
    newBuffer2 := some (s.nextId + 1)
    buffersToWrite := []
    nextId := s.nextId + 2
    pos := .loopHead }

/- `assert(buffer && buffer->length() == 0)`. -/
def isEmptyBuffer
    (s : AsyncLogging)
    (buffer : Option BufferId) : Bool :=
  match buffer with
  | none => false
  | some id => (s.heap id).length == 0

/-
  The critical section after the wait: take all buffers and
  hand in the spare ones.
-/
def collect
    (s : AsyncLogging) : Option AsyncLogging := do
  let id ← s.currentBuffer
  let s :=
    { s with
      currentBuffer := s.newBuffer1
      newBuffer1 := none
      buffersToWrite := s.buffers ++ [id]
      buffers := s.buffersToWrite
      pos := .collected }
  match s.nextBuffer with
  | some _ => some s
  | none =>
      some
        { s with
          nextBuffer := s.newBuffer2
          newBuffer2 := none }

/-
  Take the last written buffer back as a spare one: the
  `back()`, `pop_back()` and `reset()` of a refill. They
  touch variables of this thread only, so an `append` that
  runs between them makes no difference.
-/
def takeBack
    (s : AsyncLogging) :
    Option (BufferId × AsyncLogging) := do
  let id ← s.buffersToWrite.getLast?
  some
    (id,
      { s.setBuffer id FixedBuffer.empty with
        buffersToWrite := s.buffersToWrite.dropLast })

/- The next piece of `threadFunc`. -/
def threadFunc
    (s : AsyncLogging) : Option AsyncLogging :=
  match s.pos with
  | .entry =>
      if s.running then some s.prepare else none
  | .loopHead =>
      if s.running then
        if s.isEmptyBuffer s.newBuffer1 ∧
            s.isEmptyBuffer s.newBuffer2 ∧
            s.buffersToWrite = [] then
          some { s with pos := .beforeLock }
        else
          none
      else
        some { s with pos := .finished }
  | .beforeLock =>
      if s.buffers = [] then
        some { s with pos := .waiting }
      else
        s.collect
  -- a signal, the timeout or a spurious return
  | .waiting => s.collect
  | .collected =>
      if s.buffersToWrite = [] then
        none
      else if s.buffersToWrite.length > 25 then
        some
          { s with
            buffersToWrite := s.buffersToWrite.take 2
            pos := .writing 0 }
      else
        some { s with pos := .writing 0 }
  | .writing i =>
      match s.buffersToWrite[i]? with
      | none => some { s with pos := .resizing }
      | some id =>
          some
            { s with
              output := s.output ++ (s.heap id).data
              pos := .writing (i + 1) }
  | .resizing =>
      if s.buffersToWrite.length > 2 then
        some
          { s with
            buffersToWrite := s.buffersToWrite.take 2
            pos := .refilling1 }
      else
        some { s with pos := .refilling1 }
  | .refilling1 =>
      match s.newBuffer1 with
      | some _ => some { s with pos := .refilling2 }
      | none => do
          let (id, s) ← s.takeBack
          some
            { s with
              newBuffer1 := some id
              pos := .refilling2 }
  | .refilling2 =>
      match s.newBuffer2 with
      | some _ => some { s with pos := .clearing }
      | none => do
          let (id, s) ← s.takeBack
          some
            { s with
              newBuffer2 := some id
              pos := .clearing }
  | .clearing =>
      some { s with buffersToWrite := [], pos := .loopHead }
  | .finished => some s

end AsyncLogging

end V3

end WebServer

------------------------------------------------------------
-- The Logger As A Machine
------------------------------------------------------------

namespace WebServer

namespace V3

/- One step of a front-end thread or of the back end. -/
inductive LogEvent
| append (logline : Bytes)
| stop
| thread
deriving DecidableEq, Repr

namespace AsyncLogging

/-
  Lengths of log lines are `int`. `start()` returns after
  the thread passed its first statement, so `stop` is not
  called before.
-/
def enabled
    (s : AsyncLogging) :
    LogEvent → Prop
| .append logline => logline.length < 2 ^ 31
| .stop => s.pos ≠ .entry
| .thread => s.pos ≠ .finished

def step
    (s : AsyncLogging) :
    LogEvent → Option AsyncLogging
| .append logline => s.append logline
| .stop => some s.stop
| .thread => s.threadFunc

end AsyncLogging

/- The logger as a machine over the steps of its threads. -/
def loggingMachine : Machine AsyncLogging LogEvent where
  enabled := AsyncLogging.enabled
  step := AsyncLogging.step

end V3

end WebServer
