import Mathlib.Logic.Function.Basic
import WebServer.Library.Machine
import WebServer.V2.Logger.BlockQueue
import WebServer.V2.Logger.WriteLog

/-
  The asynchronous logger of version 2.0 (`logger/logger.h`,
  `logger/logger.cpp`).

  Any number of threads call `write_log`; one thread runs
  `async_write_log`. A step is one critical section of the
  logger's mutex or of the queue's: a line is counted, and a
  new file opened where the day or the count asks for one;
  the line is printed into `m_buf`; it is queued or put to
  the file. `file` is what was put to `m_fp`, whichever file
  that was. A line is what `log_str` holds, with the number
  of its call.

  The format of a new file's name has one conversion more
  than arguments where the count asks for the file, which is
  undefined, so that step has no next state.

  Key definitions include:
    * `Logger`
    * `Logger.init`
    * `Logger.countLine`
    * `Logger.format`
    * `Logger.checkFull`
    * `Logger.push`
    * `loggerMachine`
-/

------------------------------------------------------------
-- Names Of The Files
------------------------------------------------------------

namespace WebServer

namespace V2

/- `"%d_%02d_%02d_"`. -/
def dateText
    (now : LogTime) : Bytes :=
  decimal (now.tmYear + 1900) ++ utf8 "_" ++
    zeroPadded 2 (now.tmMon + 1) ++ utf8 "_" ++
    zeroPadded 2 now.tmMday ++ utf8 "_"

/- The date, as `snprintf` cuts it to `tail`. -/
def dateTail
    (now : LogTime) : Bytes :=
  (dateText now).take 15

/-
  A name printed into `log_full_name` or `new_log`: the
  array has 256 bytes, and the limit given is 355.
-/
def printName
    (name : Bytes) : Option Bytes :=
  if name.length < 256 then some name else none

/- What is behind the last slash. -/
def baseName
    (fileName : Bytes) : Bytes :=
  (fileName.reverse.takeWhile (· != 47)).reverse

/-
  `dir_name` and `log_name`, arrays of 128 zeros that a name
  without a slash leaves as they are.
-/
def splitName
    (fileName : Bytes) : Option (Bytes × Bytes) :=
  let logName := baseName fileName
  let dirName :=
    fileName.take (fileName.length - logName.length)
  if dirName = [] then
    some ([], [])
  else if dirName.length < 128 ∧ logName.length < 128 then
    some (dirName, logName)
  else
    none

/- `fopen`: the file that is open then, or `NULL`. -/
def fopen
    (name : Bytes)
    (opened : Bool) : Option Bytes :=
  if opened then some name else none

end V2

end WebServer

------------------------------------------------------------
-- Logger State
------------------------------------------------------------

namespace WebServer

namespace V2

/- One call of `write_log`, and the text it formatted. -/
structure LogLine where
  thread : Nat
  number : Nat
  text : Bytes
deriving DecidableEq, Repr

/-
  Where a thread stands in `write_log`: outside, with its
  line counted, with its line formatted, or decided on the
  queue or on the file.
-/
inductive WriterPos
| idle
| counted (now : LogTime)
| formatted (line : LogLine)
| pushing (line : LogLine)
| writing (line : LogLine)
deriving DecidableEq

/- The line that a thread has not handed on. -/
def WriterPos.line :
    WriterPos → Option LogLine
| .idle | .counted _ => none
| .formatted line | .pushing line | .writing line =>
    some line

/-
  Members, the threads in `write_log`, and `sinlge_log` of
  the flush thread while it is popped and not yet written.
  `m_log_buf_size` is the length of `m_buf`.
-/
structure Logger where
  dirName : Bytes
  logName : Bytes
  mSplitLines : Int
  mCount : Int
  mToday : Nat
  mFp : Option Bytes
  mBuf : Bytes
  mLogQueue : BlockQueue LogLine
  mIsAsync : Bool
  file : List LogLine
  calls : Nat
  writers : Nat → WriterPos
  popped : Option LogLine

namespace Logger

/-
  `init` with a queue: the logger is asynchronous exactly
  for a size of at least one.
-/
def init
    (fileName : Bytes)
    (maxQueueSize splitLines logBufSize : Int)
    (now : LogTime)
    (opened : Bool)
    (cells : Nat → LogLine) : Option Logger :=
  if 1 ≤ maxQueueSize ∧ 0 ≤ logBufSize then do
    let mLogQueue ← BlockQueue.new maxQueueSize cells
    let names ← splitName fileName
    let logFullName ←
      printName (dateText now ++ baseName fileName)
    some
      { dirName := names.1
        logName := names.2
        mSplitLines := splitLines
        mCount := 0
        mToday := now.tmMday
        mFp := fopen logFullName opened
        mBuf := List.replicate logBufSize.toNat 0
        mLogQueue := mLogQueue
        mIsAsync := true
        file := []
        calls := 0
        writers := fun _ => .idle
        popped := none }
  else
    none

/- Move one thread of `write_log`. -/
def setWriter
    (s : Logger)
    (thread : Nat)
    (pos : WriterPos) : Logger :=
  { s with
    writers := Function.update s.writers thread pos }

/- `++m_count`, on `long long`. -/
def nextCount
    (s : Logger) : Option Int :=
  if s.mCount + 1 < 2 ^ 63 then
    some (s.mCount + 1)
  else
    none

/- `m_count % m_split_lines == 0`. -/
def splits
    (count splitLines : Int) : Option Bool :=
  if splitLines = 0 then
    none
  else
    some (decide (count.tmod splitLines = 0))

/- The file of a new day; `fclose` needs an open one. -/
def openNewDay
    (s : Logger)
    (now : LogTime)
    (opened : Bool) : Option Logger :=
  if s.mFp.isSome then do
    let newLog ←
      printName (s.dirName ++ dateTail now ++ s.logName)
    some
      { s with
        mToday := now.tmMday
        mCount := 0
        mFp := fopen newLog opened }
  else
    none

/-
  The first critical section of `write_log`. Where the count
  comes to a multiple of `m_split_lines` on the same day,
  `snprintf` is to print four values and is given three.
-/
def countLine
    (s : Logger)
    (thread : Nat)
    (now : LogTime)
    (opened : Bool) : Option Logger := do
  let count ← s.nextCount
  let counted :=
    { s with mCount := count }.setWriter thread
      (.counted now)
  if s.mToday ≠ now.tmMday then
    counted.openNewDay now opened
  else if ← splits count s.mSplitLines then
    none
  else
    some counted

/- The line that the call at hand makes of `log_str`. -/
def lineOf
    (s : Logger)
    (thread : Nat)
    (logStr : Bytes) : LogLine where
  thread := thread
  number := s.calls
  text := logStr

/-
  The second critical section of `write_log`, given the text
  that the format makes.
-/
def format
    (s : Logger)
    (thread : Nat)
    (now : LogTime)
    (level : Int)
    (message : Bytes) : Option Logger := do
  let (mBuf, logStr) ← formatLine s.mBuf now level message
  some
    ({ s with mBuf := mBuf, calls := s.calls + 1 }.setWriter
      thread (.formatted (s.lineOf thread logStr)))

/- `m_is_async && !m_log_queue->full()`. -/
def checkFull
    (s : Logger)
    (thread : Nat)
    (line : LogLine) : Logger :=
  if s.mIsAsync && !s.mLogQueue.full then
    s.setWriter thread (.pushing line)
  else
    s.setWriter thread (.writing line)

/- `m_log_queue->push(log_str)`, its result ignored. -/
def push
    (s : Logger)
    (thread : Nat)
    (line : LogLine) : Option Logger := do
  let (mLogQueue, _) ← s.mLogQueue.push line
  some
    ({ s with mLogQueue := mLogQueue }.setWriter thread .idle)

/- `fputs(line, m_fp)`, where a file is open. -/
def fputs
    (s : Logger)
    (line : LogLine) : Option Logger :=
  if s.mFp.isSome then
    some { s with file := s.file ++ [line] }
  else
    none

/- `fputs(log_str.c_str(), m_fp)` in `write_log`. -/
def writeDirect
    (s : Logger)
    (thread : Nat)
    (line : LogLine) : Option Logger :=
  (s.fputs line).map fun s => s.setWriter thread .idle

/- `m_log_queue->pop(sinlge_log)`. -/
def pop
    (s : Logger) : Option Logger := do
  let (mLogQueue, line) ← s.mLogQueue.pop
  some
    { s with
      mLogQueue := mLogQueue
      popped := some line }

/- `fputs(sinlge_log.c_str(), m_fp)`. -/
def writePopped
    (s : Logger)
    (line : LogLine) : Option Logger :=
  (s.fputs line).map fun s => { s with popped := none }

end Logger

end V2

end WebServer

------------------------------------------------------------
-- The Logger As A Machine
------------------------------------------------------------

namespace WebServer

namespace V2

/-
  One critical section of a thread. A call reads the clock
  before its first one, and may find a new file not opened.
-/
inductive LoggerStep
| countLine
    (thread : Nat)
    (now : LogTime)
    (opened : Bool)
| format
    (thread : Nat)
    (now : LogTime)
    (level : Int)
    (message : Bytes)
| checkFull (thread : Nat) (line : LogLine)
| push (thread : Nat) (line : LogLine)
| writeDirect (thread : Nat) (line : LogLine)
| pop
| writePopped (line : LogLine)

namespace Logger

/- Each thread goes on from where it stands. -/
def enabled
    (s : Logger) :
    LoggerStep → Prop
| .countLine thread _ _ => s.writers thread = .idle
| .format thread now _ _ =>
    s.writers thread = .counted now
| .checkFull thread line =>
    s.writers thread = .formatted line
| .push thread line => s.writers thread = .pushing line
| .writeDirect thread line =>
    s.writers thread = .writing line
| .pop => s.popped = none ∧ 0 < s.mLogQueue.mSize
| .writePopped line => s.popped = some line

def step
    (s : Logger) :
    LoggerStep → Option Logger
| .countLine thread now opened =>
    s.countLine thread now opened
| .format thread now level message =>
    s.format thread now level message
| .checkFull thread line => some (s.checkFull thread line)
| .push thread line => s.push thread line
| .writeDirect thread line => s.writeDirect thread line
| .pop => s.pop
| .writePopped line => s.writePopped line

instance (s : Logger) :
    ∀ e, Decidable (s.enabled e)
| .countLine thread _ _ =>
    inferInstanceAs (Decidable (s.writers thread = .idle))
| .format thread now _ _ =>
    inferInstanceAs
      (Decidable (s.writers thread = .counted now))
| .checkFull thread line =>
    inferInstanceAs
      (Decidable (s.writers thread = .formatted line))
| .push thread line =>
    inferInstanceAs
      (Decidable (s.writers thread = .pushing line))
| .writeDirect thread line =>
    inferInstanceAs
      (Decidable (s.writers thread = .writing line))
| .pop =>
    inferInstanceAs
      (Decidable (s.popped = none ∧ 0 < s.mLogQueue.mSize))
| .writePopped line =>
    inferInstanceAs (Decidable (s.popped = some line))

end Logger

/- The logger as a machine over the steps of its threads. -/
def loggerMachine : Machine Logger LoggerStep where
  enabled := Logger.enabled
  step := Logger.step

end V2

end WebServer
