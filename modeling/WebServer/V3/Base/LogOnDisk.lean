import WebServer.V3.Base.LogFile
import WebServer.V3.Base.StopDrains

/-
  The asynchronous logger together with its log file: what a
  crash of the process leaves on the disk.

  `threadFunc` appends the buffers it collected to a
  `LogFile`, flushes it at the end of each iteration, and
  flushes and closes it before it returns. A crash keeps the
  bytes on the file and loses the rest: those still in the
  stream's buffer and in the buffers of the logger.

  Key definitions include:
    * `AsyncLogging.fileCalls`
    * `DiskLog`
    * `diskLogging`
    * `SurvivesCrash`

  Key theorems include:
    * `OnDisk.step`
    * `log_survives_a_crash`
-/

------------------------------------------------------------
-- The Logger On Its File
------------------------------------------------------------

namespace WebServer

namespace V3

/-
  A step of the logger, and what the stream did in it: in
  the writes of an append, in a flush, in the `fclose`.
-/
structure DiskEvent where
  event : LogEvent
  calls : List Transfer
  flushed : Transfer
  closed : Transfer
deriving DecidableEq, Repr

namespace AsyncLogging

/- The calls of the log file in the next step. -/
def fileCalls
    (s : AsyncLogging)
    (e : DiskEvent) : List LogFileCall :=
  match e.event, s.pos with
  | .thread, .writing i =>
      match s.buffersToWrite[i]? with
      | none => []
      | some id =>
          [.append (s.heap id).data e.calls e.flushed]
  | .thread, .clearing => [.flush e.flushed]
  -- the flush behind the loop, and the destructor's
  | .thread, .loopHead =>
      if s.running then
        []
      else
        [.flush e.flushed, .flush e.closed]
  | _, _ => []

end AsyncLogging

/-
  The logger with its record, the file with the lines it was
  given, and the messages of the iterations that ended.
-/
structure DiskLog where
  logger : AsyncLogging × LogRecord
  file : LogFile × List Bytes
  durable : List Bytes

namespace DiskLog

def enabled
    (d : DiskLog)
    (e : DiskEvent) : Prop :=
  recordedLogging.enabled d.logger e.event ∧
    (recordedLogFile.exec d.file
      (d.logger.1.fileCalls e)).isSome

/- The step ends an iteration of the back end. -/
def endsIteration
    (d : DiskLog)
    (e : DiskEvent) : Bool :=
  e.event == .thread && d.logger.1.pos == .clearing

def step
    (d : DiskLog)
    (e : DiskEvent) : Option DiskLog := do
  let logger ← recordedLogging.step d.logger e.event
  let file ←
    recordedLogFile.exec d.file (d.logger.1.fileCalls e)
  some
    { logger := logger
      file := file
      durable :=
        if d.endsIteration e then
          d.logger.2.swapped
        else
          d.durable }

/- A logger just started, and the file it will open. -/
def start : DiskLog where
  logger := loggingStart
  file := (.opened LogFile.defaultFlushEveryN, [])
  durable := []

/- What the disk has. -/
def onFile
    (d : DiskLog) : Bytes :=
  d.file.1.onFile

/- No call of the stream failed so far. -/
def Clear
    (d : DiskLog) : Prop :=
  d.file.1.Clear

end DiskLog

/- The logger on its file as a machine. -/
def diskLogging : Machine DiskLog DiskEvent where
  enabled := DiskLog.enabled
  step := DiskLog.step

instance decidableDiskLogging
    (d : DiskLog)
    (e : DiskEvent) :
    Decidable (diskLogging.enabled d e) :=
  inferInstanceAs
    (Decidable
      (recordedLogging.enabled d.logger e.event ∧
        (recordedLogFile.exec d.file
          (d.logger.1.fileCalls e)).isSome))

/-
  A crash leaves bytes of the swapped messages, in turn and
  once. While no call of the stream failed it leaves a
  prefix of them that has all messages of the iterations
  that ended: between iterations all swapped ones.
-/
structure SurvivesCrash
    (d : DiskLog) : Prop where
  inOrder : d.onFile.Sublist d.logger.2.swapped.flatten
  front : d.Clear → d.onFile <+: d.logger.2.swapped.flatten
  synced : d.Clear → d.durable.flatten <+: d.onFile
  idle :
    d.logger.1.pos = .loopHead ∨
        d.logger.1.pos = .finished →
      d.durable = d.logger.2.swapped

end V3

end WebServer

------------------------------------------------------------
-- Runs Of The File
------------------------------------------------------------

namespace WebServer

namespace V3

namespace LogFile

variable {r r' : LogFile × List Bytes}
variable {cs : List LogFileCall}

/- What calls keep, add, and leave alone. -/
theorem Keeps.run
    (h : r.1.Keeps r.2)
    (hReach : recordedLogFile.Reaches r cs r') :
    r'.1.Keeps r'.2 := by
  refine
    hReach.invariant (I := fun r => r.1.Keeps r.2) ?_ h
  rintro ⟨f, lines⟩ c t hKeeps hEnabled hStep
  rcases Option.some.inj hStep with rfl
  exact hKeeps.call c hEnabled

theorem onFile_run
    (hReach : recordedLogFile.Reaches r cs r') :
    r.1.onFile <+: r'.1.onFile := by
  refine
    hReach.invariant
      (I := fun q => r.1.onFile <+: q.1.onFile)
      ?_ ⟨[], List.append_nil _⟩
  rintro ⟨f, lines⟩ c t hBefore _ hStep
  rcases Option.some.inj hStep with rfl
  exact hBefore.trans (f.onFile_call c)

theorem clear_of_run
    (hReach : recordedLogFile.Reaches r cs r')
    (hClear : r'.1.Clear) :
    r.1.Clear := by
  refine
    hReach.invariant
      (I := fun q => q.1.Clear → r.1.Clear) ?_ id hClear
  rintro ⟨f, lines⟩ c t hBefore _ hStep hAfter
  rcases Option.some.inj hStep with rfl
  exact hBefore (clear_of_call hAfter)

theorem lines_run
    (hReach : recordedLogFile.Reaches r cs r') :
    r'.2 = r.2 ++ cs.flatMap LogFileCall.lines := by
  induction hReach with
  | nil r => exact (List.append_nil _).symm
  | cons _ hStep _ ih =>
      rcases Option.some.inj hStep with rfl
      rw [ih, List.flatMap_cons, List.append_assoc]

/- After a flush that did not fail all is on the file. -/
theorem onFile_flushed
    (h : r.1.Keeps r.2)
    {t : Transfer}
    (hReach : recordedLogFile.Reaches r [.flush t] r')
    (hClear : r'.1.Clear) :
    r'.1.onFile = r'.2.flatten := by
  have hKept := h.run hReach
  cases hReach with
  | cons hEnabled hStep hRest =>
      rcases Option.some.inj hStep with rfl
      cases hRest
      have hEmpty := (h.flush hEnabled).2 hClear
      have hHeld :
          (r.1.flush t).file.fp.held =
            (r.1.flush t).onFile := by
        unfold OutputStream.held
        rw [hEmpty, List.append_nil]
        rfl
      exact hHeld.symm.trans (hKept.whole hClear)

end LogFile

end V3

end WebServer

------------------------------------------------------------
-- One Piece Of The Back End
------------------------------------------------------------

namespace WebServer

namespace V3

namespace AsyncLogging

variable {s t : AsyncLogging}

/- No buffer is collected. -/
def Idle
    (s : AsyncLogging) : Prop :=
  s.pos = .entry ∨ s.pos = .loopHead ∨
    s.pos = .beforeLock ∨ s.pos = .waiting ∨
      s.pos = .finished

/- What the next piece of `threadFunc` writes. -/
def nextBytes
    (s : AsyncLogging) : Bytes :=
  match s.pos with
  | .writing i =>
      match s.buffersToWrite[i]? with
      | none => []
      | some id => (s.heap id).data
  | _ => []

/- `append` and the swap write nothing. -/
theorem append_output
    {logline : Bytes}
    (hAppend : s.append logline = some t) :
    t.output = s.output := by
  have hCurrent :
      ∀ u : AsyncLogging,
        u.appendCurrent logline = some t →
          t.output = u.output := by
    intro u hWrite
    simp only [appendCurrent, Option.bind_eq_bind,
      Option.bind_eq_some_iff, Option.some.injEq] at hWrite
    rcases hWrite with ⟨id, _, b, _, rfl⟩
    rfl
  simp only [append, Option.bind_eq_bind,
    Option.bind_eq_some_iff] at hAppend
  rcases hAppend with ⟨id, _, hAppend⟩
  split at hAppend
  · exact hCurrent s hAppend
  · rw [hCurrent _ hAppend]
    unfold renewCurrent
    split <;> rfl

theorem collect_output
    (hCollect : s.collect = some t) :
    t.output = s.output := by
  simp only [collect, Option.bind_eq_bind,
    Option.bind_eq_some_iff] at hCollect
  rcases hCollect with ⟨id, _, hCollect⟩
  split at hCollect <;>
    rcases Option.some.inj hCollect with rfl <;> rfl

theorem takeBack_output
    {id : BufferId}
    (hTake : s.takeBack = some (id, t)) :
    t.output = s.output := by
  simp only [takeBack, Option.bind_eq_bind,
    Option.bind_eq_some_iff, Option.some.injEq,
    Prod.mk.injEq] at hTake
  rcases hTake with ⟨_, _, _, rfl⟩
  rfl

/-
  A piece of `threadFunc` writes its bytes and no others. No
  buffer is collected behind it only where none was before
  it and it is no swap, or where it ends an iteration.
-/
theorem threadFunc_writes
    (hStep : s.threadFunc = some t) :
    t.output = s.output ++ s.nextBytes ∧
      (t.Idle →
        s.pos = .clearing ∨
          (s.Idle ∧ s.swaps = false)) := by
  unfold threadFunc at hStep
  unfold nextBytes
  cases hPos : s.pos with
  | entry =>
      simp only [hPos] at hStep
      split at hStep
      · rcases Option.some.inj hStep with rfl
        exact
          ⟨(List.append_nil _).symm, fun _ =>
            .inr ⟨.inl hPos, by simp [swaps, hPos]⟩⟩
      · cases hStep
  | loopHead =>
      have hIdle : s.Idle ∧ s.swaps = false :=
        ⟨.inr (.inl hPos), by simp [swaps, hPos]⟩
      simp only [hPos] at hStep
      split at hStep
      · split at hStep
        · rcases Option.some.inj hStep with rfl
          exact
            ⟨(List.append_nil _).symm, fun _ => .inr hIdle⟩
        · cases hStep
      · rcases Option.some.inj hStep with rfl
        exact
          ⟨(List.append_nil _).symm, fun _ => .inr hIdle⟩
  | beforeLock =>
      simp only [hPos] at hStep
      split at hStep
      next hEmpty =>
        rcases Option.some.inj hStep with rfl
        exact
          ⟨(List.append_nil _).symm, fun _ =>
            .inr
              ⟨.inr (.inr (.inl hPos)),
                by simp [swaps, hPos, hEmpty]⟩⟩
      next =>
        refine ⟨by simp [collect_output hStep], ?_⟩
        intro hIdle
        simp [Idle, (collect_frame hStep).2.1] at hIdle
  | waiting =>
      simp only [hPos] at hStep
      refine ⟨by simp [collect_output hStep], ?_⟩
      intro hIdle
      simp [Idle, (collect_frame hStep).2.1] at hIdle
  | collected =>
      simp only [hPos] at hStep
      split at hStep
      · cases hStep
      · split at hStep <;>
          rcases Option.some.inj hStep with rfl <;>
            simp [Idle]
  | writing i =>
      simp only [hPos] at hStep
      split at hStep <;>
        rcases Option.some.inj hStep with rfl <;>
          simp [Idle, *]
  | resizing =>
      simp only [hPos] at hStep
      split at hStep <;>
        rcases Option.some.inj hStep with rfl <;>
          simp [Idle]
  | refilling1 =>
      simp only [hPos] at hStep
      split at hStep
      · rcases Option.some.inj hStep with rfl
        simp [Idle]
      · simp only [Option.bind_eq_bind,
          Option.bind_eq_some_iff, Option.some.injEq]
          at hStep
        rcases hStep with ⟨⟨id, u⟩, hTake, rfl⟩
        simp [Idle, takeBack_output hTake]
  | refilling2 =>
      simp only [hPos] at hStep
      split at hStep
      · rcases Option.some.inj hStep with rfl
        simp [Idle]
      · simp only [Option.bind_eq_bind,
          Option.bind_eq_some_iff, Option.some.injEq]
          at hStep
        rcases hStep with ⟨⟨id, u⟩, hTake, rfl⟩
        simp [Idle, takeBack_output hTake]
  | clearing =>
      simp only [hPos, Option.some.injEq] at hStep
      subst hStep
      exact ⟨(List.append_nil _).symm, fun _ => .inl rfl⟩
  | finished =>
      simp only [hPos, Option.some.injEq] at hStep
      subst hStep
      exact
        ⟨(List.append_nil _).symm, fun hIdle =>
          .inr ⟨hIdle, by simp [swaps, hPos]⟩⟩

/- The lines of the file's calls are the bytes written. -/
theorem lines_fileCalls
    (s : AsyncLogging)
    {e : DiskEvent}
    (hThread : e.event = .thread) :
    ((s.fileCalls e).flatMap LogFileCall.lines).flatten =
      s.nextBytes := by
  unfold fileCalls nextBytes
  rw [hThread]
  cases s.pos with
  | writing i =>
      dsimp only
      cases s.buffersToWrite[i]? <;>
        simp [LogFileCall.lines]
  | loopHead => cases s.running <;> rfl
  | _ => rfl

end AsyncLogging

end V3

end WebServer

------------------------------------------------------------
-- The Disk Over A Run
------------------------------------------------------------

namespace WebServer

namespace V3

/-
  The file has the bytes passed to it, the messages of the
  iterations that ended are on the disk, and between
  iterations these are all the swapped ones.
-/
structure OnDisk
    (d : DiskLog) : Prop where
  messages : Messages d.logger
  keeps : d.file.1.Keeps d.file.2
  written : d.file.2.flatten = d.logger.1.output
  synced : d.Clear → d.durable.flatten <+: d.onFile
  idle :
    d.logger.1.Idle → d.durable = d.logger.2.swapped

variable {d : DiskLog}

theorem start_onDisk :
    OnDisk DiskLog.start where
  messages := loggingStart_messages
  keeps := LogFile.opened_keeps _
  written := rfl
  synced := fun _ => ⟨[], rfl⟩
  idle := fun _ => rfl

/- What was written are the first swapped messages. -/
theorem OnDisk.written_prefix
    (h : OnDisk d) :
    d.file.2.flatten <+: d.logger.2.swapped.flatten := by
  rcases h.messages.inFlight.back with
    ⟨written, hEq, groups, _, hAll⟩
  rw [h.written, hEq, ← hAll, List.flatten_append]
  exact List.prefix_append _ _

theorem OnDisk.survives
    (h : OnDisk d) :
    SurvivesCrash d where
  inOrder :=
    (List.sublist_append_left _ _).trans
      (h.keeps.inOrder.trans h.written_prefix.sublist)
  front := fun hClear => by
    have hHeld := h.keeps.whole hClear
    refine List.IsPrefix.trans ?_ h.written_prefix
    rw [← hHeld]
    exact List.prefix_append _ _
  synced := h.synced
  idle := fun hPos =>
    h.idle (hPos.elim (fun hHead => .inr (.inl hHead))
      fun hEnd => .inr (.inr (.inr (.inr hEnd))))

/- Only the back end touches the file. -/
theorem AsyncLogging.fileCalls_of_front
    (s : AsyncLogging)
    {e : DiskEvent}
    (hFront : e.event ≠ .thread) :
    s.fileCalls e = [] := by
  unfold fileCalls
  split
  next hThread _ => exact absurd hThread hFront
  next hThread _ => exact absurd hThread hFront
  next hThread _ => exact absurd hThread hFront
  next => rfl

/- A step hands the file the bytes the logger passes on. -/
theorem OnDisk.step_written
    (h : OnDisk d)
    {e : DiskEvent}
    {u : AsyncLogging}
    {file : LogFile × List Bytes}
    (hNext : d.logger.1.step e.event = some u)
    (hReach :
      recordedLogFile.Reaches d.file
        (d.logger.1.fileCalls e) file) :
    file.2.flatten = u.output := by
  rw [LogFile.lines_run hReach, List.flatten_append,
    h.written]
  cases hEvent : e.event with
  | append logline =>
      rw [hEvent] at hNext
      rw [d.logger.1.fileCalls_of_front (by simp [hEvent]),
        AsyncLogging.append_output hNext]
      exact List.append_nil _
  | stop =>
      rw [hEvent] at hNext
      rcases Option.some.inj hNext with rfl
      rw [d.logger.1.fileCalls_of_front (by simp [hEvent])]
      exact List.append_nil _
  | thread =>
      rw [hEvent] at hNext
      rw [d.logger.1.lines_fileCalls hEvent,
        (AsyncLogging.threadFunc_writes hNext).1]

/- The flush at the end of an iteration. -/
theorem OnDisk.step_ends
    (h : OnDisk d)
    {e : DiskEvent}
    {file : LogFile × List Bytes}
    (hEnds : d.endsIteration e = true)
    (hReach :
      recordedLogFile.Reaches d.file
        (d.logger.1.fileCalls e) file)
    (hClear : file.1.Clear) :
    file.1.onFile = d.logger.2.swapped.flatten := by
  simp only [DiskLog.endsIteration, Bool.and_eq_true,
    beq_iff_eq] at hEnds
  rcases hEnds with ⟨hThread, hPos⟩
  have hCalls :
      d.logger.1.fileCalls e = [.flush e.flushed] := by
    simp [AsyncLogging.fileCalls, hThread, hPos]
  have hLines := LogFile.lines_run hReach
  rw [hCalls] at hReach hLines
  rw [LogFile.onFile_flushed h.keeps hReach hClear, hLines]
  have hNone : d.logger.1.unwritten = [] := by
    simp [AsyncLogging.unwritten, hPos]
  rw [← h.messages.inFlight.output_eq hNone, ← h.written]
  simp [LogFileCall.lines]

/- Between iterations the iterations that ended are all. -/
theorem OnDisk.step_idle
    (h : OnDisk d)
    {e : DiskEvent}
    {u : AsyncLogging}
    (hNext : d.logger.1.step e.event = some u)
    (hIdle : u.Idle) :
    (if d.endsIteration e then
        d.logger.2.swapped
      else
        d.durable) =
      (d.logger.1.note e.event d.logger.2).swapped := by
  cases hEvent : e.event with
  | append logline =>
      rw [hEvent] at hNext
      have hPos := (AsyncLogging.append_frame hNext).2
      have hBefore : d.logger.1.Idle := by
        simpa only [AsyncLogging.Idle, hPos] using hIdle
      have hNot : d.endsIteration e = false := by
        simp [DiskLog.endsIteration, hEvent]
      rw [hNot]
      exact h.idle hBefore
  | stop =>
      rw [hEvent] at hNext
      rcases Option.some.inj hNext with rfl
      have hNot : d.endsIteration e = false := by
        simp [DiskLog.endsIteration, hEvent]
      rw [hNot]
      exact h.idle hIdle
  | thread =>
      rw [hEvent] at hNext
      rcases (AsyncLogging.threadFunc_writes hNext).2 hIdle
        with hPos | ⟨hBefore, hSwaps⟩
      · have hEnds : d.endsIteration e = true := by
          simp [DiskLog.endsIteration, hEvent, hPos]
        rw [hEnds, AsyncLogging.note_thread_of_not_swaps _ (by
          simp [AsyncLogging.swaps, hPos])]
        rfl
      · have hNot : d.endsIteration e = false := by
          rcases hBefore with hPos | hPos | hPos | hPos | hPos
            <;> simp [DiskLog.endsIteration, hPos]
        rw [hNot,
          AsyncLogging.note_thread_of_not_swaps _ hSwaps]
        exact h.idle hBefore

/- A step within the logger's limits. -/
theorem OnDisk.step
    (d : DiskLog)
    (e : DiskEvent)
    (h : OnDisk d)
    (hEnabled : diskLogging.enabled d e)
    (hLimits : LogsWithinLimits d.logger e.event) :
    ∃ t, diskLogging.step d e = some t ∧ OnDisk t := by
  rcases hEnabled with ⟨hLogger, hFile⟩
  rcases h.messages.step _ _ hLogger hLimits with
    ⟨logger, hStep, hMessages⟩
  rcases Option.isSome_iff_exists.mp hFile with
    ⟨file, hExec⟩
  have hReach := Machine.reaches_of_exec hExec
  have hDisk :
      diskLogging.step d e =
        some
          { logger := logger
            file := file
            durable :=
              if d.endsIteration e then
                d.logger.2.swapped
              else
                d.durable } := by
    simp [diskLogging, DiskLog.step, hStep, hExec]
  refine ⟨_, hDisk, ?_⟩
  rcases Option.map_eq_some_iff.mp hStep with
    ⟨u, hNext, rfl⟩
  refine
    { messages := hMessages
      keeps := h.keeps.run hReach
      written := h.step_written hNext hReach
      synced := ?_
      idle := h.step_idle hNext }
  intro hClear
  change
    (if d.endsIteration e then
        d.logger.2.swapped
      else
        d.durable).flatten <+:
      file.1.onFile
  cases hEnds : d.endsIteration e with
  | true =>
      have hAll := h.step_ends hEnds hReach hClear
      exact ⟨[], by simp [hAll]⟩
  | false =>
      have hBefore := LogFile.clear_of_run hReach hClear
      exact
        (h.synced hBefore).trans (LogFile.onFile_run hReach)

/-
  Over every interleaving of `append` and `stop` calls with
  the pieces of the back end, within the limits of the
  logger and with any answers of the stream: whenever the
  process crashes, the disk has bytes of the messages in the
  order of the calls, each at most once. As long as no call
  of the stream failed these are a prefix of the swapped
  messages and have all those of the iterations that ended,
  and between iterations nothing swapped is missing.
-/
theorem log_survives_a_crash
    (es : List DiskEvent)
    (hLimits :
      diskLogging.StepsMeet
        (fun d e => LogsWithinLimits d.logger e.event)
        DiskLog.start es) :
    diskLogging.Throughout SurvivesCrash
      DiskLog.start es :=
  (Machine.throughout_of_stepsMeet OnDisk.step
      start_onDisk hLimits).mono
    fun _ h => h.survives

/- A step in which the stream takes and writes enough. -/
def DiskEvent.smooth
    (e : LogEvent) : DiskEvent where
  event := e
  calls := [⟨3, 1, 0, false⟩]
  flushed := ⟨0, 3, 0, false⟩
  closed := ⟨0, 3, 0, false⟩

/- At the end of that iteration the disk has all of it. -/
theorem log_survives_a_crash_in_one_iteration :
    (∃ d,
        diskLogging.Reaches DiskLog.start
            (oneIteration.map DiskEvent.smooth) d ∧
          d.onFile = [1, 2, 3]) ∧
      diskLogging.Throughout SurvivesCrash DiskLog.start
        (oneIteration.map DiskEvent.smooth) := by
  refine ⟨?_, log_survives_a_crash _ (by decide +kernel)⟩
  have hRun :
      (diskLogging.exec DiskLog.start
          (oneIteration.map DiskEvent.smooth)).map
          DiskLog.onFile =
        some [1, 2, 3] := by
    decide +kernel
  rcases Machine.reaches_of_exec_map hRun with
    ⟨d, hReach, hEnd⟩
  exact ⟨d, hReach, hEnd⟩

end V3

end WebServer
