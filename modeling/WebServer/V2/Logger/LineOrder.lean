import Mathlib.Data.List.Nodup
import WebServer.V2.Logger.Logger

/-
  The lines that the asynchronous logger writes.

  `write_log` asks whether the queue is full, and acts on
  the answer later: a push may find the queue full by then,
  and its result is ignored; a line put to the file directly
  may overtake lines of its thread that are still queued or
  popped. Before that, a line may be counted to a multiple
  of `m_split_lines`, or be printed behind `m_buf`, and a
  file may not be open. Every line is kept in its place
  exactly when no step does any of these.

  Key definitions include:
    * `recordedLogger`
    * `KeepsLines`
    * `Logger.CountsOn`
    * `Logger.LineFits`
    * `LineMeets`

  Key theorems include:
    * `countLine_isSome_iff`
    * `Kept.step`
    * `lines_kept_iff`
    * `queued_line_lost`
-/

------------------------------------------------------------
-- The Record Of A Run
------------------------------------------------------------

namespace WebServer

namespace V2

/- The lines of one thread. -/
def linesOf
    (thread : Nat)
    (lines : List LogLine) : List LogLine :=
  lines.filter fun line => line.thread == thread

namespace Logger

/- What a step adds to the lines logged so far. -/
def note
    (s : Logger) :
    LoggerStep → List LogLine → List LogLine
| .format thread now level message, logged =>
    logged ++
      ((formatLine s.mBuf now level message).map fun made =>
        s.lineOf thread made.2).toList
| _, logged => logged

/-
  A line can be counted: on the same day to no multiple of
  `m_split_lines`, and on a new one with a file open and a
  name that fits.
-/
def CountsOn
    (s : Logger)
    (now : LogTime) : Prop :=
  (s.mToday = now.tmMday →
      s.mSplitLines ≠ 0 ∧
        ¬ s.mSplitLines ∣ s.mCount + 1) ∧
    (s.mToday ≠ now.tmMday →
      s.mFp.isSome = true ∧
        (s.dirName ++ dateTail now ++ s.logName).length <
          256)

instance (s : Logger) (now : LogTime) :
    Decidable (s.CountsOn now) :=
  inferInstanceAs (Decidable (_ ∧ _))

/-
  A message fits into `m_buf` with its prefix and its end,
  or has no length in `int`, and is then dropped.
-/
def LineFits
    (s : Logger)
    (now : LogTime)
    (level : Int)
    (message : Bytes) : Prop :=
  (logPrefix now level).length + message.length + 2 ≤
      s.mBuf.length ∨
    2 ^ 31 ≤ message.length

instance
    (s : Logger)
    (now : LogTime)
    (level : Int)
    (message : Bytes) :
    Decidable (s.LineFits now level message) :=
  inferInstanceAs (Decidable (_ ∨ _))

/- The lines popped and not written, and those queued. -/
def ahead
    (s : Logger) : List LogLine :=
  s.popped.toList ++ s.mLogQueue.items

/- The lines written, popped and queued, oldest first. -/
def handedOn
    (s : Logger) : List LogLine :=
  s.file ++ s.ahead

end Logger

/- The logger with the lines logged so far. -/
def recordedLogger :
    Machine (Logger × List LogLine) LoggerStep :=
  loggerMachine.recording Logger.note

instance (r : Logger × List LogLine) :
    ∀ e, Decidable (recordedLogger.enabled r e) :=
  fun e => inferInstanceAs (Decidable (r.1.enabled e))

/-
  The lines of each thread are in the file, popped, queued
  or in the thread's own hands: each once, and in the order
  in which the thread logged them.
-/
def KeepsLines
    (r : Logger × List LogLine) : Prop :=
  ∀ thread,
    linesOf thread r.1.handedOn ++
        (r.1.writers thread).line.toList =
      linesOf thread r.2

/-
  A line can be counted and fits; a push finds room; a line
  is put to a file that is open, and one that goes there
  directly has no line of its thread ahead of it.
-/
def LineMeets
    (r : Logger × List LogLine) :
    LoggerStep → Prop
| .countLine _ now _ => r.1.CountsOn now
| .format _ now level message =>
    r.1.LineFits now level message
| .push _ _ => r.1.mLogQueue.full = false
| .writeDirect thread _ =>
    r.1.mFp.isSome = true ∧
      ∀ line ∈ r.1.ahead, line.thread ≠ thread
| .writePopped _ => r.1.mFp.isSome = true
| .checkFull _ _ | .pop => True

end V2

end WebServer

------------------------------------------------------------
-- Counting A Line
------------------------------------------------------------

namespace WebServer

namespace V2

/-
  The count stays below the first multiple of the number of
  lines after which a file is split, and `m_buf` has room
  for every prefix.
-/
structure Logger.Sound
    (s : Logger) : Prop where
  split_int : IsInt32 s.mSplitLines
  count_nonneg : 0 ≤ s.mCount
  count_below :
    s.mCount = 0 ∨ s.mCount < s.mSplitLines.natAbs
  buf_size : 50 ≤ s.mBuf.length
  buf_int : s.mBuf.length < 2 ^ 31

variable {s : Logger}
variable {now : LogTime}

/- Only the counts and the size of `m_buf` matter. -/
theorem Logger.Sound.of_counts
    {t : Logger}
    (h : s.Sound)
    (hSplit : t.mSplitLines = s.mSplitLines)
    (hCount : t.mCount = s.mCount)
    (hLength : t.mBuf.length = s.mBuf.length) :
    t.Sound where
  split_int := hSplit ▸ h.split_int
  count_nonneg := hCount ▸ h.count_nonneg
  count_below := by
    rw [hCount, hSplit]
    exact h.count_below
  buf_size := hLength ▸ h.buf_size
  buf_int := hLength ▸ h.buf_int

theorem nextCount_eq
    (h : s.Sound) :
    s.nextCount = some (s.mCount + 1) := by
  have hInt := h.split_int
  have hBelow := h.count_below
  unfold Logger.nextCount
  unfold IsInt32 at hInt
  rw [if_pos (by omega)]

theorem splits_eq_some_false_iff
    {count splitLines : Int} :
    Logger.splits count splitLines = some false ↔
      splitLines ≠ 0 ∧ ¬ splitLines ∣ count := by
  unfold Logger.splits
  by_cases hZero : splitLines = 0
  · simp [hZero]
  · rw [if_neg hZero, Option.some.injEq,
      decide_eq_false_iff_not, Int.dvd_iff_tmod_eq_zero]
    exact (and_iff_right hZero).symm

/- A new day's file needs an open one and a short name. -/
theorem openNewDay_isSome_iff
    (s : Logger)
    (now : LogTime)
    (opened : Bool) :
    (s.openNewDay now opened).isSome = true ↔
      s.mFp.isSome = true ∧
        (s.dirName ++ dateTail now ++ s.logName).length <
          256 := by
  unfold Logger.openNewDay
  split_ifs with hOpen
  · rw [and_iff_right hOpen]
    unfold printName
    split_ifs with hShort
    · exact iff_of_true rfl hShort
    · exact iff_of_false Bool.noConfusion hShort
  · exact iff_of_false Bool.noConfusion fun h => hOpen h.1

/- It keeps everything but the day, the count and the file. -/
theorem openNewDay_some
    {t : Logger}
    {opened : Bool}
    (hNew : s.openNewDay now opened = some t) :
    ∃ mFp,
      t =
        { s with
          mToday := now.tmMday
          mCount := 0
          mFp := mFp } := by
  unfold Logger.openNewDay at hNew
  split_ifs at hNew
  rcases Option.bind_eq_some_iff.mp hNew with
    ⟨newLog, _, hEq⟩
  exact ⟨fopen newLog opened, (Option.some.inj hEq).symm⟩

/- What a line that can be counted comes to. -/
theorem countLine_eq
    (h : s.Sound)
    (hOn : s.CountsOn now)
    (thread : Nat)
    (opened : Bool) :
    ∃ count mToday mFp,
      s.countLine thread now opened =
          some
            { s.setWriter thread (.counted now) with
              mCount := count
              mToday := mToday
              mFp := mFp } ∧
        0 ≤ count ∧
          (count = 0 ∨ count < s.mSplitLines.natAbs) := by
  have hNonneg := h.count_nonneg
  unfold Logger.countLine
  rw [nextCount_eq h]
  show ∃ _ _ _, Option.bind (some _) _ = _ ∧ _
  rw [Option.bind_some]
  by_cases hDay : s.mToday = now.tmMday
  · have hSplit := hOn.1 hDay
    refine
      ⟨s.mCount + 1, s.mToday, s.mFp, ?_, by omega, ?_⟩
    · rw [if_neg (not_not.mpr hDay),
        splits_eq_some_false_iff.mpr hSplit]
      rfl
    · right
      -- a count of that number would be a multiple of it
      have hNot :
          s.mCount + 1 ≠ s.mSplitLines.natAbs := by
        intro hEq
        apply hSplit.2
        rw [hEq]
        exact Int.dvd_natAbs_self
      have hPos := Int.natAbs_pos.mpr hSplit.1
      rcases h.count_below with hZero | hBelow
      · omega
      · omega
  · rw [if_pos hDay]
    have hNew :=
      (openNewDay_isSome_iff
        ({ s with mCount := s.mCount + 1 }.setWriter thread
          (.counted now))
        now opened).mpr (hOn.2 hDay)
    rcases Option.isSome_iff_exists.mp hNew with
      ⟨t, hOpen⟩
    rcases openNewDay_some hOpen with ⟨mFp, rfl⟩
    exact
      ⟨0, now.tmMday, mFp, hOpen, Int.le_refl 0, .inl rfl⟩

/- A line that cannot be counted is the end of the run. -/
theorem countLine_isSome_iff
    (h : s.Sound)
    (thread : Nat)
    (opened : Bool) :
    (s.countLine thread now opened).isSome = true ↔
      s.CountsOn now := by
  constructor
  · intro hSome
    unfold Logger.countLine at hSome
    rw [nextCount_eq h] at hSome
    change (Option.bind (some _) _).isSome = true at hSome
    rw [Option.bind_some] at hSome
    constructor
    · intro hDay
      rw [if_neg (not_not.mpr hDay)] at hSome
      apply splits_eq_some_false_iff.mp
      cases hSplits :
          Logger.splits (s.mCount + 1) s.mSplitLines with
      | none =>
          rw [hSplits] at hSome
          cases hSome
      | some split =>
          rw [hSplits] at hSome
          cases split with
          | true => cases hSome
          | false => rfl
    · intro hDay
      rw [if_pos hDay] at hSome
      have hNew := (openNewDay_isSome_iff _ _ _).mp hSome
      exact hNew
  · intro hOn
    rcases countLine_eq h hOn thread opened with
      ⟨_, _, _, hCount, _⟩
    rw [hCount]
    rfl

end V2

end WebServer

------------------------------------------------------------
-- The Invariant
------------------------------------------------------------

namespace WebServer

namespace V2

/-
  Each line in a thread's hands is its own, and no line is
  logged twice.
-/
structure Kept
    (cap : Nat)
    (r : Logger × List LogLine) : Prop where
  sound : r.1.Sound
  queue :
    r.1.mLogQueue.Represents cap r.1.mLogQueue.items
  own :
    ∀ thread line,
      (r.1.writers thread).line = some line →
        line.thread = thread
  once : r.2.Nodup
  numbered : ∀ line ∈ r.2, line.number < r.1.calls
  keeps : KeepsLines r

variable {cap : Nat}
variable {s t : Logger}
variable {logged logged' : List LogLine}
variable {thread : Nat}
variable {line : LogLine}

theorem linesOf_append
    (thread : Nat)
    (front back : List LogLine) :
    linesOf thread (front ++ back) =
      linesOf thread front ++ linesOf thread back :=
  List.filter_append ..

theorem linesOf_own
    (hOwn : line.thread = thread) :
    linesOf thread [line] = [line] := by
  simp [linesOf, hOwn]

theorem linesOf_other
    (hOther : line.thread ≠ thread) :
    linesOf thread [line] = [] := by
  simp [linesOf, hOther]

/- A step of one thread leaves the others' lines alone. -/
theorem keepsLines_of_thread
    (hKeeps : KeepsLines (s, logged))
    (thread : Nat)
    (hOthers :
      ∀ other, other ≠ thread →
        t.writers other = s.writers other ∧
          linesOf other t.handedOn =
              linesOf other s.handedOn ∧
            linesOf other logged' = linesOf other logged)
    (hOwn :
      linesOf thread t.handedOn ++
          (t.writers thread).line.toList =
        linesOf thread logged') :
    KeepsLines (t, logged') := by
  intro other
  by_cases hSame : other = thread
  · subst hSame
    exact hOwn
  · rcases hOthers other hSame with
      ⟨hWriter, hHanded, hLogged⟩
    rw [hWriter, hHanded, hLogged]
    exact hKeeps other

@[simp] theorem setWriter_self
    (pos : WriterPos) :
    (s.setWriter thread pos).writers thread = pos :=
  Function.update_self ..

@[simp] theorem setWriter_other
    {other : Nat}
    (hOther : other ≠ thread)
    (pos : WriterPos) :
    (s.setWriter thread pos).writers other =
      s.writers other :=
  Function.update_of_ne hOther ..

/- A thread moved with a line of its own, or none. -/
theorem own_setWriter
    (hOwn :
      ∀ other line,
        (s.writers other).line = some line →
          line.thread = other)
    {pos : WriterPos}
    (hPos : ∀ line ∈ pos.line, line.thread = thread) :
    ∀ other line,
      ((s.setWriter thread pos).writers other).line =
          some line →
        line.thread = other := by
  intro other line hLine
  by_cases hSame : other = thread
  · subst hSame
    rw [setWriter_self] at hLine
    exact hPos line hLine
  · rw [setWriter_other hSame] at hLine
    exact hOwn other line hLine

/- A thread that moves with its line keeps all lines. -/
theorem Kept.move
    (h : Kept cap (s, logged))
    {pos : WriterPos}
    (hLine : pos.line = (s.writers thread).line) :
    Kept cap (s.setWriter thread pos, logged) where
  sound := h.sound.of_counts rfl rfl rfl
  queue := h.queue
  own := by
    refine own_setWriter h.own ?_
    intro line hHas
    exact h.own thread line (hLine.symm.trans hHas)
  once := h.once
  numbered := h.numbered
  keeps := by
    refine keepsLines_of_thread h.keeps thread ?_ ?_
    · intro other hOther
      exact ⟨setWriter_other hOther pos, rfl, rfl⟩
    · rw [setWriter_self, hLine]
      exact h.keeps thread

/- The counts and the open file are no line. -/
theorem Kept.recount
    (h : Kept cap (s, logged))
    {count : Int}
    (hNonneg : 0 ≤ count)
    (hBelow :
      count = 0 ∨ count < s.mSplitLines.natAbs)
    (mToday : Nat)
    (mFp : Option Bytes) :
    Kept cap
      ({ s with
          mCount := count
          mToday := mToday
          mFp := mFp },
        logged) where
  sound :=
    { split_int := h.sound.split_int
      count_nonneg := hNonneg
      count_below := hBelow
      buf_size := h.sound.buf_size
      buf_int := h.sound.buf_int }
  queue := h.queue
  own := h.own
  once := h.once
  numbered := h.numbered
  keeps := h.keeps

end V2

end WebServer

------------------------------------------------------------
-- Steps That Keep The Lines
------------------------------------------------------------

namespace WebServer

namespace V2

variable {cap : Nat}
variable {s : Logger}
variable {logged : List LogLine}
variable {thread : Nat}
variable {line : LogLine}

/- A line that is counted is not made yet. -/
theorem Kept.countLine
    (h : Kept cap (s, logged))
    (hIdle : s.writers thread = .idle)
    {now : LogTime}
    (hOn : s.CountsOn now)
    (opened : Bool) :
    ∃ t, s.countLine thread now opened = some t ∧
      Kept cap (t, logged) := by
  rcases countLine_eq h.sound hOn thread opened with
    ⟨count, mToday, mFp, hCount, hNonneg, hBelow⟩
  have hMoved :
      Kept cap
        (s.setWriter thread (.counted now), logged) :=
    h.move (by rw [hIdle]; rfl)
  exact ⟨_, hCount, hMoved.recount hNonneg hBelow _ _⟩

/- A new line is in its thread's hands. -/
theorem Kept.formatted
    (h : Kept cap (s, logged))
    {now : LogTime}
    (hCounted : s.writers thread = .counted now)
    {mBuf : Bytes}
    (hLength : mBuf.length = s.mBuf.length)
    (logStr : Bytes) :
    Kept cap
      ({ s with mBuf := mBuf, calls := s.calls + 1 }.setWriter
          thread (.formatted (s.lineOf thread logStr)),
        logged ++ [s.lineOf thread logStr]) := by
  have hFresh : s.lineOf thread logStr ∉ logged := by
    intro hOld
    have hLt := h.numbered _ hOld
    simp [Logger.lineOf] at hLt
  refine
    { sound := h.sound.of_counts rfl rfl hLength
      queue := h.queue
      own := ?_
      once := ?_
      numbered := ?_
      keeps := ?_ }
  · refine own_setWriter h.own ?_
    intro line hLine
    rcases Option.some.inj hLine with rfl
    rfl
  · exact
      List.Nodup.append h.once (List.nodup_singleton _)
        (by simpa using hFresh)
  · intro line hLine
    rcases List.mem_append.mp hLine with hOld | hNew
    · exact Nat.lt_succ_of_lt (h.numbered line hOld)
    · rcases List.mem_singleton.mp hNew with rfl
      exact Nat.lt_succ_self s.calls
  · refine keepsLines_of_thread h.keeps thread ?_ ?_
    · intro other hOther
      refine ⟨setWriter_other hOther _, rfl, ?_⟩
      rw [linesOf_append,
        linesOf_other (Ne.symm hOther), List.append_nil]
    · have hOld := h.keeps thread
      simp only [hCounted, WriterPos.line,
        Option.toList_none, List.append_nil] at hOld
      have hNew :
          linesOf thread [s.lineOf thread logStr] =
            [s.lineOf thread logStr] :=
        linesOf_own rfl
      rw [linesOf_append, ← hOld, hNew]
      simp [WriterPos.line, Logger.handedOn, Logger.ahead,
        Logger.setWriter]

/- A line is made only where it can be printed. -/
theorem isSome_of_format
    {now : LogTime}
    {level : Int}
    {message : Bytes}
    (hSome :
      (s.format thread now level message).isSome = true) :
    (formatLine s.mBuf now level message).isSome = true := by
  unfold Logger.format at hSome
  cases hMade : formatLine s.mBuf now level message with
  | none =>
      rw [hMade] at hSome
      cases hSome
  | some made => rfl

/- A line that fits is made, and noted as logged. -/
theorem Kept.format
    (h : Kept cap (s, logged))
    {now : LogTime}
    (hCounted : s.writers thread = .counted now)
    {level : Int}
    {message : Bytes}
    (hFits : s.LineFits now level message) :
    ∃ t, s.format thread now level message = some t ∧
      Kept cap
        (t,
          s.note (.format thread now level message)
            logged) := by
  have hSome :=
    (formatLine_isSome_iff h.sound.buf_size h.sound.buf_int
      now level message).mpr hFits
  rcases Option.isSome_iff_exists.mp hSome with
    ⟨⟨mBuf, logStr⟩, hFormat⟩
  have hLength :=
    length_of_formatLine h.sound.buf_size h.sound.buf_int
      hFormat
  refine
    ⟨_, by
      simp only [Logger.format, hFormat,
        Option.bind_eq_bind, Option.bind_some]
      rfl, ?_⟩
  simp only [Logger.note, hFormat, Option.map_some,
    Option.toList_some]
  exact h.formatted hCounted hLength logStr

/- The answer of `full` decides on the way, not the line. -/
theorem Kept.checkFull
    (h : Kept cap (s, logged))
    (hAt : s.writers thread = .formatted line) :
    Kept cap (s.checkFull thread line, logged) := by
  unfold Logger.checkFull
  split
  · exact h.move (by rw [hAt]; rfl)
  · exact h.move (by rw [hAt]; rfl)

/- A line handed on behind all others of its thread. -/
theorem Kept.handOn
    (h : Kept cap (s, logged))
    {t : Logger}
    (hLine : (s.writers thread).line = some line)
    (hSound : t.Sound)
    (hQueue :
      t.mLogQueue.Represents cap t.mLogQueue.items)
    (hCalls : t.calls = s.calls)
    (hWriters :
      t.writers = (s.setWriter thread .idle).writers)
    (hOthers :
      ∀ other, other ≠ thread →
        linesOf other t.handedOn =
          linesOf other s.handedOn)
    (hOwn :
      linesOf thread t.handedOn =
        linesOf thread s.handedOn ++ [line]) :
    Kept cap (t, logged) where
  sound := hSound
  queue := hQueue
  own := by
    simp only [hWriters]
    exact own_setWriter h.own fun _ hNone => by cases hNone
  once := h.once
  numbered := by
    simp only [hCalls]
    exact h.numbered
  keeps := by
    refine keepsLines_of_thread h.keeps thread ?_ ?_
    · intro other hOther
      rw [hWriters]
      exact
        ⟨setWriter_other hOther _, hOthers other hOther, rfl⟩
    · have hOld := h.keeps thread
      simp only [hLine, Option.toList_some] at hOld
      rw [hWriters, setWriter_self, hOwn, ← hOld]
      simp [WriterPos.line]

/- A push with room puts the line behind the queue. -/
theorem Kept.push
    (h : Kept cap (s, logged))
    (hAt : s.writers thread = .pushing line)
    (hRoom : s.mLogQueue.full = false) :
    ∃ t, s.push thread line = some t ∧
      Kept cap (t, logged) := by
  have hOwn : line.thread = thread :=
    h.own thread line (by simp only [hAt]; rfl)
  have hLess : s.mLogQueue.items.length < cap := by
    simpa [h.queue.full_eq] using hRoom
  rcases h.queue.push hLess line with ⟨q, hPush, hNext⟩
  refine
    ⟨_, by
      simp only [Logger.push, hPush, Option.bind_eq_bind,
        Option.bind_some]
      rfl, ?_⟩
  have hHanded :
      ({ s with mLogQueue := q }.setWriter thread
          .idle).handedOn =
        s.handedOn ++ [line] := by
    simp [Logger.handedOn, Logger.ahead, Logger.setWriter,
      hNext.items]
  refine
    h.handOn (by rw [hAt]; rfl)
      (h.sound.of_counts rfl rfl rfl)
      (hNext.items.symm ▸ hNext) rfl rfl ?_ ?_
  · intro other hOther
    rw [hHanded, linesOf_append,
      linesOf_other (by rw [hOwn]; exact Ne.symm hOther),
      List.append_nil]
  · rw [hHanded, linesOf_append, linesOf_own hOwn]

/- `fputs` needs an open file. -/
theorem isSome_of_fputs
    (hSome : (s.fputs line).isSome = true) :
    s.mFp.isSome = true := by
  unfold Logger.fputs at hSome
  split_ifs at hSome with hOpen
  · exact hOpen
  · cases hSome

theorem isSome_of_writeDirect
    (hSome : (s.writeDirect thread line).isSome = true) :
    s.mFp.isSome = true := by
  unfold Logger.writeDirect at hSome
  rw [Option.isSome_map] at hSome
  exact isSome_of_fputs hSome

theorem isSome_of_writePopped
    (hSome : (s.writePopped line).isSome = true) :
    s.mFp.isSome = true := by
  unfold Logger.writePopped at hSome
  rw [Option.isSome_map] at hSome
  exact isSome_of_fputs hSome

theorem writeDirect_eq
    (hOpen : s.mFp.isSome = true) :
    s.writeDirect thread line =
      some
        ({ s with file := s.file ++ [line] }.setWriter
          thread .idle) := by
  unfold Logger.writeDirect Logger.fputs
  rw [if_pos hOpen]
  rfl

theorem writePopped_eq
    (hOpen : s.mFp.isSome = true) :
    s.writePopped line =
      some
        { s with
          file := s.file ++ [line]
          popped := none } := by
  unfold Logger.writePopped Logger.fputs
  rw [if_pos hOpen]
  rfl

/- A direct write with no line of the thread ahead. -/
theorem Kept.writeDirect
    (h : Kept cap (s, logged))
    (hAt : s.writers thread = .writing line)
    (hFree : ∀ l ∈ s.ahead, l.thread ≠ thread) :
    Kept cap
      ({ s with file := s.file ++ [line] }.setWriter thread
          .idle,
        logged) := by
  have hOwn : line.thread = thread :=
    h.own thread line (by simp only [hAt]; rfl)
  have hAhead : linesOf thread s.ahead = [] := by
    apply List.filter_eq_nil_iff.mpr
    intro l hMem
    simpa using hFree l hMem
  have hHanded :
      ({ s with file := s.file ++ [line] }.setWriter thread
          .idle).handedOn =
        s.file ++ [line] ++ s.ahead :=
    rfl
  refine
    h.handOn (by rw [hAt]; rfl)
      (h.sound.of_counts rfl rfl rfl)
      h.queue rfl rfl ?_ ?_
  · intro other hOther
    rw [hHanded, linesOf_append, linesOf_append,
      linesOf_other (by rw [hOwn]; exact Ne.symm hOther),
      List.append_nil, ← linesOf_append]
    rfl
  · rw [hHanded, linesOf_append, linesOf_append,
      linesOf_own hOwn, Logger.handedOn, linesOf_append,
      hAhead, List.append_nil, List.append_nil]

/- The flush thread takes the oldest line. -/
theorem Kept.pop
    (h : Kept cap (s, logged))
    (hNone : s.popped = none)
    (hSome : 0 < s.mLogQueue.mSize) :
    ∃ t, s.pop = some t ∧ Kept cap (t, logged) := by
  have hSize := h.queue.size
  cases hItems : s.mLogQueue.items with
  | nil =>
      rw [hItems] at hSize
      simp only [List.length_nil] at hSize
      omega
  | cons line rest =>
      have hQueue := h.queue
      simp only [hItems] at hQueue
      rcases hQueue.pop with ⟨q, hPop, hNext⟩
      refine
        ⟨_, by
          simp only [Logger.pop, hPop, Option.bind_eq_bind,
            Option.bind_some]
          rfl, ?_⟩
      refine
        { sound := h.sound.of_counts rfl rfl rfl
          queue := hNext.items.symm ▸ hNext
          own := h.own
          once := h.once
          numbered := h.numbered
          keeps := ?_ }
      intro thread
      have hOld := h.keeps thread
      simpa [Logger.handedOn, Logger.ahead, hNone, hItems,
        hNext.items] using hOld

/- The flush thread writes the line that it took. -/
theorem Kept.writePopped
    (h : Kept cap (s, logged))
    (hPopped : s.popped = some line) :
    Kept cap
      ({ s with
          file := s.file ++ [line]
          popped := none },
        logged) where
  sound := h.sound.of_counts rfl rfl rfl
  queue := h.queue
  own := h.own
  once := h.once
  numbered := h.numbered
  keeps := by
    intro thread
    have hOld := h.keeps thread
    simpa [Logger.handedOn, Logger.ahead, hPopped]
      using hOld

end V2

end WebServer

------------------------------------------------------------
-- Steps That Lose A Line Or Its Place
------------------------------------------------------------

namespace WebServer

namespace V2

variable {cap : Nat}
variable {s t : Logger}
variable {logged : List LogLine}
variable {thread : Nat}
variable {line : LogLine}

/- A push that finds the queue full drops its line. -/
theorem Kept.push_full
    (h : Kept cap (s, logged))
    (hAt : s.writers thread = .pushing line)
    (hFull : s.mLogQueue.full = true) :
    ∃ t, s.push thread line = some t ∧
      ¬ KeepsLines (t, logged) := by
  have hLength : cap ≤ s.mLogQueue.items.length := by
    simpa [h.queue.full_eq] using hFull
  have hPush := h.queue.push_full hLength line
  refine
    ⟨s.setWriter thread .idle, by
      simp only [Logger.push, hPush, Option.bind_eq_bind,
        Option.bind_some], ?_⟩
  intro hKeeps
  have hOld := h.keeps thread
  have hNew := hKeeps thread
  have hSame :
      (s.setWriter thread .idle).handedOn = s.handedOn :=
    rfl
  simp only [hAt, WriterPos.line, Option.toList_some] at hOld
  simp only [setWriter_self, hSame, WriterPos.line,
    Option.toList_none, List.append_nil] at hNew
  have hLengths := congrArg List.length (hOld.trans hNew.symm)
  simp at hLengths

/- A direct write overtakes the lines of its thread. -/
theorem Kept.writeDirect_overtakes
    (h : Kept cap (s, logged))
    (hAt : s.writers thread = .writing line)
    {l : LogLine}
    (hMem : l ∈ s.ahead)
    (hThread : l.thread = thread) :
    ¬ KeepsLines
      ({ s with file := s.file ++ [line] }.setWriter thread
          .idle,
        logged) := by
  intro hKeeps
  have hOwn : line.thread = thread :=
    h.own thread line (by simp only [hAt]; rfl)
  have hOld := h.keeps thread
  have hNew := hKeeps thread
  have hHanded :
      ({ s with file := s.file ++ [line] }.setWriter thread
          .idle).handedOn =
        s.file ++ ([line] ++ s.ahead) := by
    simp [Logger.handedOn, Logger.ahead, Logger.setWriter]
  have hIdle :
      ({ s with file := s.file ++ [line] }.setWriter thread
          .idle).writers thread =
        .idle :=
    setWriter_self _
  simp only [hAt, WriterPos.line, Option.toList_some,
    Logger.handedOn, linesOf_append, List.append_assoc]
    at hOld
  simp only [hIdle, hHanded, WriterPos.line,
    Option.toList_none, List.append_nil, linesOf_append,
    linesOf_own hOwn] at hNew
  have hSwapped :
      linesOf thread s.ahead ++ [line] =
        [line] ++ linesOf thread s.ahead :=
    List.append_cancel_left (hOld.trans hNew.symm)
  have hOnce : (linesOf thread logged).Nodup :=
    h.once.filter _
  rw [← hOld] at hOnce
  have hTail := hOnce.of_append_right
  have hNot : line ∉ linesOf thread s.ahead := by
    rw [hSwapped] at hTail
    exact (List.nodup_cons.mp hTail).1
  have hIn : l ∈ linesOf thread s.ahead :=
    List.mem_filter.mpr ⟨hMem, by simpa using hThread⟩
  cases hAhead : linesOf thread s.ahead with
  | nil =>
      rw [hAhead] at hIn
      exact List.not_mem_nil hIn
  | cons first rest =>
      rw [hAhead] at hSwapped hNot
      have hFirst := (List.cons.inj hSwapped).1
      exact hNot (hFirst ▸ List.mem_cons_self)

/- A step that keeps room and order keeps the lines. -/
theorem Kept.step
    (r : Logger × List LogLine)
    (e : LoggerStep)
    (h : Kept cap r)
    (hEnabled : recordedLogger.enabled r e)
    (hMeets : LineMeets r e) :
    ∃ t, recordedLogger.step r e = some t ∧
      Kept cap t := by
  rcases r with ⟨s, logged⟩
  cases e with
  | countLine thread now opened =>
      rcases h.countLine hEnabled hMeets opened with
        ⟨t, hCount, hNext⟩
      exact
        ⟨_, Machine.recording_step_some hCount, hNext⟩
  | format thread now level message =>
      rcases h.format hEnabled hMeets with
        ⟨t, hFormat, hNext⟩
      exact
        ⟨_, Machine.recording_step_some hFormat, hNext⟩
  | checkFull thread line =>
      exact ⟨_, rfl, h.checkFull hEnabled⟩
  | push thread line =>
      rcases h.push hEnabled hMeets with ⟨t, hPush, hNext⟩
      exact
        ⟨_, Machine.recording_step_some hPush, hNext⟩
  | writeDirect thread line =>
      exact
        ⟨_,
          Machine.recording_step_some
            (writeDirect_eq hMeets.1),
          h.writeDirect hEnabled hMeets.2⟩
  | pop =>
      rcases h.pop hEnabled.1 hEnabled.2 with
        ⟨t, hPop, hNext⟩
      exact ⟨_, Machine.recording_step_some hPop, hNext⟩
  | writePopped line =>
      exact
        ⟨_,
          Machine.recording_step_some
            (writePopped_eq hMeets),
          h.writePopped hEnabled⟩

/- A step that gives no state is not taken. -/
theorem not_step_of_isSome
    {e : LoggerStep}
    {t : Logger × List LogLine}
    (hNone : ¬ (s.step e).isSome = true) :
    recordedLogger.step (s, logged) e ≠ some t := by
  intro hStep
  rcases Option.map_eq_some_iff.mp hStep with
    ⟨u, hNext, _⟩
  exact hNone (Option.isSome_iff_exists.mpr ⟨u, hNext⟩)

/- Any other step loses a line or its place. -/
theorem Kept.step_not
    (r : Logger × List LogLine)
    (e : LoggerStep)
    (h : Kept cap r)
    (hEnabled : recordedLogger.enabled r e)
    (hNot : ¬ LineMeets r e)
    (t : Logger × List LogLine)
    (hStep : recordedLogger.step r e = some t) :
    ¬ KeepsLines t := by
  rcases r with ⟨s, logged⟩
  cases e with
  | checkFull thread line => exact absurd trivial hNot
  | pop => exact absurd trivial hNot
  | countLine thread now opened =>
      refine absurd hStep (not_step_of_isSome ?_)
      intro hSome
      apply hNot
      exact
        (countLine_isSome_iff h.sound thread opened).mp
          hSome
  | format thread now level message =>
      refine absurd hStep (not_step_of_isSome ?_)
      intro hSome
      apply hNot
      exact
        (formatLine_isSome_iff h.sound.buf_size
            h.sound.buf_int now level message).mp
          (isSome_of_format hSome)
  | writePopped line =>
      refine absurd hStep (not_step_of_isSome ?_)
      intro hSome
      apply hNot
      exact isSome_of_writePopped hSome
  | push thread line =>
      have hFull : s.mLogQueue.full = true := by
        rw [← Bool.not_eq_false]
        exact hNot
      rcases h.push_full hEnabled hFull with
        ⟨u, hPush, hLost⟩
      have hNext :
          recordedLogger.step (s, logged)
              (.push thread line) =
            some (u, logged) :=
        Machine.recording_step_some hPush
      rcases Option.some.inj (hNext.symm.trans hStep) with
        rfl
      exact hLost
  | writeDirect thread line =>
      by_cases hOpen : s.mFp.isSome = true
      · have hNext :
            recordedLogger.step (s, logged)
                (.writeDirect thread line) =
              some _ :=
          Machine.recording_step_some (writeDirect_eq hOpen)
        rcases Option.some.inj (hNext.symm.trans hStep) with
          rfl
        have hAhead :
            ∃ l ∈ s.ahead, l.thread = thread := by
          apply Classical.byContradiction
          intro hNone
          refine hNot ⟨hOpen, fun l hMem hThread => ?_⟩
          exact hNone ⟨l, hMem, hThread⟩
        rcases hAhead with ⟨l, hMem, hThread⟩
        exact h.writeDirect_overtakes hEnabled hMem hThread
      · refine absurd hStep (not_step_of_isSome ?_)
        intro hSome
        apply hOpen
        exact isSome_of_writeDirect hSome

end V2

end WebServer

------------------------------------------------------------
-- All Interleavings
------------------------------------------------------------

namespace WebServer

namespace V2

variable {s : Logger}

/- A new logger has no line. -/
theorem init_kept
    {fileName : Bytes}
    {maxQueueSize splitLines logBufSize : Int}
    {now : LogTime}
    {opened : Bool}
    {cells : Nat → LogLine}
    (hQueue : maxQueueSize < 2 ^ 31)
    (hSplit : IsInt32 splitLines)
    (hBuf : 50 ≤ logBufSize ∧ logBufSize < 2 ^ 31)
    (hInit :
      Logger.init fileName maxQueueSize splitLines
          logBufSize now opened cells =
        some s) :
    Kept maxQueueSize.toNat (s, []) := by
  unfold Logger.init at hInit
  split at hInit
  next hPos =>
    obtain ⟨cap, hCap⟩ :=
      Int.eq_ofNat_of_zero_le (Int.le_of_lt hPos.1)
    subst hCap
    have hOne : 1 ≤ cap := by omega
    rcases BlockQueue.new_represents hOne hQueue cells with
      ⟨q, hNew, hEmpty⟩
    simp only [hNew, Option.bind_eq_bind, Option.bind_some]
      at hInit
    rcases Option.bind_eq_some_iff.mp hInit with
      ⟨names, _, hNames⟩
    rcases Option.bind_eq_some_iff.mp hNames with
      ⟨logFullName, _, hEq⟩
    rcases Option.some.inj hEq with rfl
    exact
      { sound :=
          { split_int := hSplit
            count_nonneg := Int.le_refl 0
            count_below := .inl rfl
            buf_size := by
              rw [List.length_replicate]
              omega
            buf_int := by
              rw [List.length_replicate]
              omega }
        queue := hEmpty.items.symm ▸ hEmpty
        own := fun _ _ hNone => by cases hNone
        once := List.nodup_nil
        numbered := fun _ hMem =>
          absurd hMem List.not_mem_nil
        keeps := fun thread => by
          simp [Logger.handedOn, Logger.ahead,
            hEmpty.items, WriterPos.line, linesOf] }
  next => cases hInit

/-
  Over every interleaving of threads in `write_log` with the
  flush thread, each line is written once and in its
  thread's order, or still on its way there, exactly when
    * no line is counted to a multiple of `m_split_lines`,
      and a new day finds a file open and a name that fits,
    * every line fits into `m_buf`,
    * every push finds room,
    * a line is put to a file that is open, and none is put
      there directly while a line of its thread is queued or
      popped.
-/
theorem lines_kept_iff
    {fileName : Bytes}
    {maxQueueSize splitLines logBufSize : Int}
    {now : LogTime}
    {opened : Bool}
    {cells : Nat → LogLine}
    (hQueue : maxQueueSize < 2 ^ 31)
    (hSplit : IsInt32 splitLines)
    (hBuf : 50 ≤ logBufSize ∧ logBufSize < 2 ^ 31)
    (hInit :
      Logger.init fileName maxQueueSize splitLines
          logBufSize now opened cells =
        some s)
    (es : List LoggerStep) :
    recordedLogger.Throughout KeepsLines (s, []) es ↔
      recordedLogger.StepsMeet LineMeets (s, []) es :=
  Machine.throughout_iff_stepsMeet
    (fun _ h => h.keeps) Kept.step Kept.step_not
      (init_kept hQueue hSplit hBuf hInit)

/-
  A logger with a queue of one place and a small buffer that
  opened its first file.
-/
def onePlace : Option Logger :=
  Logger.init (utf8 "test.log") 1 5000000 64 exampleTime
    true fun _ => ⟨0, 0, []⟩

/- What a thread's first call makes of an empty message. -/
def plainLine
    (thread number : Nat) : LogLine where
  thread := thread
  number := number
  text := logPrefix exampleTime 0 ++ [10]

/- A call up to its line. -/
def callOf
    (thread number : Nat) : List LoggerStep :=
  [.countLine thread exampleTime true,
    .format thread exampleTime 0 [],
    .checkFull thread (plainLine thread number)]

/- One line through the queue, one past it. -/
def queueThenFile : List LoggerStep :=
  callOf 0 0 ++ [.push 0 (plainLine 0 0)] ++
    callOf 1 1 ++ [.writeDirect 1 (plainLine 1 1)] ++
    [.pop, .writePopped (plainLine 0 0)]

theorem lines_kept_queue_then_file :
    ∃ s, onePlace = some s ∧
      (recordedLogger.Throughout KeepsLines (s, [])
          queueThenFile ↔
        recordedLogger.StepsMeet LineMeets (s, [])
          queueThenFile) :=
  ⟨_, rfl,
    @lines_kept_iff _ (utf8 "test.log") 1 5000000 64
      exampleTime true (fun _ => ⟨0, 0, []⟩) (by decide)
      (by decide) (by decide) rfl queueThenFile⟩

/- Two threads see the same free place. -/
def bothPush : List LoggerStep :=
  callOf 0 0 ++ callOf 1 1 ++
    [.push 0 (plainLine 0 0), .push 1 (plainLine 1 1),
      .pop, .writePopped (plainLine 0 0)]

/-
  Where the run leads from a logger with one place: the
  file, the lines ahead, those logged, and the second
  thread.
-/
def endsWith
    (es : List LoggerStep) :
    Option
      ((List LogLine × List LogLine × List LogLine) ×
        WriterPos) :=
  onePlace.bind fun s =>
    (recordedLogger.exec (s, []) es).map fun r =>
      ((r.1.file, r.1.ahead, r.2), r.1.writers 1)

/-
  Two threads that both saw the free place are done, and the
  line of the second is in neither the file nor the queue.
-/
theorem queued_line_lost :
    ¬ ∀ fileName (maxQueueSize splitLines logBufSize : Int)
        now opened cells s es r,
      Logger.init fileName maxQueueSize splitLines
          logBufSize now opened cells = some s →
        recordedLogger.Reaches (s, []) es r →
          KeepsLines r := by
  intro hClaim
  have hEnds :
      endsWith bothPush =
        some
          (([plainLine 0 0], [],
              [plainLine 0 0, plainLine 1 1]),
            .idle) := by
    decide +kernel
  rcases Option.bind_eq_some_iff.mp hEnds with
    ⟨s, hInit, hRun⟩
  rcases Machine.reaches_of_exec_map hRun with
    ⟨r, hReach, hEnd⟩
  simp only [Prod.mk.injEq] at hEnd
  rcases hEnd with ⟨⟨hFile, hAhead, hLogged⟩, hIdle⟩
  have hKept :=
    hClaim _ 1 5000000 64 _ _ _ s bothPush r hInit hReach 1
  rw [Logger.handedOn, hFile, hAhead, hLogged, hIdle] at hKept
  exact absurd hKept (by decide +kernel)

end V2

end WebServer
