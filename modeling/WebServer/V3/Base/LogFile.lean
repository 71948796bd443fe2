import WebServer.Common
import WebServer.Library.Machine
import WebServer.Library.OutputStream

/-
  The log file of version 3.0
  (`base/FileUtil.h`, `base/FileUtil.cpp`,
  `base/LogFile.h`, `base/LogFile.cpp`).

  `AppendFile` writes through a buffered stream and offers
  again what a call did not take; `LogFile` counts the
  appends and flushes after every `flushEveryN` of them.
  The file opened, and what each call of the stream did is
  data. A call beyond those listed is refused.

  Key definitions include:
    * `AppendFile`
    * `AppendFile.append`
    * `LogFile`
    * `LogFile.appendUnlocked`
    * `recordedLogFile`
    * `LogFile.Keeps`

  Key theorems include:
    * `LogFile.Keeps.call`
    * `log_file_keeps_order`
-/

------------------------------------------------------------
-- The File
------------------------------------------------------------

namespace WebServer

namespace V3

/- `fp_`, and the messages printed to `stderr`. -/
structure AppendFile where
  fp : OutputStream Byte
  stderr : List Bytes
deriving DecidableEq, Repr

namespace AppendFile

/- The message of an `append` that gives up. -/
def appendFailed : Bytes :=
  utf8 "AppendFile::append() failed !\n"

/- `write(logline, len)`. -/
def write
    (f : AppendFile)
    (logline : Bytes)
    (t : Transfer) : Nat × AppendFile :=
  let (n, fp) := f.fp.fwrite logline t
  (n, { f with fp := fp })

/- `ferror` is printed before the loop is left. -/
def giveUp
    (f : AppendFile) : AppendFile :=
  if f.fp.error then
    { f with stderr := f.stderr ++ [appendFailed] }
  else
    f

/- The loop of `append`; `remain` are the bytes not taken. -/
def appendRemain
    (f : AppendFile)
    (remain : Bytes)
    (calls : List Transfer) : AppendFile :=
  if remain.isEmpty then
    f
  else
    match calls with
    | [] => (f.write remain .refused).2.giveUp
    | t :: calls =>
        let (x, f) := f.write remain t
        if x = 0 then
          f.giveUp
        else
          f.appendRemain (remain.drop x) calls

/- `append(logline, len)`. -/
def append
    (f : AppendFile)
    (logline : Bytes)
    (calls : List Transfer) : AppendFile :=
  let (n, f) := f.write logline (calls.headD .refused)
  f.appendRemain (logline.drop n) calls.tail

/- `flush()`. -/
def flush
    (f : AppendFile)
    (t : Transfer) : AppendFile :=
  { f with fp := f.fp.fflush t }

/- Possible answers to the writes of `append`. -/
def Answers : Bytes → List Transfer → Prop
| _, [] => True
| remain, t :: calls =>
    remain = [] ∨
      (t.OfWrite remain.length ∧
        Answers (remain.drop t.taken) calls)

end AppendFile

/- `flushEveryN_`, `count_` and `file_`. -/
structure LogFile where
  flushEveryN : Int
  count : Nat
  file : AppendFile
deriving DecidableEq, Repr

namespace LogFile

/- The default of the constructor's second argument. -/
def defaultFlushEveryN : Int := 1024

/-
  The constructor. The file is opened to append, and what
  it had before is not counted.
-/
def opened
    (flushEveryN : Int) : LogFile where
  flushEveryN := flushEveryN
  count := 0
  file := { fp := .opened, stderr := [] }

/-
  `append_unlocked(logline, len)`: the writes of the append
  and the flush, if it comes.
-/
def appendUnlocked
    (f : LogFile)
    (logline : Bytes)
    (calls : List Transfer)
    (flushed : Transfer) : LogFile :=
  let f :=
    { f with
      file := f.file.append logline calls
      count := f.count + 1 }
  if f.flushEveryN ≤ f.count then
    { f with count := 0, file := f.file.flush flushed }
  else
    f

/- `flush()`. -/
def flush
    (f : LogFile)
    (t : Transfer) : LogFile :=
  { f with file := f.file.flush t }

/- The bytes put on the file since it was opened. -/
def onFile
    (f : LogFile) : Bytes :=
  f.file.fp.onFile

/- The stream never failed. -/
def Clear
    (f : LogFile) : Prop :=
  f.file.fp.error = false

end LogFile

/- A call of `append` or of `flush`. -/
inductive LogFileCall
| append
    (logline : Bytes)
    (calls : List Transfer)
    (flushed : Transfer)
| flush (flushed : Transfer)
deriving DecidableEq, Repr

namespace LogFile

/- The answers of the stream are possible. -/
def enabled
    (f : LogFile) :
    LogFileCall → Prop
| .append logline calls flushed =>
    AppendFile.Answers logline calls ∧
      flushed.OfFlush
        (f.file.append logline calls).fp.buffered.length
| .flush flushed =>
    flushed.OfFlush f.file.fp.buffered.length

/- One call. -/
def call
    (f : LogFile) :
    LogFileCall → LogFile
| .append logline calls flushed =>
    f.appendUnlocked logline calls flushed
| .flush flushed => f.flush flushed

end LogFile

instance decidableAnswers :
    ∀ remain calls,
      Decidable (AppendFile.Answers remain calls)
| _, [] => isTrue trivial
| remain, t :: calls =>
    have := decidableAnswers (remain.drop t.taken) calls
    inferInstanceAs
      (Decidable
        (remain = [] ∨
          (t.OfWrite remain.length ∧
            AppendFile.Answers (remain.drop t.taken)
              calls)))

instance decidableLogFileEnabled
    (f : LogFile) :
    ∀ c, Decidable (f.enabled c)
| .append logline calls flushed =>
    inferInstanceAs
      (Decidable
        (AppendFile.Answers logline calls ∧
          flushed.OfFlush
            (f.file.append
              logline calls).fp.buffered.length))
| .flush flushed =>
    inferInstanceAs
      (Decidable
        (flushed.OfFlush f.file.fp.buffered.length))

/- The lines that a call adds. -/
def LogFileCall.lines :
    LogFileCall → List Bytes
| .append logline _ _ => [logline]
| .flush _ => []

/- The log file as a machine over its calls. -/
def logFileMachine : Machine LogFile LogFileCall where
  enabled := LogFile.enabled
  step f c := some (f.call c)

/- The log file with the lines appended so far. -/
def recordedLogFile :
    Machine (LogFile × List Bytes) LogFileCall :=
  logFileMachine.recording fun _ c lines => lines ++ c.lines

instance decidableRecordedLogFile
    (r : LogFile × List Bytes) :
    ∀ c, Decidable (recordedLogFile.enabled r c) :=
  fun c => inferInstanceAs (Decidable (r.1.enabled c))

end V3

end WebServer

------------------------------------------------------------
-- One Append To The File
------------------------------------------------------------

namespace WebServer

namespace V3

namespace AppendFile

variable (f : AppendFile)

@[simp] theorem giveUp_fp :
    f.giveUp.fp = f.fp := by
  unfold giveUp
  split <;> rfl

@[simp] theorem write_fst
    (logline : Bytes)
    (t : Transfer) :
    (f.write logline t).1 = (f.fp.fwrite logline t).1 := rfl

/- The cases of the loop. -/
theorem appendRemain_nil
    (calls : List Transfer) :
    f.appendRemain [] calls = f := by
  unfold appendRemain
  rfl

theorem appendRemain_none
    {remain : Bytes}
    (hSome : remain ≠ []) :
    f.appendRemain remain [] =
      (f.write remain .refused).2.giveUp := by
  unfold appendRemain
  simp [hSome]

theorem appendRemain_cons
    {remain : Bytes}
    (hSome : remain ≠ [])
    (t : Transfer)
    (calls : List Transfer) :
    f.appendRemain remain (t :: calls) =
      if (f.write remain t).1 = 0 then
        (f.write remain t).2.giveUp
      else
        (f.write remain t).2.appendRemain
          (remain.drop (f.write remain t).1) calls := by
  rw [appendRemain]
  simp [hSome]

/-
  A property of the stream that every write keeps is kept by
  the loop.
-/
theorem appendRemain_invariant
    {P : Bytes → OutputStream Byte → Prop}
    (hWrite :
      ∀ remain fp t,
        P remain fp →
          P (remain.drop (fp.fwrite remain t).1)
            (fp.fwrite remain t).2)
    (remain : Bytes)
    (calls : List Transfer)
    (hStart : P remain f.fp) :
    ∃ left, P left (f.appendRemain remain calls).fp := by
  induction calls generalizing f remain with
  | nil =>
      by_cases hSome : remain = []
      · subst hSome
        exact ⟨[], by rw [appendRemain_nil]; exact hStart⟩
      · rw [appendRemain_none f hSome, giveUp_fp]
        exact ⟨_, hWrite remain f.fp .refused hStart⟩
  | cons t calls ih =>
      by_cases hSome : remain = []
      · subst hSome
        exact ⟨[], by rw [appendRemain_nil]; exact hStart⟩
      · rw [appendRemain_cons f hSome]
        have hNext := hWrite remain f.fp t hStart
        split
        · rw [giveUp_fp]
          exact ⟨_, hNext⟩
        · exact ih (f.write remain t).2 _ hNext

/- The same for a whole append. -/
theorem append_invariant
    {P : Bytes → OutputStream Byte → Prop}
    (hWrite :
      ∀ remain fp t,
        P remain fp →
          P (remain.drop (fp.fwrite remain t).1)
            (fp.fwrite remain t).2)
    (logline : Bytes)
    (calls : List Transfer)
    (hStart : P logline f.fp) :
    ∃ left, P left (f.append logline calls).fp :=
  appendRemain_invariant _ hWrite _ calls.tail
    (hWrite logline f.fp (calls.headD .refused) hStart)

/- What is on the file stays. -/
theorem onFile_append
    (logline : Bytes)
    (calls : List Transfer) :
    f.fp.onFile <+: (f.append logline calls).fp.onFile := by
  rcases
    f.append_invariant
      (P := fun _ fp => f.fp.onFile <+: fp.onFile)
      (fun remain fp t h =>
        h.trans (fp.onFile_fwrite remain t))
      logline calls ⟨[], List.append_nil _⟩ with
    ⟨_, hKept⟩
  exact hKept

/- The line is added at most once, behind what is held. -/
theorem held_append_sublist
    (logline : Bytes)
    (calls : List Transfer) :
    (f.append logline calls).fp.held.Sublist
      (f.fp.held ++ logline) := by
  rcases
    f.append_invariant
      (P := fun remain fp =>
        (fp.held ++ remain).Sublist (f.fp.held ++ logline))
      (fun remain fp t h => by
        refine List.Sublist.trans ?_ h
        have hWrite :=
          (fp.held_fwrite_sublist remain t).append_right
            (remain.drop (fp.fwrite remain t).1)
        rw [List.append_assoc, List.take_append_drop]
          at hWrite
        exact hWrite)
      logline calls (List.Sublist.refl _) with
    ⟨left, hKept⟩
  exact (List.sublist_append_left _ left).trans hKept

/- A failure stays recorded. -/
theorem error_of_appendRemain
    {remain : Bytes}
    {calls : List Transfer}
    (hClear :
      (f.appendRemain remain calls).fp.error = false) :
    f.fp.error = false := by
  rcases
    f.appendRemain_invariant
      (P := fun _ fp =>
        fp.error = false → f.fp.error = false)
      (fun remain fp t h hWrite =>
        h (fp.error_of_fwrite remain t hWrite))
      remain calls id with
    ⟨_, hKept⟩
  exact hKept hClear

theorem error_of_append
    (logline : Bytes)
    (calls : List Transfer)
    (hClear : (f.append logline calls).fp.error = false) :
    f.fp.error = false :=
  f.fp.error_of_fwrite _ _
    (error_of_appendRemain
      (f.write logline (calls.headD .refused)).2 hClear)

variable {f}

/-
  Without a failure the first write takes the whole line,
  and nothing is printed.
-/
theorem append_of_clear
    {logline : Bytes}
    {calls : List Transfer}
    (hAnswers : Answers logline calls)
    (hClear : (f.append logline calls).fp.error = false) :
    f.fp.error = false ∧
      (f.append logline calls).fp.held =
        f.fp.held ++ logline ∧
      (f.append logline calls).fp.buffered <:+
        f.fp.buffered ++ logline ∧
      (f.append logline calls).stderr = f.stderr := by
  have hFirst :
      logline = [] ∨
        (calls.headD .refused).OfWrite logline.length := by
    cases calls with
    | nil => exact .inr (Transfer.refused_ofWrite _)
    | cons t calls => exact hAnswers.imp_right And.left
  have hWrite :
      (f.fp.fwrite logline
        (calls.headD .refused)).2.error = false :=
    error_of_appendRemain
      (f.write logline (calls.headD .refused)).2 hClear
  rcases OutputStream.fwrite_of_clear hFirst hWrite with
    ⟨hTaken, hHeld, hBuffered⟩
  have hAll :
      f.append logline calls =
        (f.write logline (calls.headD .refused)).2 := by
    change
      (f.write logline (calls.headD .refused)).2.appendRemain
          (logline.drop
            (f.fp.fwrite logline
              (calls.headD .refused)).1)
          calls.tail =
        _
    rw [hTaken, List.drop_length, appendRemain_nil]
  rw [hAll]
  exact
    ⟨f.fp.error_of_fwrite _ _ hWrite, hHeld, hBuffered, rfl⟩

end AppendFile

end V3

end WebServer

------------------------------------------------------------
-- The Lines Of A Log File
------------------------------------------------------------

namespace WebServer

namespace V3

/-
  What the file and the buffer hold of the lines appended.
  Whatever fails, they hold bytes of the lines in turn and
  none twice. Without a failure they hold them all, nothing
  is printed, and what is still in the buffer comes from the
  appends counted since the last full count.
-/
structure LogFile.Keeps
    (f : LogFile)
    (lines : List Bytes) : Prop where
  inOrder : f.file.fp.held.Sublist lines.flatten
  whole : f.Clear → f.file.fp.held = lines.flatten
  quiet : f.Clear → f.file.stderr = []
  recent :
    f.Clear →
      f.file.fp.buffered <:+
        (lines.drop (lines.length - f.count)).flatten

/- The count stays below the number it is compared with. -/
def LogFile.Counted
    (f : LogFile) : Prop :=
  0 < f.flushEveryN → f.count < f.flushEveryN

namespace LogFile

variable {f : LogFile}
variable {lines : List Bytes}

/- Before the first call there is nothing. -/
theorem opened_keeps
    (flushEveryN : Int) :
    (opened flushEveryN).Keeps [] where
  inOrder := .refl _
  whole := fun _ => rfl
  quiet := fun _ => rfl
  recent := fun _ => ⟨[], rfl⟩

/- A flush moves what is held and adds nothing. -/
theorem Keeps.flush
    (h : f.Keeps lines)
    {t : Transfer}
    (hAnswer : t.OfFlush f.file.fp.buffered.length) :
    (f.flush t).Keeps lines ∧
      ((f.flush t).Clear →
        (f.flush t).file.fp.buffered = []) := by
  have hBefore : (f.flush t).Clear → f.Clear := fun hClear =>
    ((f.file.fp.error_transfer [] t).mp hClear).1
  have hEmpty :
      (f.flush t).Clear →
        (f.flush t).file.fp.buffered = [] := fun hClear =>
    (OutputStream.fflush_of_clear hAnswer hClear).2
  refine ⟨?_, hEmpty⟩
  refine
    { inOrder := ?_
      whole := ?_
      quiet := fun hClear => h.quiet (hBefore hClear)
      recent := ?_ }
  · have hMoved := f.file.fp.held_transfer_sublist [] t
    rw [List.take_nil, List.append_nil] at hMoved
    exact hMoved.trans h.inOrder
  · intro hClear
    rw [← h.whole (hBefore hClear)]
    exact (OutputStream.fflush_of_clear hAnswer hClear).1
  · intro hClear
    rw [hEmpty hClear]
    exact ⟨_, List.append_nil _⟩

/- The line added, before the count is compared. -/
theorem Keeps.addLine
    (h : f.Keeps lines)
    {logline : Bytes}
    {calls : List Transfer}
    (hAnswers : AppendFile.Answers logline calls) :
    ({ f with
        file := f.file.append logline calls
        count := f.count + 1 } : LogFile).Keeps
      (lines ++ [logline]) := by
  have hFlat :
      (lines ++ [logline]).flatten =
        lines.flatten ++ logline := by
    simp
  refine
    { inOrder := ?_
      whole := ?_
      quiet := ?_
      recent := ?_ }
  · rw [hFlat]
    exact
      (f.file.held_append_sublist logline calls).trans
        (h.inOrder.append_right logline)
  · intro hClear
    rcases AppendFile.append_of_clear hAnswers hClear with
      ⟨hBefore, hHeld, _, _⟩
    rw [hFlat, ← h.whole hBefore]
    exact hHeld
  · intro hClear
    rcases AppendFile.append_of_clear hAnswers hClear with
      ⟨hBefore, _, _, hStderr⟩
    rw [← h.quiet hBefore]
    exact hStderr
  · intro hClear
    rcases AppendFile.append_of_clear hAnswers hClear with
      ⟨hBefore, _, hBuffered, _⟩
    have hLines :
        ((lines ++ [logline]).drop
            ((lines ++ [logline]).length -
              (f.count + 1))).flatten =
          (lines.drop (lines.length - f.count)).flatten ++
            logline := by
      rw [List.length_append, List.length_singleton,
        Nat.add_sub_add_right,
        List.drop_append_of_le_length (Nat.sub_le _ _)]
      simp
    rw [hLines]
    rcases h.recent hBefore with ⟨older, hOlder⟩
    rw [← hOlder, List.append_assoc]
    exact hBuffered.trans (List.suffix_append older _)

/- A flush and a count that starts again. -/
theorem Keeps.restart
    (h : f.Keeps lines)
    {t : Transfer}
    (hAnswer : t.OfFlush f.file.fp.buffered.length) :
    ({ f with count := 0, file := f.file.flush t } :
        LogFile).Keeps
      lines := by
  rcases h.flush hAnswer with ⟨hFlushed, hEmpty⟩
  refine
    { inOrder := hFlushed.inOrder
      whole := hFlushed.whole
      quiet := hFlushed.quiet
      recent := ?_ }
  intro hClear
  have hNone := hEmpty hClear
  change (f.file.flush t).fp.buffered = [] at hNone
  change (f.file.flush t).fp.buffered <:+ _
  rw [hNone]
  exact ⟨_, List.append_nil _⟩

/- An append keeps what the file and the buffer hold. -/
theorem Keeps.appendUnlocked
    (h : f.Keeps lines)
    {logline : Bytes}
    {calls : List Transfer}
    {flushed : Transfer}
    (hAnswers : AppendFile.Answers logline calls)
    (hFlushed :
      flushed.OfFlush
        (f.file.append
          logline calls).fp.buffered.length) :
    (f.appendUnlocked logline calls flushed).Keeps
      (lines ++ [logline]) := by
  have hAdded := h.addLine hAnswers
  unfold LogFile.appendUnlocked
  dsimp only
  split
  · exact hAdded.restart hFlushed
  · exact hAdded

/- Every call keeps it. -/
theorem Keeps.call
    (h : f.Keeps lines)
    (c : LogFileCall)
    (hEnabled : f.enabled c) :
    (f.call c).Keeps (lines ++ c.lines) := by
  cases c with
  | append logline calls flushed =>
      exact h.appendUnlocked hEnabled.1 hEnabled.2
  | flush flushed =>
      rw [LogFileCall.lines, List.append_nil]
      exact (h.flush hEnabled).1

/- A call takes nothing off the file. -/
theorem onFile_call
    (f : LogFile)
    (c : LogFileCall) :
    f.onFile <+: (f.call c).onFile := by
  cases c with
  | append logline calls flushed =>
      have hAppend := f.file.onFile_append logline calls
      unfold LogFile.call LogFile.appendUnlocked
      dsimp only
      split
      · exact
          hAppend.trans
            (OutputStream.onFile_transfer _ [] flushed)
      · exact hAppend
  | flush flushed =>
      exact OutputStream.onFile_transfer _ [] flushed

/- After a failure no call finds the stream clear. -/
theorem clear_of_call
    {c : LogFileCall}
    (hClear : (f.call c).Clear) :
    f.Clear := by
  cases c with
  | append logline calls flushed =>
      apply f.file.error_of_append logline calls
      unfold LogFile.call LogFile.appendUnlocked at hClear
      dsimp only at hClear
      split at hClear
      · exact
          ((OutputStream.error_transfer _ [] flushed).mp
            hClear).1
      · exact hClear
  | flush flushed =>
      exact
        ((f.file.fp.error_transfer [] flushed).mp hClear).1

/- The count after a call. -/
theorem Counted.call
    (h : f.Counted)
    (c : LogFileCall) :
    (f.call c).Counted := by
  cases c with
  | append logline calls flushed =>
      unfold LogFile.call LogFile.appendUnlocked
      dsimp only
      split
      next => exact id
      next hBelow =>
        intro _
        exact Int.not_le.mp hBelow
  | flush flushed => exact h

end LogFile

/-
  Over every sequence of appends and flushes, with any
  answers of the stream to the writes and flushes they make,
  the file and the buffer keep the lines: in turn and once
  whatever fails, and whole until something does. Between
  two flushes fewer than `flushEveryN` lines wait.
-/
theorem log_file_keeps_order
    (flushEveryN : Int)
    (cs : List LogFileCall) :
    recordedLogFile.Throughout
      (fun r => r.1.Keeps r.2 ∧ r.1.Counted)
      (LogFile.opened flushEveryN, []) cs := by
  refine
    Machine.throughout_of_preserved ?_
      ⟨LogFile.opened_keeps flushEveryN, id⟩ cs
  rintro ⟨f, lines⟩ c ⟨hKeeps, hCounted⟩ hEnabled
  exact
    ⟨(f.call c, lines ++ c.lines), rfl,
      hKeeps.call c hEnabled, hCounted.call c⟩

end V3

end WebServer
