import WebServer.V3.Base.LogStream

/-
  The records of the version 3.0 logger (`base/Logging.h`,
  `base/Logging.cpp`).

  A `Logger` lives as long as one `LOG` statement. Its
  constructor writes the time, the statement its arguments,
  and its destructor the trailer, in five more arguments.
  The trailer gets no room of its own: where the arguments
  leave too little, its parts are left out one by one.

  Key definitions include:
    * `Logger`
    * `Logger.new`
    * `Logger.trailerArgs`
    * `Logger.destroy`
    * `LogArg.room`
    * `roomForAll`

  Key theorems include:
    * `LogStream.shiftAll_whole_iff`
    * `LogStream.shiftAll_isSome_iff`
    * `logger_trailer_iff`
-/

------------------------------------------------------------
-- The Logger
------------------------------------------------------------

namespace WebServer

namespace V3

/- Arguments one after another. -/
def LogStream.shiftAll :
    LogStream → List LogArg → Option LogStream
| s, [] => some s
| s, arg :: args =>
    (s.shift arg).bind fun t => shiftAll t args

/- What `strftime` leaves in `str_t`, before the NUL. -/
abbrev TimeText : Type :=
  { text : Bytes // text.length < 26 }

/- `impl_`. -/
structure Logger where
  stream : LogStream
  line : IntType.int.Value
  basename : Bytes

namespace Logger

/- The constructor, which writes the time. -/
def new
    (data : { d : Bytes // d.length = kSmallBuffer })
    (time : TimeText)
    (fileName : Bytes)
    (line : IntType.int.Value) : Option Logger := do
  let stream ←
    (LogStream.new data).shift (.cstring (some time.val))
  some
    { stream := stream
      line := line
      basename := fileName }

/- `stream() << ..`. -/
def log
    (l : Logger)
    (args : List LogArg) : Option Logger := do
  let stream ← l.stream.shiftAll args
  some { l with stream := stream }

/- What the destructor writes. -/
def trailerArgs
    (l : Logger) : List LogArg :=
  [.cstring (some (utf8 " -- ")), .string l.basename,
    .char 58, .integer .int l.line, .char 10]

/-
  The destructor: the record it gives to `output`, which
  passes it to `AsyncLogging::append`.
-/
def destroy
    (l : Logger) : Option Bytes := do
  let stream ← l.stream.shiftAll l.trailerArgs
  some stream.buffer.content

/- The trailer, ` -- file:line` and the newline. -/
def trailer
    (fileName : Bytes)
    (line : IntType.int.Value) : Bytes :=
  utf8 " -- " ++ fileName ++ 58 ::
    (DecimalText.decimalText line.val ++ [10])

/- The record of one `LOG` statement. -/
def record
    (data : { d : Bytes // d.length = kSmallBuffer })
    (time : TimeText)
    (fileName : Bytes)
    (line : IntType.int.Value)
    (args : List LogArg) : Option Bytes := do
  let l ← new data time fileName line
  let l' ← l.log args
  l'.destroy

end Logger

/- The room without which an argument is left out. -/
def LogArg.room
    (arg : LogArg) : Nat :=
  if arg.isNumeric then
    kMaxNumericSize
  else
    arg.piece.length + 1

/- The room without which one of the arguments is. -/
def roomForAll : List LogArg → Nat
| [] => 0
| arg :: args =>
    max arg.room (arg.piece.length + roomForAll args)

end V3

end WebServer

------------------------------------------------------------
-- Sequences Of Arguments
------------------------------------------------------------

namespace WebServer

namespace V3

namespace LogStream

/- What is known of an argument that was taken. -/
theorem Roomy.shifted
    {s t : LogStream}
    {arg : LogArg}
    (h : s.Roomy)
    (hShift : s.shift arg = some t) :
    s.LengthKept arg ∧ s.Shifted arg t := by
  have hKept : s.LengthKept arg := by
    by_contra hLost
    rw [shift_of_not_lengthKept h hLost] at hShift
    cases hShift
  rcases shift_of_lengthKept h hKept with
    ⟨u, hOther, hShifted⟩
  rcases Option.some.inj (hShift.symm.trans hOther) with rfl
  exact ⟨hKept, hShifted⟩

/- The arguments all are taken if their lengths are kept. -/
theorem shiftAll_isSome_iff
    {s : LogStream}
    (h : s.Roomy)
    (args : List LogArg) :
    (∃ t, s.shiftAll args = some t) ↔
      streamMachine.StepsMeet LengthKept s args := by
  induction args generalizing s with
  | nil => exact ⟨fun _ => trivial, fun _ => ⟨s, rfl⟩⟩
  | cons arg args ih =>
      constructor
      · rintro ⟨t, hRun⟩ _
        rcases Option.bind_eq_some_iff.mp hRun with
          ⟨u, hShift, hRest⟩
        rcases h.shifted hShift with ⟨hKept, hShifted⟩
        refine ⟨hKept, ?_⟩
        intro v hStep
        rcases Option.some.inj (hShift.symm.trans hStep) with
          rfl
        exact (ih hShifted.roomy).mp ⟨t, hRest⟩
      · intro hMeet
        rcases hMeet trivial with ⟨hKept, hTail⟩
        rcases shift_of_lengthKept h hKept with
          ⟨u, hShift, hShifted⟩
        rcases (ih hShifted.roomy).mpr (hTail u hShift) with
          ⟨t, hRest⟩
        exact
          ⟨t, Option.bind_eq_some_iff.mpr
            ⟨u, hShift, hRest⟩⟩

/- Arguments write their texts at most. -/
theorem length_shiftAll_le
    {s t : LogStream}
    {args : List LogArg}
    (h : s.Roomy)
    (hRun : s.shiftAll args = some t) :
    t.Roomy ∧
      t.buffer.content.length ≤
        s.buffer.content.length +
          (args.map LogArg.piece).flatten.length := by
  induction args generalizing s with
  | nil =>
      rcases Option.some.inj hRun with rfl
      exact ⟨h, Nat.le_add_right _ _⟩
  | cons arg args ih =>
      rcases Option.bind_eq_some_iff.mp hRun with
        ⟨u, hShift, hRest⟩
      rcases h.shifted hShift with ⟨-, hShifted⟩
      rcases ih hShifted.roomy hRest with ⟨hRoomy, hLength⟩
      refine ⟨hRoomy, ?_⟩
      have hContent :=
        congrArg List.length hShifted.content
      rw [List.length_append] at hContent
      rw [List.map_cons, List.flatten_cons,
        List.length_append]
      split at hContent
      next => omega
      next =>
        rw [List.length_nil] at hContent
        omega

end LogStream

/- A number has at least one character. -/
theorem LogArg.piece_pos
    {arg : LogArg}
    (hNumeric : arg.isNumeric = true) :
    0 < arg.piece.length := by
  cases arg with
  | integer ty v =>
      have hDigits :=
        List.length_pos_of_ne_nil
          (DecimalText.spells_digitsText
            v.val.natAbs).nonempty
      show 0 < (DecimalText.decimalText v.val).length
      unfold DecimalText.decimalText
      rw [List.length_append]
      omega
  | floating text => exact text.property.1
  | bool _ | char _ | cstring _ | string _ | append _ =>
      cases hNumeric

namespace LogStream

/- What is let in with its length has the room it needs. -/
theorem Roomy.accepts_iff
    {s : LogStream}
    (h : s.Roomy)
    (arg : LogArg) :
    s.LengthKept arg ∧ s.Accepts arg ↔
      (arg.room : Int) ≤ s.buffer.avail := by
  have hAvail := h.avail
  have hEnd : (kSmallBuffer : Int) = 4000 := rfl
  unfold LengthKept Accepts LogArg.room
  cases arg.isNumeric with
  | false =>
      rw [if_neg Bool.false_ne_true,
        if_neg Bool.false_ne_true]
      constructor
      · rintro ⟨hKept, hLet⟩
        have hLess := hKept rfl hLet
        omega
      · intro hRoom
        have hSame :
            toInt32 arg.piece.length = arg.piece.length :=
          toInt32_of_isInt32 ⟨by omega, by omega⟩
        rw [hSame]
        exact ⟨fun _ hLet => hLet, by omega⟩
  | true =>
      rw [if_pos rfl, if_pos rfl]
      refine ⟨fun hBoth => hBoth.2, fun hRoom => ⟨?_, hRoom⟩⟩
      intro hBytes
      cases hBytes

end LogStream

end V3

end WebServer

------------------------------------------------------------
-- Room For A Sequence
------------------------------------------------------------

namespace WebServer

namespace V3

namespace LogStream

/- An argument that was let in takes its length. -/
theorem Shifted.accepted
    {s t : LogStream}
    {arg : LogArg}
    (hShifted : s.Shifted arg t)
    (h : s.Roomy)
    (hLet : s.Accepts arg) :
    t.buffer.content = s.buffer.content ++ arg.piece ∧
      t.buffer.avail =
        s.buffer.avail - arg.piece.length := by
  have hContent := hShifted.content
  rw [if_pos hLet] at hContent
  have hLength := congrArg List.length hContent
  rw [List.length_append, h.length_content,
    hShifted.roomy.length_content] at hLength
  refine ⟨hContent, ?_⟩
  rw [h.avail, hShifted.roomy.avail]
  omega

/- An argument whose text is there was let in. -/
theorem Shifted.accepts
    {s t : LogStream}
    {arg : LogArg}
    (hShifted : s.Shifted arg t)
    (h : s.Roomy)
    (hThere :
      s.buffer.content.length + arg.piece.length ≤
        t.buffer.content.length) :
    s.Accepts arg := by
  by_contra hRefused
  have hContent := hShifted.content
  rw [if_neg hRefused, List.append_nil] at hContent
  rw [hContent] at hThere
  have hEmpty : arg.piece.length = 0 := by omega
  apply hRefused
  unfold Accepts
  cases hKind : arg.isNumeric with
  | false =>
      have hRoomy := h
      have hAvail := h.avail
      unfold Roomy at hRoomy
      rw [if_neg Bool.false_ne_true, hEmpty]
      show 0 < s.buffer.avail
      omega
  | true =>
      have hPos := LogArg.piece_pos hKind
      omega

/-
  A sequence of arguments is written as a whole exactly when
  there is room for it. The induction is on the sequence:
  what the first argument leaves is the room of the others,
  and a text left out is missing from the length at the end.
-/
theorem shiftAll_whole_iff
    {s : LogStream}
    (h : s.Roomy)
    (args : List LogArg) :
    (∃ t,
      s.shiftAll args = some t ∧
        t.buffer.content =
          s.buffer.content ++
            (args.map LogArg.piece).flatten) ↔
      (roomForAll args : Int) ≤ s.buffer.avail := by
  induction args generalizing s with
  | nil =>
      have hAvail := h.avail
      have hRoomy := h
      unfold Roomy at hRoomy
      refine ⟨fun _ => ?_, fun _ => ⟨s, rfl, ?_⟩⟩
      · show (0 : Int) ≤ _
        omega
      · exact (List.append_nil _).symm
  | cons arg args ih =>
      rw [List.map_cons, List.flatten_cons,
        ← List.append_assoc]
      unfold roomForAll
      constructor
      · rintro ⟨t, hRun, hContent⟩
        rcases Option.bind_eq_some_iff.mp hRun with
          ⟨u, hShift, hRest⟩
        rcases h.shifted hShift with ⟨hKept, hShifted⟩
        have hLet : s.Accepts arg := by
          have hMost :=
            (length_shiftAll_le hShifted.roomy hRest).2
          rw [hContent, List.length_append,
            List.length_append] at hMost
          exact hShifted.accepts h (by omega)
        have hFirst := (h.accepts_iff arg).mp ⟨hKept, hLet⟩
        rcases hShifted.accepted h hLet with ⟨hText, hAvail⟩
        rw [← hText] at hContent
        have hOthers :=
          (ih hShifted.roomy).mp ⟨t, hRest, hContent⟩
        omega
      · intro hRoom
        rcases (h.accepts_iff arg).mpr (by omega) with
          ⟨hKept, hLet⟩
        rcases shift_of_lengthKept h hKept with
          ⟨u, hShift, hShifted⟩
        rcases hShifted.accepted h hLet with ⟨hText, hAvail⟩
        rcases (ih hShifted.roomy).mpr (by omega) with
          ⟨t, hRest, hContent⟩
        refine
          ⟨t, Option.bind_eq_some_iff.mpr
            ⟨u, hShift, hRest⟩, ?_⟩
        rw [hContent, hText]

end LogStream

end V3

end WebServer

------------------------------------------------------------
-- The Trailer
------------------------------------------------------------

namespace WebServer

namespace V3

namespace Logger

theorem flatten_trailerArgs
    (l : Logger) :
    (l.trailerArgs.map LogArg.piece).flatten =
      trailer l.basename l.line := by
  unfold trailerArgs trailer
  simp [LogArg.piece]

/-
  The room of the trailer: four bytes, the file name, a
  colon, and the bytes reserved for any number, in which the
  newline behind the line number finds its place.
-/
theorem roomForAll_trailerArgs
    (l : Logger) :
    roomForAll l.trailerArgs = 37 + l.basename.length := by
  have hShort := length_decimalText_value l.line
  have hDashes : (utf8 " -- ").length = 4 := by decide
  simp only [trailerArgs, roomForAll, LogArg.room,
    LogArg.isNumeric, LogArg.piece, kMaxNumericSize,
    Option.getD_some, hDashes, List.length_singleton,
    Bool.false_eq_true, if_true, if_false]
  omega

/- The constructor leaves a stream. -/
theorem new_isSome
    (data : { d : Bytes // d.length = kSmallBuffer })
    (time : TimeText)
    (fileName : Bytes)
    (line : IntType.int.Value) :
    ∃ l,
      new data time fileName line = some l ∧
        l.stream.Roomy ∧
        l.basename = fileName ∧ l.line = line := by
  have hRoomy := LogStream.roomy_new data
  have hShort := time.property
  have hAvail : (LogStream.new data).buffer.avail = 4000 :=
    hRoomy.avail
  have hRoom :
      ((LogArg.cstring (some time.val)).room : Int) ≤
        (LogStream.new data).buffer.avail := by
    rw [hAvail]
    show ((time.val.length + 1 : Nat) : Int) ≤ 4000
    omega
  have hKept := ((hRoomy.accepts_iff _).mpr hRoom).1
  rcases LogStream.shift_of_lengthKept hRoomy hKept with
    ⟨s, hShift, hShifted⟩
  refine
    ⟨{ stream := s, line := line, basename := fileName }, ?_,
      hShifted.roomy, rfl, rfl⟩
  unfold new
  rw [hShift]
  rfl

/- The arguments change the stream only. -/
theorem log_eq_some
    {l l' : Logger}
    {args : List LogArg}
    (h : l.stream.Roomy)
    (hLog : l.log args = some l') :
    l'.stream.Roomy ∧
      l'.basename = l.basename ∧ l'.line = l.line := by
  rcases Option.bind_eq_some_iff.mp hLog with ⟨s, hRun, hEq⟩
  rcases Option.some.inj hEq with rfl
  exact ⟨(LogStream.length_shiftAll_le h hRun).1, rfl, rfl⟩

theorem log_isSome_iff
    {l : Logger}
    (h : l.stream.Roomy)
    (args : List LogArg) :
    (∃ l', l.log args = some l') ↔
      streamMachine.StepsMeet LogStream.LengthKept l.stream
        args := by
  rw [← LogStream.shiftAll_isSome_iff h args]
  constructor
  · rintro ⟨l', hLog⟩
    rcases Option.bind_eq_some_iff.mp hLog with ⟨s, hRun, -⟩
    exact ⟨s, hRun⟩
  · rintro ⟨s, hRun⟩
    exact
      ⟨_, Option.bind_eq_some_iff.mpr ⟨s, hRun, rfl⟩⟩

/- The destructor writes the trailer where it has room. -/
theorem destroy_whole_iff
    {l : Logger}
    (h : l.stream.Roomy) :
    l.destroy =
        some
          (l.stream.buffer.content ++
            trailer l.basename l.line) ↔
      37 + (l.basename.length : Int) ≤
        l.stream.buffer.avail := by
  have hRoom := roomForAll_trailerArgs l
  have hWhole :=
    LogStream.shiftAll_whole_iff h l.trailerArgs
  rw [flatten_trailerArgs, hRoom] at hWhole
  push_cast at hWhole
  rw [← hWhole]
  constructor
  · intro hDestroy
    rcases Option.bind_eq_some_iff.mp hDestroy with
      ⟨t, hRun, hText⟩
    exact ⟨t, hRun, Option.some.inj hText⟩
  · rintro ⟨t, hRun, hText⟩
    exact
      Option.bind_eq_some_iff.mpr
        ⟨t, hRun, congrArg some hText⟩

end Logger

/-
  `~Logger` puts the whole trailer behind what the statement
  wrote. Text of the arguments that reads like a trailer
  does not count.
-/
def TrailerWritten
    (data : { d : Bytes // d.length = kSmallBuffer })
    (time : TimeText)
    (fileName : Bytes)
    (line : IntType.int.Value)
    (args : List LogArg) : Prop :=
  ∃ l l',
    Logger.new data time fileName line = some l ∧
      l.log args = some l' ∧
      l'.destroy =
        some
          (l'.stream.buffer.content ++
            Logger.trailer fileName line)

/-
  The arguments keep their lengths, and leave 37 bytes and
  those of the file name.
-/
def TrailerRoom
    (data : { d : Bytes // d.length = kSmallBuffer })
    (time : TimeText)
    (fileName : Bytes)
    (line : IntType.int.Value)
    (args : List LogArg) : Prop :=
  ∀ l,
    Logger.new data time fileName line = some l →
    streamMachine.StepsMeet LogStream.LengthKept l.stream
        args ∧
      ∀ l',
        l.log args = some l' →
        37 + (fileName.length : Int) ≤
          l'.stream.buffer.avail

/-
  Where `~Logger` starts with room for it, and only there,
  it writes the whole trailer; the record then ends with it.
-/
theorem logger_trailer_iff
    (data : { d : Bytes // d.length = kSmallBuffer })
    (time : TimeText)
    (fileName : Bytes)
    (line : IntType.int.Value)
    (args : List LogArg) :
    (TrailerWritten data time fileName line args ↔
        TrailerRoom data time fileName line args) ∧
      (TrailerRoom data time fileName line args →
        ∃ text,
          Logger.record data time fileName line args =
            some (text ++ Logger.trailer fileName line)) := by
  rcases Logger.new_isSome data time fileName line with
    ⟨l, hNew, hRoomy, hName, hLine⟩
  have hWritten :
      TrailerRoom data time fileName line args →
        TrailerWritten data time fileName line args := by
    intro hRoom
    rcases hRoom l hNew with ⟨hMeet, hLeft⟩
    rcases (Logger.log_isSome_iff hRoomy args).mpr hMeet with
      ⟨l', hLog⟩
    rcases Logger.log_eq_some hRoomy hLog with
      ⟨hRoomy', hName', hLine'⟩
    rw [hName] at hName'
    rw [hLine] at hLine'
    have hDestroy :=
      (Logger.destroy_whole_iff hRoomy').mpr (by
        rw [hName']
        exact hLeft l' hLog)
    rw [hName', hLine'] at hDestroy
    exact ⟨l, l', hNew, hLog, hDestroy⟩
  refine ⟨⟨?_, hWritten⟩, ?_⟩
  · rintro ⟨m, l', hNew', hLog, hDestroy⟩
    rcases Option.some.inj (hNew.symm.trans hNew') with rfl
    rcases Logger.log_eq_some hRoomy hLog with
      ⟨hRoomy', hName', hLine'⟩
    rw [← hName, ← hLine, ← hName', ← hLine'] at hDestroy
    have hLeft :=
      (Logger.destroy_whole_iff hRoomy').mp hDestroy
    intro m hNew''
    rcases Option.some.inj (hNew.symm.trans hNew'') with rfl
    refine
      ⟨(Logger.log_isSome_iff hRoomy args).mp ⟨l', hLog⟩, ?_⟩
    intro m' hLog'
    rcases Option.some.inj (hLog.symm.trans hLog') with rfl
    rw [← hName, ← hName']
    exact hLeft
  · intro hRoom
    rcases hWritten hRoom with
      ⟨m, l', hNew', hLog, hDestroy⟩
    refine ⟨l'.stream.buffer.content, ?_⟩
    unfold Logger.record
    rw [hNew']
    show (m.log args).bind _ = _
    rw [hLog]
    exact hDestroy

/-
  A statement that leaves one byte: the record is its text,
  without a newline.
-/
theorem logger_trailer_lost :
    ∃ record,
      Logger.record
          ⟨List.replicate kSmallBuffer 0,
            List.length_replicate⟩
          ⟨utf8 "2024-01-01 12:00:00\n", by decide⟩
          (utf8 "HttpData.cpp") ⟨158, by decide⟩
          [.string (List.replicate 3979 97)] =
        some record ∧
      ¬ Logger.trailer (utf8 "HttpData.cpp") ⟨158, by decide⟩
          <:+ record ∧
      ¬ [10] <:+ record := by
  have hRun :
      (Logger.record
          ⟨List.replicate kSmallBuffer 0,
            List.length_replicate⟩
          ⟨utf8 "2024-01-01 12:00:00\n", by decide⟩
          (utf8 "HttpData.cpp") ⟨158, by decide⟩
          [.string (List.replicate 3979 97)]).map
        List.getLast? = some (some 97) := by
    decide +kernel
  rcases Option.map_eq_some_iff.mp hRun with
    ⟨record, hRecord, hLast⟩
  have hOpen : ¬ [10] <:+ record := by
    rintro ⟨front, rfl⟩
    rw [List.getLast?_concat] at hLast
    cases hLast
  refine ⟨record, hRecord, ?_, hOpen⟩
  intro hTrailer
  have hNewline :
      [10] <:+ Logger.trailer (utf8 "HttpData.cpp")
        ⟨158, by decide⟩ := by
    decide
  exact hOpen (hNewline.trans hTrailer)

end V3

end WebServer
