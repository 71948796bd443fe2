import WebServer.Library.Machine
import WebServer.V3.Base.Convert
import WebServer.V3.Base.FixedBuffer

/-
  The stream behind `LOG` of version 3.0
  (`base/LogStream.h`, `base/LogStream.cpp`).

  A buffer is its bytes, written or not, and `cur_` as an
  offset into them. An argument that does not fit is left
  out as a whole: bytes are compared with the room, and a
  number is printed in place where there is room for any
  number. The result `none` is a write outside of `data_`.

  The length of the bytes is a `size_t`, compared as an
  `int`. A length of 2 ^ 31 or more can come out below the
  room, and the copy then leaves the buffer.

  Key definitions include:
    * `BufferArea`
    * `BufferArea.append`
    * `LogArg`
    * `LogStream.shift`
    * `streamMachine`
    * `LogStream.LengthKept`

  Key theorems include:
    * `BufferArea.append_filled`
    * `LogStream.shift_of_lengthKept`
    * `LogStream.shift_of_not_lengthKept`
    * `logStream_sound_iff`
-/

------------------------------------------------------------
-- Buffers
------------------------------------------------------------

namespace WebServer

namespace V3

/- `kSmallBuffer`. -/
def kSmallBuffer : Nat := 4000

/- `FixedBuffer<SIZE>`, with what `data_` holds. -/
structure BufferArea (size : Nat) where
  data : Bytes
  hData : data.length = size
  cur : Nat

namespace BufferArea

variable {size : Nat}

/- A new buffer. Nothing is written to its bytes. -/
def new
    (data : { d : Bytes // d.length = size }) :
    BufferArea size where
  data := data.val
  hData := data.property
  cur := 0

/- `avail()`. -/
def avail
    (b : BufferArea size) : Int :=
  toInt32 ((size : Int) - b.cur)

/- `length()`. -/
def length
    (b : BufferArea size) : Int :=
  toInt32 b.cur

/- The bytes from `data_` to `cur_`. -/
def content
    (b : BufferArea size) : Bytes :=
  b.data.take b.cur

/- `append(buf, len)` of the `len` bytes at `buf`. -/
def append
    (b : BufferArea size)
    (buf : Bytes) : Option (BufferArea size) :=
  if toInt32 buf.length < b.avail then
    if hRoom : b.cur + buf.length ≤ b.data.length then
      some
        { data := CString.store b.data b.cur buf
          hData := (CString.length_store hRoom).trans b.hData
          cur := b.cur + buf.length }
    else
      none
  else
    some b

/-
  A printer called with `current()`, and `add` of the length
  it returns. It gets the bytes from `cur_` on and leaves as
  many.
-/
def printAt
    (b : BufferArea size)
    (print : Bytes → Option (Nat × Bytes)) :
    Option (BufferArea size) := do
  let (len, rest) ← print (b.data.drop b.cur)
  if hSame :
      (b.data.take b.cur ++ rest).length =
        b.data.length then
    some
      { data := b.data.take b.cur ++ rest
        hData := hSame.trans b.hData
        cur := b.cur + len }
  else
    none

end BufferArea

end V3

end WebServer

------------------------------------------------------------
-- The Stream
------------------------------------------------------------

namespace WebServer

namespace V3

/-
  What `snprintf` prints for a floating-point number, at
  least one character.
-/
abbrev FloatText : Type :=
  { text : Bytes //
    0 < text.length ∧ text.length < kMaxNumericSize }

/-
  The arguments of `operator<<` and `append`. Bytes are all
  those that the length given covers. A `short` is printed
  as the `int` it is converted to, a `float` as a `double`;
  a C string is the bytes before its NUL, or a null pointer.
-/
inductive LogArg
| bool (v : Bool)
| integer (ty : IntType) (v : ty.Value)
| floating (text : FloatText)
| char (v : Byte)
| cstring (str : Option Bytes)
| string (v : Bytes)
| append (data : Bytes)

/- The text of an argument. -/
def LogArg.piece : LogArg → Bytes
| .bool v => if v then utf8 "1" else utf8 "0"
| .integer _ v => DecimalText.decimalText v.val
| .floating text => text.val
| .char v => [v]
| .cstring str => str.getD (utf8 "(null)")
| .string v => v
| .append data => data

/- Arguments that are printed in place. -/
def LogArg.isNumeric : LogArg → Bool
| .integer _ _ => true
| .floating _ => true
| _ => false

structure LogStream where
  buffer : BufferArea kSmallBuffer

namespace LogStream

/- A new stream, over any bytes. -/
def new
    (data : { d : Bytes // d.length = kSmallBuffer }) :
    LogStream where
  buffer := BufferArea.new data

/- `buffer_.append(buf, len)`. -/
def append
    (s : LogStream)
    (buf : Bytes) : Option LogStream :=
  (s.buffer.append buf).map fun b => { buffer := b }

/- The check and the printing of a number. -/
def printNumeric
    (s : LogStream)
    (print : Bytes → Option (Nat × Bytes)) :
    Option LogStream :=
  if kMaxNumericSize ≤ s.buffer.avail then
    (s.buffer.printAt print).map fun b => { buffer := b }
  else
    some s

/- `formatInteger(v)`. -/
def formatInteger
    (s : LogStream)
    (ty : IntType)
    (v : ty.Value) : Option LogStream :=
  s.printNumeric fun buf => convert ty buf v

/- `snprintf(buf, kMaxNumericSize, ..)` and its result. -/
def snprintf
    (text : Bytes)
    (buf : Bytes) : Option (Nat × Bytes) :=
  (CString.storeInside buf 0
    (text.take (kMaxNumericSize - 1) ++ [0])).map
      (text.length, ·)

/- `operator<<` for `double` and `long double`. -/
def formatFloating
    (s : LogStream)
    (text : FloatText) : Option LogStream :=
  s.printNumeric (snprintf text.val)

/- One `operator<<` or `append`. -/
def shift
    (s : LogStream) :
    LogArg → Option LogStream
| .bool v => s.append (if v then utf8 "1" else utf8 "0")
| .integer ty v => s.formatInteger ty v
| .floating text => s.formatFloating text
| .char v => s.append [v]
| .cstring (some str) => s.append str
| .cstring none => s.append (utf8 "(null)")
| .string v => s.append v
| .append data => s.append data

/- Whether the check before the argument lets it in. -/
def Accepts
    (s : LogStream)
    (arg : LogArg) : Prop :=
  if arg.isNumeric then
    kMaxNumericSize ≤ s.buffer.avail
  else
    toInt32 arg.piece.length < s.buffer.avail

instance
    (s : LogStream)
    (arg : LogArg) : Decidable (s.Accepts arg) :=
  inferInstanceAs (Decidable (ite _ _ _))

end LogStream

/- A stream, with any arguments in any order. -/
def streamMachine : Machine LogStream LogArg where
  enabled _ _ := True
  step s arg := s.shift arg

/- The pieces let in so far. -/
def noteAccepted
    (s : LogStream)
    (arg : LogArg)
    (pieces : List Bytes) : List Bytes :=
  if s.Accepts arg then pieces ++ [arg.piece] else pieces

end V3

end WebServer

------------------------------------------------------------
-- Room
------------------------------------------------------------

namespace WebServer

namespace V3

namespace BufferArea

variable {size : Nat}

/- A new buffer, read as its filled part. -/
def filled
    (b : BufferArea size) : FixedBuffer size where
  data := b.content
  fits := by
    unfold content
    rw [List.length_take, b.hData]
    exact Nat.min_le_right _ _

theorem avail_of_le
    {b : BufferArea size}
    (hSize : size < 2 ^ 31)
    (hCur : b.cur ≤ size) :
    b.avail = (size : Int) - b.cur :=
  toInt32_of_isInt32 ⟨by omega, by omega⟩

theorem length_of_le
    {b : BufferArea size}
    (hSize : size < 2 ^ 31)
    (hCur : b.cur ≤ size) :
    b.length = b.cur :=
  toInt32_of_isInt32 ⟨by omega, by omega⟩

theorem length_content
    {b : BufferArea size}
    (hCur : b.cur ≤ size) :
    b.content.length = b.cur := by
  unfold content
  rw [List.length_take, b.hData]
  exact Nat.min_eq_left hCur

/- What a store at `cur_` leaves before its end. -/
theorem take_store
    {data : Bytes}
    {p : Nat}
    (hPlace : p ≤ data.length)
    (bytes : Bytes) :
    (CString.store data p bytes).take (p + bytes.length) =
      data.take p ++ bytes := by
  have hFront :
      (data.take p ++ bytes).length = p + bytes.length := by
    rw [List.length_append, List.length_take,
      Nat.min_eq_left hPlace]
  unfold CString.store
  rw [← hFront, List.take_left]

/- The filled part of a new buffer is empty. -/
theorem content_new
    (data : { d : Bytes // d.length = size }) :
    (new data).content = [] :=
  List.take_zero

/-
  `append` on the bytes is `append` on the filled part: the
  same is kept, and both leave the buffer together.
-/
theorem append_filled
    {b : BufferArea size}
    (hSize : size < 2 ^ 31)
    (hCur : b.cur ≤ size)
    (buf : Bytes) :
    (b.append buf).map filled = b.filled.append buf := by
  have hEnd := b.hData
  have hContent := length_content hCur
  have hAvail : b.filled.avail = b.avail := by
    rw [avail_of_le hSize hCur]
    unfold FixedBuffer.avail filled
    rw [hContent]
  unfold append FixedBuffer.append
  rw [hAvail]
  split
  next =>
    have hLength :
        (b.filled.data ++ buf).length =
          b.cur + buf.length := by
      rw [List.length_append]
      unfold filled
      rw [hContent]
    have hStored :=
      take_store (hCur.trans_eq b.hData.symm) buf
    by_cases hRoom : b.cur + buf.length ≤ b.data.length
    · have hFits : (b.filled.data ++ buf).length ≤ size := by
        rw [hLength]
        omega
      rw [dif_pos hRoom, dif_pos hFits, Option.map_some]
      unfold filled content
      simp only [hStored]
    · have hOver :
          ¬ (b.filled.data ++ buf).length ≤ size := by
        rw [hLength]
        omega
      rw [dif_neg hRoom, dif_neg hOver, Option.map_none]
  next => rw [Option.map_some]

/- Bytes that fit are copied behind the content. -/
theorem append_of_room
    {b : BufferArea size}
    {buf : Bytes}
    (hLet : toInt32 buf.length < b.avail)
    (hFits : b.cur + buf.length < size) :
    ∃ b',
      b.append buf = some b' ∧
        b'.cur = b.cur + buf.length ∧
        b'.content = b.content ++ buf := by
  have hRoom : b.cur + buf.length ≤ b.data.length := by
    rw [b.hData]
    exact Nat.le_of_lt hFits
  unfold append
  rw [if_pos hLet, dif_pos hRoom]
  refine ⟨_, rfl, rfl, ?_⟩
  exact take_store (by omega) buf

/- Bytes let in without room are copied past the end. -/
theorem append_overrun
    {b : BufferArea size}
    {buf : Bytes}
    (hLet : toInt32 buf.length < b.avail)
    (hOver : size < b.cur + buf.length) :
    b.append buf = none := by
  unfold append
  rw [if_pos hLet, dif_neg]
  rw [b.hData]
  omega

end BufferArea

end V3

end WebServer

------------------------------------------------------------
-- Printing In Place
------------------------------------------------------------

namespace WebServer

namespace V3

/-
  The printer puts the text and its NUL at the front of every
  buffer with room for them, and keeps the size.
-/
def Prints
    (print : Bytes → Option (Nat × Bytes))
    (text : Bytes) : Prop :=
  ∀ buf : Bytes,
    text.length < buf.length →
    ∃ rest,
      print buf = some (text.length, text ++ rest) ∧
        (text ++ rest).length = buf.length

theorem prints_convert
    {ty : IntType}
    (v : ty.Value) :
    Prints (fun buf => convert ty buf v)
      (DecimalText.decimalText v.val) := by
  intro buf hRoom
  refine ⟨_, convert_of_room v hRoom, ?_⟩
  rw [List.length_append, List.length_cons,
    List.length_drop]
  omega

theorem prints_snprintf
    (text : FloatText) :
    Prints (LogStream.snprintf text.val) text.val := by
  have hWhole :
      text.val.take (kMaxNumericSize - 1) = text.val :=
    List.take_of_length_le
      (Nat.le_sub_one_of_lt text.property.2)
  intro buf hRoom
  have hFits :
      0 + (text.val ++ [0]).length ≤ buf.length := by
    rw [List.length_append, Nat.zero_add]
    exact hRoom
  refine
    ⟨[0] ++ buf.drop (text.val ++ [0]).length, ?_, ?_⟩
  · unfold LogStream.snprintf
    rw [hWhole, CString.storeInside_of_room hFits]
    unfold CString.store
    rw [List.take_zero, List.nil_append, Nat.zero_add,
      List.append_assoc]
    rfl
  · rw [← List.append_assoc, List.length_append,
      List.length_drop]
    omega

/- A printed text stands behind the content. -/
theorem BufferArea.printAt_of_prints
    {size : Nat}
    {b : BufferArea size}
    {print : Bytes → Option (Nat × Bytes)}
    {text : Bytes}
    (hPrints : Prints print text)
    (hRoom : b.cur + text.length < size) :
    ∃ b',
      b.printAt print = some b' ∧
        b'.cur = b.cur + text.length ∧
        b'.content = b.content ++ text := by
  have hLength := b.hData
  have hFront : b.content.length = b.cur :=
    length_content (by omega)
  have hRest : text.length < (b.data.drop b.cur).length := by
    rw [List.length_drop]
    omega
  rcases hPrints _ hRest with ⟨rest, hPrint, hSize⟩
  have hSame :
      (b.data.take b.cur ++ (text ++ rest)).length =
        b.data.length := by
    rw [List.length_append, hSize, ← List.length_append,
      List.take_append_drop]
  unfold printAt
  rw [hPrint]
  refine ⟨_, dif_pos hSame, rfl, ?_⟩
  show (b.content ++ (text ++ rest)).take
    (b.cur + text.length) = _
  rw [← List.append_assoc, List.take_left' (by
    rw [List.length_append, hFront])]

end V3

end WebServer

------------------------------------------------------------
-- One Argument
------------------------------------------------------------

namespace WebServer

namespace V3

namespace LogStream

/- `cur_` stands before the end of the buffer. -/
def Roomy
    (s : LogStream) : Prop :=
  s.buffer.cur < kSmallBuffer

/-
  A length of bytes comes out below the room, as an `int`,
  only where it is below the room.
-/
def LengthKept
    (s : LogStream)
    (arg : LogArg) : Prop :=
  arg.isNumeric = false →
    s.Accepts arg →
    (arg.piece.length : Int) < s.buffer.avail

instance
    (s : LogStream)
    (arg : LogArg) : Decidable (s.LengthKept arg) :=
  inferInstanceAs (Decidable (_ → _ → _))

/-
  What an argument does: its whole text is put behind the
  content if it is let in, and nothing else happens.
-/
structure Shifted
    (s : LogStream)
    (arg : LogArg)
    (t : LogStream) : Prop where
  roomy : t.Roomy
  content :
    t.buffer.content =
      s.buffer.content ++
        if s.Accepts arg then arg.piece else []

theorem Roomy.avail
    {s : LogStream}
    (h : s.Roomy) :
    s.buffer.avail = (kSmallBuffer : Int) - s.buffer.cur :=
  BufferArea.avail_of_le (by decide) (Nat.le_of_lt h)

theorem Roomy.length_content
    {s : LogStream}
    (h : s.Roomy) :
    s.buffer.content.length = s.buffer.cur :=
  BufferArea.length_content (Nat.le_of_lt h)

/- Bytes of every kind are appended. -/
theorem shift_of_bytes
    (s : LogStream)
    {arg : LogArg}
    (hBytes : arg.isNumeric = false) :
    s.shift arg = s.append arg.piece := by
  cases arg with
  | bool v => rfl
  | integer ty v => cases hBytes
  | floating text => cases hBytes
  | char v => rfl
  | cstring str =>
      cases str with
      | none => rfl
      | some str => rfl
  | string v => rfl
  | append data => rfl

/- A number is printed, in fewer bytes than are reserved. -/
theorem shift_of_numeric
    (s : LogStream)
    {arg : LogArg}
    (hNumeric : arg.isNumeric = true) :
    ∃ print,
      Prints print arg.piece ∧
        arg.piece.length < kMaxNumericSize ∧
        s.shift arg = s.printNumeric print := by
  cases arg with
  | integer ty v =>
      have hShort := length_decimalText_value v
      refine ⟨_, prints_convert v, ?_, rfl⟩
      show (DecimalText.decimalText v.val).length < 32
      omega
  | floating text =>
      exact
        ⟨_, prints_snprintf text, text.property.2, rfl⟩
  | bool _ | char _ | cstring _ | string _ | append _ =>
      cases hNumeric

/- What is not let in changes nothing. -/
theorem shift_refused
    {s : LogStream}
    {arg : LogArg}
    (hRefused : ¬ s.Accepts arg) :
    s.shift arg = some s := by
  unfold Accepts at hRefused
  cases hKind : arg.isNumeric with
  | false =>
      rw [hKind, if_neg Bool.false_ne_true] at hRefused
      rw [shift_of_bytes s hKind]
      unfold append BufferArea.append
      rw [if_neg hRefused]
      rfl
  | true =>
      rw [hKind, if_pos rfl] at hRefused
      rcases shift_of_numeric s hKind with ⟨print, -, -, hEq⟩
      rw [hEq]
      exact if_neg hRefused

/- What is let in is put behind the content. -/
theorem shift_accepted
    {s : LogStream}
    {arg : LogArg}
    (h : s.Roomy)
    (hKept : s.LengthKept arg)
    (hLet : s.Accepts arg) :
    ∃ b,
      s.shift arg = some { buffer := b } ∧
        b.cur = s.buffer.cur + arg.piece.length ∧
        b.cur < kSmallBuffer ∧
        b.content = s.buffer.content ++ arg.piece := by
  have hAvail := h.avail
  cases hKind : arg.isNumeric with
  | false =>
      have hLess := hKept hKind hLet
      have hFits :
          s.buffer.cur + arg.piece.length < kSmallBuffer := by
        omega
      unfold Accepts at hLet
      rw [hKind, if_neg Bool.false_ne_true] at hLet
      rcases BufferArea.append_of_room hLet hFits with
        ⟨b, hAppend, hCur, hContent⟩
      refine ⟨b, ?_, hCur, hCur.trans_lt hFits, hContent⟩
      rw [shift_of_bytes s hKind]
      unfold append
      rw [hAppend, Option.map_some]
  | true =>
      rcases shift_of_numeric s hKind with
        ⟨print, hPrints, hShort, hEq⟩
      unfold Accepts at hLet
      rw [hKind, if_pos rfl] at hLet
      have hFits :
          s.buffer.cur + arg.piece.length < kSmallBuffer := by
        omega
      rcases BufferArea.printAt_of_prints hPrints hFits with
        ⟨b, hPrint, hCur, hContent⟩
      refine ⟨b, ?_, hCur, hCur.trans_lt hFits, hContent⟩
      rw [hEq]
      unfold printNumeric
      rw [if_pos hLet, hPrint, Option.map_some]

/- An argument whose length is kept stays in the buffer. -/
theorem shift_of_lengthKept
    {s : LogStream}
    {arg : LogArg}
    (h : s.Roomy)
    (hKept : s.LengthKept arg) :
    ∃ t, s.shift arg = some t ∧ s.Shifted arg t := by
  by_cases hLet : s.Accepts arg
  · rcases shift_accepted h hKept hLet with
      ⟨b, hShift, -, hRoom, hContent⟩
    exact
      ⟨_, hShift,
        { roomy := hRoom
          content := by rw [if_pos hLet]; exact hContent }⟩
  · exact
      ⟨s, shift_refused hLet,
        { roomy := h
          content := by rw [if_neg hLet, List.append_nil] }⟩

/-
  Bytes let in against their length are 2 ^ 31 or more, and
  their copy leaves the buffer.
-/
theorem shift_of_not_lengthKept
    {s : LogStream}
    {arg : LogArg}
    (h : s.Roomy)
    (hLost : ¬ s.LengthKept arg) :
    s.shift arg = none := by
  have hAvail := h.avail
  unfold LengthKept at hLost
  push Not at hLost
  rcases hLost with ⟨hKind, hLet, hOver⟩
  unfold Accepts at hLet
  rw [hKind, if_neg Bool.false_ne_true] at hLet
  have hLong : 2 ^ 31 ≤ arg.piece.length := by
    by_contra hShort
    have hSame :
        toInt32 arg.piece.length = arg.piece.length :=
      toInt32_of_isInt32 ⟨by omega, by omega⟩
    omega
  have hEnd : kSmallBuffer < 2 ^ 31 := by decide
  rw [shift_of_bytes s hKind]
  unfold append
  rw [BufferArea.append_overrun hLet (by omega),
    Option.map_none]

end LogStream

end V3

end WebServer

------------------------------------------------------------
-- Whole Runs
------------------------------------------------------------

namespace WebServer

namespace V3

/-
  The length is inside the buffer, and the content is the
  pieces let in, each whole, in their order.
-/
structure WholePieces
    (r : LogStream × List Bytes) : Prop where
  nonneg : 0 ≤ r.1.buffer.length
  inside : r.1.buffer.length < kSmallBuffer
  content : r.1.buffer.content = r.2.flatten

/- The invariant of the stream and its record. -/
structure StreamFilled
    (r : LogStream × List Bytes) : Prop where
  roomy : r.1.Roomy
  content : r.1.buffer.content = r.2.flatten

theorem StreamFilled.wholePieces
    {r : LogStream × List Bytes}
    (h : StreamFilled r) :
    WholePieces r := by
  have hLength :=
    BufferArea.length_of_le (by decide)
      (Nat.le_of_lt h.roomy)
  have hRoomy := h.roomy
  unfold LogStream.Roomy at hRoomy
  exact
    { nonneg := by omega
      inside := by omega
      content := h.content }

theorem LogStream.roomy_new
    (data : { d : Bytes // d.length = kSmallBuffer }) :
    (LogStream.new data).Roomy :=
  show 0 < 4000 by decide

/- One argument keeps the invariant if its length is kept. -/
theorem StreamFilled.shift
    {r : LogStream × List Bytes}
    {arg : LogArg}
    (h : StreamFilled r)
    (hKept : r.1.LengthKept arg) :
    ∃ r',
      (streamMachine.recording noteAccepted).step r arg =
          some r' ∧
        StreamFilled r' := by
  rcases LogStream.shift_of_lengthKept h.roomy hKept with
    ⟨t, hShift, hShifted⟩
  refine
    ⟨(t, noteAccepted r.1 arg r.2),
      Machine.recording_step_some hShift, hShifted.roomy, ?_⟩
  show t.buffer.content = (noteAccepted r.1 arg r.2).flatten
  rw [hShifted.content, h.content]
  unfold noteAccepted
  split
  next => rw [List.flatten_append, List.flatten_singleton]
  next => rw [List.append_nil]

/-
  In a run over any arguments no byte is written outside of
  the buffer, its length stays below the size and its content
  is the pieces let in, exactly when every length of bytes
  that comes out below the room as an `int` is below it.
-/
theorem logStream_sound_iff
    (data : { d : Bytes // d.length = kSmallBuffer })
    (args : List LogArg) :
    (streamMachine.recording noteAccepted).Throughout
        WholePieces (LogStream.new data, []) args ↔
      (streamMachine.recording noteAccepted).StepsMeet
        (fun r arg => r.1.LengthKept arg)
        (LogStream.new data, []) args := by
  apply Machine.throughout_iff_stepsMeet (I := StreamFilled)
  · intro r hFilled
    exact hFilled.wholePieces
  · intro r arg hFilled _ hKept
    exact hFilled.shift hKept
  · intro r arg hFilled _ hLost r' hStep
    rcases Option.map_eq_some_iff.mp hStep with
      ⟨t, hShift, -⟩
    have hSome : r.1.shift arg = some t := hShift
    rw [LogStream.shift_of_not_lengthKept hFilled.roomy hLost]
      at hSome
    cases hSome
  · exact
      { roomy := LogStream.roomy_new data
        content := BufferArea.content_new data }

/- A run is lost with a length that is not kept. -/
theorem not_wholePieces_of_not_lengthKept
    {s : LogStream}
    {arg : LogArg}
    (h : s.Roomy)
    (hLost : ¬ s.LengthKept arg)
    (pieces : List Bytes)
    (args : List LogArg) :
    ¬ (streamMachine.recording noteAccepted).Throughout
        WholePieces (s, pieces) (arg :: args) := by
  intro hAll
  rcases hAll.2 trivial with ⟨r, hStep, -⟩
  rcases Option.map_eq_some_iff.mp hStep with ⟨t, hShift, -⟩
  have hSome : s.shift arg = some t := hShift
  rw [LogStream.shift_of_not_lengthKept h hLost] at hSome
  cases hSome

/- A string of 2 GiB, whose `int` length is negative. -/
theorem logStream_overrun :
    ¬ (streamMachine.recording noteAccepted).Throughout
        WholePieces
        (LogStream.new
          ⟨List.replicate kSmallBuffer 0,
            List.length_replicate⟩, [])
        [.string (List.replicate (2 ^ 31) 97)] := by
  let s :=
    LogStream.new
      ⟨List.replicate kSmallBuffer 0, List.length_replicate⟩
  let arg := LogArg.string (List.replicate (2 ^ 31) 97)
  have hRoomy : s.Roomy := LogStream.roomy_new _
  have hAvail : s.buffer.avail = 4000 := hRoomy.avail
  have hLength : arg.piece.length = 2 ^ 31 :=
    List.length_replicate
  have hLet : s.Accepts arg := by
    show toInt32 (arg.piece.length : Int) < s.buffer.avail
    rw [hLength, hAvail]
    decide
  have hLost : ¬ s.LengthKept arg := by
    intro hKept
    have hLess := hKept rfl hLet
    rw [hLength, hAvail] at hLess
    revert hLess
    decide
  exact
    not_wholePieces_of_not_lengthKept hRoomy hLost [] []

end V3

end WebServer
