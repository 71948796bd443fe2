import Mathlib.Data.List.TakeWhile
import WebServer.Library.CString
import WebServer.Library.StdString

/-
  How a client finds the end of a message on a connection
  that stays open.

  The head of a message is lines ended by CR and LF, up to
  an empty one. One of them says how many bytes follow, and
  some messages have no body whatever it says. The reader
  is told which; what it reads does not depend on the bytes
  behind the message.

  Key definitions include:
    * `MessageFraming.readHead`
    * `MessageFraming.joinLines`
    * `MessageFraming.bodyLength`
    * `MessageFraming.Framed`
    * `MessageFraming.nextMessage`
    * `MessageFraming.Message`
    * `MessageFraming.readMessages`

  Key theorems include:
    * `MessageFraming.readHead_joinLines`
    * `MessageFraming.numeral_toString`
    * `MessageFraming.Framed.nextMessage`
    * `MessageFraming.Message.Ends.cut`
    * `MessageFraming.readMessages_front`
-/

------------------------------------------------------------
-- Heads
------------------------------------------------------------

namespace MessageFraming

/-
  The lines up to the empty one and the bytes behind it;
  `line` is what was read of the current line.
-/
def readHead
    (line : List UInt8) :
    List UInt8 → Option (List (List UInt8) × List UInt8)
| 13 :: 10 :: rest =>
    if line = [] then
      some ([], rest)
    else
      (readHead [] rest).map fun out =>
        (line :: out.1, out.2)
| b :: rest => readHead (line ++ [b]) rest
| [] => none

/- The text of a head without its empty line. -/
def joinLines
    (lines : List (List UInt8)) : List UInt8 :=
  lines.flatMap (· ++ [13, 10])

theorem readHead_cons
    {b : UInt8}
    {after : List UInt8}
    (hNot : b = 13 → after.head? ≠ some 10)
    (line : List UInt8) :
    readHead line (b :: after) =
      readHead (line ++ [b]) after := by
  rw [readHead]
  rintro rest hCr rfl
  exact hNot hCr rfl

theorem readHead_line
    {text : List UInt8}
    (hCr : 13 ∉ text)
    (line rest : List UInt8) :
    readHead line (text ++ 13 :: 10 :: rest) =
      readHead (line ++ text) (13 :: 10 :: rest) := by
  induction text generalizing line with
  | nil => rw [List.nil_append, List.append_nil]
  | cons b text ih =>
      rw [List.mem_cons, not_or] at hCr
      have hNot : b = 13 →
          (text ++ 13 :: 10 :: rest).head? ≠ some 10 :=
        fun hEq => absurd hEq.symm hCr.1
      rw [List.cons_append, readHead_cons hNot, ih hCr.2,
        List.append_assoc]
      rfl

/- A head is read as the lines it was made of. -/
theorem readHead_joinLines
    {lines : List (List UInt8)}
    (hLines : ∀ line ∈ lines, line ≠ [] ∧ 13 ∉ line)
    (body : List UInt8) :
    readHead [] (joinLines lines ++ 13 :: 10 :: body) =
      some (lines, body) := by
  induction lines with
  | nil => rfl
  | cons line lines ih =>
      rw [List.forall_mem_cons] at hLines
      have hText :
          joinLines (line :: lines) ++ 13 :: 10 :: body =
            line ++ 13 :: 10 ::
              (joinLines lines ++ 13 :: 10 :: body) := by
        simp [joinLines]
      rw [hText, readHead_line hLines.1.2, List.nil_append,
        readHead, if_neg hLines.1.1, ih hLines.2]
      rfl

/- Bytes behind a message do not change its head. -/
theorem readHead_append
    {line message body : List UInt8}
    {lines : List (List UInt8)}
    (hRead : readHead line message = some (lines, body))
    (rest : List UInt8) :
    readHead line (message ++ rest) =
      some (lines, body ++ rest) := by
  fun_induction readHead line message generalizing lines with
  | case1 after =>
      cases hRead
      rfl
  | case2 line after hLine ih =>
      rcases Option.map_eq_some_iff.mp hRead with
        ⟨⟨lines', body'⟩, hAfter, hEq⟩
      cases hEq
      rw [List.cons_append, List.cons_append, readHead,
        if_neg hLine, ih hAfter]
      rfl
  | case3 line b after hNot ih =>
      cases after with
      | nil => cases hRead
      | cons x after =>
          have hHead : b = 13 →
              (x :: after ++ rest).head? ≠ some 10 := by
            rintro hCr hLf
            cases hLf
            exact hNot after hCr rfl
          rw [List.cons_append, readHead_cons hHead]
          exact ih hRead
  | case4 line => cases hRead

end MessageFraming

------------------------------------------------------------
-- Lengths
------------------------------------------------------------

namespace MessageFraming

open CString StdString

/- The number that a run of digits spells. -/
def numeral
    (value : List UInt8) : Option Nat :=
  if value ≠ [] ∧ value.all isDigit then
    some (digitsValue value)
  else
    none

/- The name of the field, in small letters. -/
def lengthName : List UInt8 :=
  "content-length:".toUTF8.data.toList

/- The value of the line, if it gives the length. -/
def contentLength
    (line : List UInt8) : Option (List UInt8) :=
  if strcaseEq (line.take lengthName.length) lengthName then
    some ((line.drop lengthName.length).dropWhile (· == 32))
  else
    none

/-
  How many bytes follow the head: there is one line with the
  length, and it is a number.
-/
def bodyLength
    (bodiless : Bool)
    (lines : List (List UInt8)) : Option Nat :=
  match lines.filterMap contentLength with
  | [value] =>
      (numeral value).map fun n => if bodiless then 0 else n
  | _ => none

/-
  A status line, header lines with exactly one length, the
  empty line, and as many bytes as they say.
-/
def Framed
    (bodiless : Bool)
    (status message : List UInt8) : Prop :=
  ∃ lines body,
    readHead [] message = some (status :: lines, body) ∧
      bodyLength bodiless lines = some body.length

/- The body of the first message received, and the rest. -/
def nextMessage
    (bodiless : Bool)
    (received : List UInt8) :
    Option (List UInt8 × List UInt8) := do
  let (lines, after) ← readHead [] received
  let n ← bodyLength bodiless lines.tail
  if n ≤ after.length then
    some (after.take n, after.drop n)
  else
    none

/- A client finds the end of a framed message. -/
theorem Framed.nextMessage
    {bodiless : Bool}
    {status message : List UInt8}
    (h : Framed bodiless status message) :
    ∃ body, ∀ rest,
      nextMessage bodiless (message ++ rest) =
        some (body, rest) := by
  rcases h with ⟨lines, body, hRead, hLength⟩
  refine ⟨body, fun rest => ?_⟩
  unfold MessageFraming.nextMessage
  rw [readHead_append hRead]
  simp only [Option.bind_eq_bind, Option.bind_some,
    List.tail_cons, hLength, List.length_append,
    Nat.le_add_right, if_true, List.take_left,
    List.drop_left]

/- A digit is a byte of its own. -/
theorem byte_of_isDigit
    {c : Char}
    (hDigit : c.isDigit = true) :
    String.utf8EncodeChar c = [c.val.toUInt8] ∧
      c.val.toUInt8.toNat = c.toNat ∧
      isDigit c.val.toUInt8 = true := by
  simp only [Char.isDigit, Bool.and_eq_true,
    decide_eq_true_eq, ge_iff_le, UInt32.le_iff_toNat_le]
    at hDigit
  have hLow : '0'.val.toNat = 48 := rfl
  have hHigh : '9'.val.toNat = 57 := rfl
  have hByte : c.val.toUInt8.toNat = c.toNat := by
    rw [UInt32.toNat_toUInt8, Nat.mod_eq_of_lt (by omega)]
    rfl
  have hSame : c.toNat = c.val.toNat := rfl
  refine ⟨?_, hByte, ?_⟩
  · apply String.utf8EncodeChar_eq_singleton
    rw [Char.utf8Size_eq_one_iff, UInt32.le_iff_toNat_le]
    have h127 : (127 : UInt32).toNat = 127 := rfl
    omega
  · have hLow' : (48 : UInt8).toNat = 48 := rfl
    have hHigh' : (57 : UInt8).toNat = 57 := rfl
    simp only [isDigit, Bool.and_eq_true, decide_eq_true_eq,
      UInt8.le_iff_toNat_le]
    omega

/- The bytes of the digits of a number. -/
theorem toUTF8_toString
    (n : Nat) :
    (toString n).toUTF8.data.toList =
      (Nat.toDigits 10 n).map fun c => c.val.toUInt8 := by
  have hFlat : ∀ l : List Char,
      (∀ c ∈ l, c.isDigit = true) →
        l.flatMap String.utf8EncodeChar =
          l.map fun c => c.val.toUInt8 := by
    intro l hDigits
    induction l with
    | nil => rfl
    | cons c l ih =>
        rw [List.forall_mem_cons] at hDigits
        rw [List.flatMap_cons, List.map_cons,
          (byte_of_isDigit hDigits.1).1, ih hDigits.2]
        rfl
  rw [Nat.toString_eq_ofList_toDigits, String.toUTF8,
    String.toByteArray_ofList, List.utf8Encode,
    List.data_toByteArray]
  apply hFlat
  intro c hMem
  exact
    Nat.isDigit_of_mem_toDigits (by decide) (by decide) hMem

theorem isDigit_of_mem_toString
    {n : Nat}
    {b : UInt8}
    (hMem : b ∈ (toString n).toUTF8.data.toList) :
    isDigit b = true := by
  rw [toUTF8_toString] at hMem
  rcases List.mem_map.mp hMem with ⟨c, hC, rfl⟩
  have hDigit :=
    Nat.isDigit_of_mem_toDigits (by decide) (by decide) hC
  exact (byte_of_isDigit hDigit).2.2

theorem length_toString_le
    {n k : Nat}
    (hPos : 0 < k)
    (hSmall : n < 10 ^ k) :
    (toString n).toUTF8.data.toList.length ≤ k := by
  rw [toUTF8_toString, List.length_map]
  exact
    (Nat.length_toDigits_le_iff (by decide) hPos).mpr hSmall

/- A number is read as it was written. -/
theorem numeral_toString
    (n : Nat) :
    numeral (toString n).toUTF8.data.toList = some n := by
  have hDigits : ∀ c ∈ Nat.toDigits 10 n,
      c.isDigit = true := fun c hMem =>
    Nat.isDigit_of_mem_toDigits (by decide) (by decide) hMem
  have hValue : ∀ (l : List Char) (start : Nat),
      (∀ c ∈ l, c.isDigit = true) →
        (l.map fun c => c.val.toUInt8).foldl
            (fun n d => 10 * n + (d.toNat - 48)) start =
          Nat.ofDigitChars 10 l start := by
    intro l start hAll
    induction l generalizing start with
    | nil => rfl
    | cons c l ih =>
        rw [List.forall_mem_cons] at hAll
        rw [List.map_cons, List.foldl_cons, ih _ hAll.2,
          Nat.ofDigitChars_cons, (byte_of_isDigit hAll.1).2.1]
        rfl
  have hText := toUTF8_toString n
  unfold numeral digitsValue
  rw [if_pos, hText, hValue _ _ hDigits,
    Nat.ofDigitChars_ten_toDigits]
  constructor
  · rw [hText, ne_eq, List.map_eq_nil_iff]
    exact Nat.toDigits_ne_nil
  · rw [List.all_eq_true]
    intro b hMem
    exact isDigit_of_mem_toString hMem

/- A field line that gives the length. -/
theorem contentLength_field
    {name : List UInt8}
    (hName : strcaseEq name lengthName = true)
    (n : Nat) :
    contentLength
        (name ++ 32 :: (toString n).toUTF8.data.toList) =
      some (toString n).toUTF8.data.toList := by
  have hLen : name.length = lengthName.length := by
    unfold strcaseEq at hName
    rw [beq_iff_eq] at hName
    have hMap := congrArg List.length hName
    rwa [List.length_map, List.length_map] at hMap
  have hDigits :
      (toString n).toUTF8.data.toList.dropWhile (· == 32) =
        (toString n).toUTF8.data.toList := by
    rw [List.dropWhile_eq_self_iff]
    intro hPos hBlank
    have hDigit :=
      isDigit_of_mem_toString (List.getElem_mem hPos)
    rw [beq_iff_eq.mp hBlank] at hDigit
    exact absurd hDigit (by decide)
  unfold contentLength
  rw [← hLen, List.take_left, List.drop_left, hName,
    if_pos rfl, List.dropWhile_cons_of_pos rfl, hDigits]

end MessageFraming

------------------------------------------------------------
-- Streams
------------------------------------------------------------

namespace MessageFraming

/- A message, and whether its reader expects no body. -/
structure Message where
  bodiless : Bool
  text : List UInt8
  body : List UInt8
deriving DecidableEq, Repr

/- Read messages while a whole one is there. -/
def readMessages :
    List Bool → List UInt8 →
      List (List UInt8) × List UInt8
| [], received => ([], received)
| bodiless :: others, received =>
    match nextMessage bodiless received with
    | none => ([], received)
    | some (body, rest) =>
        let out := readMessages others rest
        (body :: out.1, out.2)

namespace Message

/- Its reader finds the body, and the end of the text. -/
def Ends
    (m : Message) : Prop :=
  ∃ lines,
    readHead [] m.text = some (lines, m.body) ∧
      bodyLength m.bodiless lines.tail = some m.body.length

/- The reader goes on behind the message. -/
theorem Ends.next
    {m : Message}
    (h : m.Ends)
    (rest : List UInt8) :
    nextMessage m.bodiless (m.text ++ rest) =
      some (m.body, rest) := by
  rcases h with ⟨lines, hRead, hLength⟩
  unfold nextMessage
  rw [readHead_append hRead]
  simp only [Option.bind_eq_bind, Option.bind_some,
    hLength, List.length_append, Nat.le_add_right, if_true,
    List.take_left, List.drop_left]

/- The reader waits for the last byte of the message. -/
theorem Ends.cut
    {m : Message}
    {front : List UInt8}
    (h : m.Ends)
    (hFront : front <+: m.text)
    (hCut : front ≠ m.text) :
    nextMessage m.bodiless front = none := by
  rcases h with ⟨lines, hRead, hLength⟩
  rcases hFront with ⟨back, hText⟩
  have hBack : back ≠ [] := by
    rintro rfl
    rw [List.append_nil] at hText
    exact hCut hText
  unfold nextMessage
  cases hHead : readHead [] front with
  | none => rfl
  | some out =>
      rcases out with ⟨lines', after⟩
      have hWhole := readHead_append hHead back
      rw [hText, hRead, Option.some.injEq, Prod.mk.injEq]
        at hWhole
      rcases hWhole with ⟨rfl, hBody⟩
      have hMissing : ¬ m.body.length ≤ after.length := by
        have hPos := List.length_pos_iff.mpr hBack
        rw [hBody, List.length_append]
        omega
      simp only [Option.bind_eq_bind, Option.bind_some,
        hLength, if_neg hMissing]

end Message

theorem readMessages_nil
    (bodiless : List Bool) :
    readMessages bodiless [] = ([], []) := by
  cases bodiless with
  | nil => rfl
  | cons b bodiless => rfl

/- A stream that was received in full is read in full. -/
theorem readMessages_all
    {ms : List Message}
    (hEnds : ∀ m ∈ ms, m.Ends)
    (more : List Bool) :
    readMessages (ms.map Message.bodiless ++ more)
        (ms.flatMap Message.text) =
      (ms.map Message.body, []) := by
  induction ms with
  | nil => exact readMessages_nil more
  | cons m ms ih =>
      rw [List.forall_mem_cons] at hEnds
      rw [List.map_cons, List.cons_append,
        List.flatMap_cons, readMessages, hEnds.1.next]
      simp only [ih hEnds.2, List.map_cons]

/-
  Of the front of a stream the messages that are there in
  full are read, each as itself, and the front of the next
  is left.
-/
theorem readMessages_front
    {ms : List Message}
    {received : List UInt8}
    (hEnds : ∀ m ∈ ms, m.Ends)
    (hFront : received <+: ms.flatMap Message.text)
    (more : List Bool) :
    ∃ got rest,
      got <+: ms ∧
        received = got.flatMap Message.text ++ rest ∧
        readMessages (ms.map Message.bodiless ++ more)
            received =
          (got.map Message.body, rest) ∧
        (got = ms → rest = []) := by
  induction ms generalizing received with
  | nil =>
      have hNil := List.prefix_nil.mp hFront
      subst hNil
      exact
        ⟨[], [], List.prefix_rfl, rfl, readMessages_nil more,
          fun _ => rfl⟩
  | cons m ms ih =>
      rw [List.forall_mem_cons] at hEnds
      rw [List.flatMap_cons] at hFront
      by_cases hWhole : m.text <+: received
      · rcases hWhole with ⟨after, rfl⟩
        rw [List.prefix_append_right_inj] at hFront
        rcases ih hEnds.2 hFront with
          ⟨got, rest, hGot, hAfter, hRead, hAll⟩
        refine
          ⟨m :: got, rest, ?_, ?_, ?_, ?_⟩
        · rwa [List.prefix_cons_inj]
        · rw [hAfter, List.flatMap_cons, List.append_assoc]
        · rw [List.map_cons, List.cons_append, readMessages,
            hEnds.1.next]
          simp only [hRead, List.map_cons]
        · intro hSame
          exact hAll (List.cons.inj hSame).2
      · have hPart : received <+: m.text :=
          (List.prefix_or_prefix_of_prefix hFront
            (List.prefix_append m.text _)).resolve_right
              hWhole
        have hCut : received ≠ m.text := by
          rintro rfl
          exact hWhole List.prefix_rfl
        refine
          ⟨[], received, List.nil_prefix, rfl, ?_, ?_⟩
        · rw [List.map_cons, List.cons_append, readMessages,
            hEnds.1.cut hPart hCut]
          rfl
        · intro hSame
          cases hSame

end MessageFraming
