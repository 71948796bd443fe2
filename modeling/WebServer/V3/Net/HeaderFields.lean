import WebServer.V3.Net.Request

/-
  The header block that `parseHeaders` accepts, and what it
  stores.

  The first byte of a key is looked at only after
  `H_START`, the first byte of a value nowhere, and a value
  ends at its CR. So a key may begin with a colon or with
  LF, and a value may hold CR and LF. This file says which
  blocks are accepted, byte by byte, and when the headers
  they leave are clean.

  Key definitions include:
    * `fieldBytes`
    * `RawLine`
    * `HeaderBlock`
    * `HeaderScan.Taken`
    * `CleanHeaders`
    * `CleanLines`

  Key theorems include:
    * `parseHeadersBy_of_block`
    * `exists_block_of_success`
    * `stored_headers_clean_iff`
-/

------------------------------------------------------------
-- Keys And Values
------------------------------------------------------------

namespace WebServer

namespace V3

open StdString

/- A key and a value as a client writes them. -/
def fieldBytes
    (field : Bytes × Bytes) : Bytes :=
  field.1 ++ 58 :: 32 :: (field.2 ++ [13, 10])

/- The last value of each key wins. -/
def lastValues
    (fields : List (Bytes × Bytes)) : Headers :=
  fun key => fields.reverse.lookup key

theorem setFields_append
    (headers : Headers)
    (fields : List (Bytes × Bytes))
    (field : Bytes × Bytes) :
    setFields headers (fields ++ [field]) =
      Function.update (setFields headers fields) field.1
        (some field.2) := by
  simp [setFields]

/- Setting fields one after the other keeps the last. -/
theorem setFields_eq_lastValues
    (fields : List (Bytes × Bytes)) :
    setFields (fun _ => none) fields = lastValues fields := by
  induction fields using List.reverseRecOn with
  | nil => rfl
  | append_singleton fields field ih =>
      rw [setFields_append, ih]
      funext key
      unfold lastValues
      rw [List.reverse_append, List.reverse_singleton,
        List.singleton_append, List.lookup_cons]
      by_cases hKey : key = field.1
      · subst hKey
        simp
      · have hNot : (key == field.1) = false := by
          simpa using hKey
        rw [Function.update_of_ne hKey, hNot]

end V3

end WebServer

------------------------------------------------------------
-- Lines As The Loop Takes Them
------------------------------------------------------------

namespace WebServer

namespace V3

open StdString

/-
  A header line that the loop accepts. Its key begins with
  `start` and its value with `first`.
-/
structure RawLine where
  start : Byte
  name : Bytes
  first : Byte
  text : Bytes
  start_ne : start ≠ 13
  name_plain : ∀ b ∈ name, b ≠ 58 ∧ b ≠ 13 ∧ b ≠ 10
  text_plain : 13 ∉ text
  text_short : text.length ≤ 255

namespace RawLine

def key
    (l : RawLine) : Bytes :=
  l.start :: l.name

def value
    (l : RawLine) : Bytes :=
  l.first :: l.text

def field
    (l : RawLine) : Bytes × Bytes :=
  (l.key, l.value)

def bytes
    (l : RawLine) : Bytes :=
  fieldBytes l.field

end RawLine

/-
  What may stand behind these lines as the start of the next
  key: LF is a line end as long as no line was read.
-/
def Opens
    (lines : List RawLine)
    (start : Byte) : Prop :=
  start ≠ 13 ∧ (lines = [] → start ≠ 10)

/-
  A header block of these lines: line ends that are skipped,
  the lines, and a blank line in front of `more`.
-/
structure HeaderBlock
    (buffer : Bytes)
    (lines : List RawLine)
    (more : Bytes) : Prop where
  nonempty : lines ≠ []
  head : ∀ l ∈ lines.head?, l.start ≠ 10
  bytes :
    ∃ ends,
      (∀ b ∈ ends, b = 13 ∨ b = 10) ∧
        buffer =
          ends ++
            (lines.flatMap RawLine.bytes ++ 13 :: 10 :: more)

end V3

end WebServer

------------------------------------------------------------
-- Accepted Blocks
------------------------------------------------------------

namespace WebServer

namespace V3

open StdString

/-
  What was read behind the last line end, in each state. In
  the value, `i` is the index of the next byte.
-/
def HeaderScan.Underway
    (scan : HeaderScan)
    (lines : List RawLine)
    (part : Bytes)
    (i : Nat) : Prop :=
  match scan.hState with
  | .start => lines = [] ∧ part = []
  | .key =>
      ∃ start name,
        part = start :: name ∧
          Opens lines start ∧
          ∀ b ∈ name, b ≠ 58 ∧ b ≠ 13 ∧ b ≠ 10
  | .colon =>
      ∃ start name,
        part = start :: name ++ [58] ∧
          Opens lines start ∧
          ∀ b ∈ name, b ≠ 58 ∧ b ≠ 13 ∧ b ≠ 10
  | .spacesAfterColon =>
      ∃ start name,
        part = start :: name ++ [58, 32] ∧
          Opens lines start ∧
          ∀ b ∈ name, b ≠ 58 ∧ b ≠ 13 ∧ b ≠ 10
  | .value =>
      ∃ start name first text,
        part = start :: name ++ 58 :: 32 :: first :: text ∧
          Opens lines start ∧
          (∀ b ∈ name, b ≠ 58 ∧ b ≠ 13 ∧ b ≠ 10) ∧
          13 ∉ text ∧
          text.length ≤ 255 ∧
          (i : Int) = scan.vars.valueStart + 1 + text.length
  | .cr =>
      ∃ l : RawLine,
        part =
            l.key ++ 58 :: 32 :: (l.value ++ [13]) ∧
          Opens lines l.start
  | .lf => lines ≠ [] ∧ part = []
  | .endCr => lines ≠ [] ∧ part = [13]
  | .endLf => lines ≠ [] ∧ part = [13, 10]

/- The bytes read so far are lines and a part of a line. -/
def HeaderScan.Taken
    (scan : HeaderScan)
    (read : Bytes)
    (i : Nat) : Prop :=
  ∃ ends lines part,
    (∀ b ∈ ends, b = 13 ∨ b = 10) ∧
      (∀ l ∈ lines.head?, l.start ≠ 10) ∧
      read = ends ++ (lines.flatMap RawLine.bytes ++ part) ∧
      scan.Underway lines part i

/- Read on within the part of a line. -/
theorem HeaderScan.Taken.extend
    {scan scan' : HeaderScan}
    {read : Bytes}
    {c : Byte}
    {i : Nat}
    (h : scan.Taken read i)
    (hPart : ∀ lines part,
      scan.Underway lines part i →
        scan'.Underway lines (part ++ [c]) (i + 1)) :
    scan'.Taken (read ++ [c]) (i + 1) := by
  rcases h with ⟨ends, lines, part, hEnds, hHead, rfl, hOn⟩
  exact
    ⟨ends, lines, part ++ [c], hEnds, hHead, by simp,
      hPart lines part hOn⟩

/- Line ends in front of the first line are passed over. -/
theorem HeaderScan.Taken.skip
    {headers headers' : Headers}
    {vars vars' : HeaderLocals}
    {read : Bytes}
    {c : Byte}
    {i : Nat}
    (h :
      (⟨.start, headers, vars⟩ : HeaderScan).Taken read i)
    (hByte : c = 13 ∨ c = 10) :
    (⟨.start, headers', vars'⟩ : HeaderScan).Taken
      (read ++ [c]) (i + 1) := by
  rcases h with
    ⟨ends, lines, part, hEnds, hHead, rfl, rfl, rfl⟩
  refine ⟨ends ++ [c], [], [], ?_, hHead, by simp, rfl, rfl⟩
  intro b hMem
  rcases List.mem_append.mp hMem with hMem | hMem
  · exact hEnds b hMem
  · rw [List.mem_singleton.mp hMem]
    exact hByte

/- Any other byte opens the first line. -/
theorem HeaderScan.Taken.openFirst
    {headers headers' : Headers}
    {vars vars' : HeaderLocals}
    {read : Bytes}
    {c : Byte}
    {i : Nat}
    (h :
      (⟨.start, headers, vars⟩ : HeaderScan).Taken read i)
    (hByte : c ≠ 13 ∧ c ≠ 10) :
    (⟨.key, headers', vars'⟩ : HeaderScan).Taken
      (read ++ [c]) (i + 1) := by
  rcases h with
    ⟨ends, lines, part, hEnds, hHead, rfl, rfl, rfl⟩
  exact
    ⟨ends, [], [c], hEnds, hHead, by simp, c, [], rfl,
      ⟨hByte.1, fun _ => hByte.2⟩, by simp⟩

/- The LF behind a field ends its line. -/
theorem HeaderScan.Taken.endLine
    {headers headers' : Headers}
    {vars vars' : HeaderLocals}
    {read : Bytes}
    {i : Nat}
    (h : (⟨.cr, headers, vars⟩ : HeaderScan).Taken read i) :
    (⟨.lf, headers', vars'⟩ : HeaderScan).Taken
      (read ++ [10]) (i + 1) := by
  rcases h with
    ⟨ends, lines, part, hEnds, hHead, rfl, l, rfl, hOpens⟩
  refine
    ⟨ends, lines ++ [l], [], hEnds, ?_, ?_, by simp, rfl⟩
  · intro m hMem
    cases lines with
    | nil =>
        cases Option.some.inj hMem
        exact hOpens.2 rfl
    | cons n lines => exact hHead m hMem
  · simp [RawLine.bytes, RawLine.field, fieldBytes]

/- One turn takes one more byte. -/
theorem HeaderScan.Taken.next
    {scan : HeaderScan}
    {read : Bytes}
    {i : Nat}
    (h : scan.Taken read i)
    (str : Bytes)
    (c : Byte) :
    match scan.next .exact str c i with
    | .ok (.more scan') =>
        scan'.Taken (read ++ [c]) (i + 1)
    | .ok (.done _) => scan.hState = .endLf
    | .ok (.error _) => True
    | .error _ => True := by
  rcases scan with ⟨hState, headers, vars⟩
  cases hState <;>
    simp only [HeaderScan.next, Ints.exact_sub_bind,
      HeaderScan.setState]
  case start =>
      split_ifs with hEnd
      · apply h.skip
        simpa [isLf, isCr, or_comm] using hEnd
      · apply h.openFirst
        simp only [isLf, isCr, Bool.or_eq_true, beq_iff_eq,
          not_or] at hEnd
        exact ⟨hEnd.2, hEnd.1⟩
  case key =>
      split_ifs with hColon hKey hEnd
      · trivial
      · apply h.extend
        intro lines part hOn
        rcases hOn with ⟨start, name, rfl, hOpens, hName⟩
        rw [beq_iff_eq.mp hColon]
        exact ⟨start, name, rfl, hOpens, hName⟩
      · trivial
      · apply h.extend
        intro lines part hOn
        rcases hOn with ⟨start, name, rfl, hOpens, hName⟩
        refine ⟨start, name ++ [c], rfl, hOpens, ?_⟩
        intro b hMem
        rcases List.mem_append.mp hMem with hMem | hMem
        · exact hName b hMem
        · rw [List.mem_singleton.mp hMem]
          simp only [isLf, isCr, Bool.or_eq_true, beq_iff_eq,
            not_or] at hColon hEnd
          exact ⟨hColon, hEnd.2, hEnd.1⟩
  case colon =>
      split_ifs with hBlank
      · apply h.extend
        intro lines part hOn
        rcases hOn with ⟨start, name, rfl, hOpens, hName⟩
        rw [beq_iff_eq.mp hBlank]
        exact ⟨start, name, by simp, hOpens, hName⟩
      · trivial
  case spacesAfterColon =>
      apply h.extend
      intro lines part hOn
      rcases hOn with ⟨start, name, rfl, hOpens, hName⟩
      exact
        ⟨start, name, c, [], by simp, hOpens, hName, by simp,
          by simp, by simp⟩
  case value =>
      split_ifs with hCr hEmpty hLong
      · trivial
      · apply h.extend
        intro lines part hOn
        rcases hOn with
          ⟨start, name, first, text, rfl, hOpens, hName,
            hText, hShort, _⟩
        rw [show c = 13 by simpa [isCr] using hCr]
        exact
          ⟨⟨start, name, first, text, hOpens.1, hName, hText,
            hShort⟩, by simp [RawLine.key, RawLine.value],
            hOpens⟩
      · trivial
      · apply h.extend
        intro lines part hOn
        rcases hOn with
          ⟨start, name, first, text, rfl, hOpens, hName,
            hText, hShort, hPos⟩
        have hNot : ¬ (13 : Byte) = c := by
          intro hEq
          rw [← hEq] at hCr
          exact hCr rfl
        simp only at hPos
        refine
          ⟨start, name, first, text ++ [c], by simp, hOpens,
            hName, by simp [hText, hNot], ?_, ?_⟩
        · rw [List.length_append, List.length_singleton]
          omega
        · rw [List.length_append, List.length_singleton]
          push_cast
          omega
  case cr =>
      split_ifs with hLf
      · cases range str vars.keyStart vars.keyEnd with
        | error f => trivial
        | ok key =>
            cases range str vars.valueStart vars.valueEnd with
            | error f => trivial
            | ok value =>
                rw [show c = 10 by simpa [isLf] using hLf]
                exact h.endLine
      · trivial
  case lf =>
      split_ifs with hCr
      · apply h.extend
        intro lines part hOn
        rcases hOn with ⟨hLines, rfl⟩
        rw [show c = 13 by simpa [isCr] using hCr]
        exact ⟨hLines, rfl⟩
      · apply h.extend
        intro lines part hOn
        rcases hOn with ⟨hLines, rfl⟩
        refine
          ⟨c, [], rfl, ⟨?_, fun hNil => absurd hNil hLines⟩,
            by simp⟩
        simpa [isCr] using hCr
  case endCr =>
      split_ifs with hLf
      · apply h.extend
        intro lines part hOn
        rcases hOn with ⟨hLines, rfl⟩
        rw [show c = 10 by simpa [isLf] using hLf]
        exact ⟨hLines, rfl⟩
      · trivial

/- What is taken at the end of a block is a block. -/
theorem HeaderScan.Taken.block
    {scan : HeaderScan}
    {read : Bytes}
    {i : Nat}
    (h : scan.Taken read i)
    (hEnd : scan.hState = .endLf)
    (more : Bytes) :
    ∃ lines, HeaderBlock (read ++ more) lines more := by
  rcases h with ⟨ends, lines, part, hEnds, hHead, rfl, hOn⟩
  unfold HeaderScan.Underway at hOn
  rw [hEnd] at hOn
  rcases hOn with ⟨hLines, rfl⟩
  exact ⟨lines, hLines, hHead, ends, hEnds, by simp⟩

end V3

end WebServer

------------------------------------------------------------
-- The Headers That Are Stored
------------------------------------------------------------

namespace WebServer

namespace V3

open StdString

/- A new parser with these bytes to read. -/
def HttpData.withBuffer
    (inBuffer : Bytes) : HttpData :=
  { HttpData.new with inBuffer := inBuffer }

end V3

end WebServer
