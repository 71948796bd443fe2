import Mathlib.Data.List.Induction
import WebServer.V3.Net.Passes

/-
  Requests as a client of version 3.0 sends them, and what
  the header loop makes of their header lines.

  The loop takes one blank after the colon for granted and
  the byte after it for the start of a value, whichever byte
  it is. So a line with an empty value takes in the whole
  next line as its value. The loop runs with exact numbers
  here, as in a buffer of less than 2^31 bytes.

  Key definitions include:
    * `HeaderLine`
    * `Request`
    * `ReadsFields`

  Key theorems include:
    * `headerLoop_line`
    * `HttpData.parseHeadersBy_of_readsFields`
    * `stuckOver_of_not_readsFields`
-/

------------------------------------------------------------
-- Requests
------------------------------------------------------------

namespace WebServer

namespace V3

/- A header line: a name, a colon and any text. -/
structure HeaderLine where
  key : Bytes
  text : Bytes
  key_ne : key ≠ []
  key_plain : ∀ b ∈ key, b ≠ 58 ∧ b ≠ 13 ∧ b ≠ 10
  text_plain : ∀ b ∈ text, b ≠ 13 ∧ b ≠ 10

namespace HeaderLine

/- The line without the CR and LF that end it. -/
def content
    (l : HeaderLine) : Bytes :=
  l.key ++ 58 :: l.text

def bytes
    (l : HeaderLine) : Bytes :=
  l.content ++ [13, 10]

/- Blanks and tabs around a value are not part of it. -/
def isBlank
    (c : Byte) : Bool :=
  c == 32 || c == 9

def value
    (l : HeaderLine) : Bytes :=
  ((l.text.dropWhile isBlank).reverse.dropWhile
    isBlank).reverse

end HeaderLine

/- The text of a header block, with the blank line. -/
def headerBytes
    (lines : List HeaderLine) : Bytes :=
  lines.flatMap HeaderLine.bytes ++ [13, 10]

/- Set the headers one after the other. -/
def setFields
    (headers : Headers)
    (fields : List (Bytes × Bytes)) : Headers :=
  fields.foldl
    (fun headers field =>
      Function.update headers field.1 (some field.2))
    headers

def HttpMethod.text :
    HttpMethod → Bytes
| .get => utf8 "GET"
| .head => utf8 "HEAD"
| .post => utf8 "POST"

def HttpVersion.text :
    HttpVersion → Bytes
| .http10 => utf8 "1.0"
| .http11 => utf8 "1.1"

/-
  A request without a body. The target is a path, without
  the slash in front, and maybe a query.
-/
structure Request where
  method : HttpMethod
  path : Bytes
  query : Option Bytes
  version : HttpVersion
  lines : List HeaderLine
  method_ne : method ≠ .post
  path_plain :
    ∀ b ∈ path, b ≠ 32 ∧ b ≠ 13 ∧ b ≠ 10 ∧ b ≠ 63
  query_plain :
    ∀ q, query = some q →
      ∀ b ∈ q, b ≠ 32 ∧ b ≠ 13 ∧ b ≠ 10

namespace Request

def target
    (r : Request) : Bytes :=
  47 :: r.path ++
    match r.query with
    | some q => 63 :: q
    | none => []

/- The request line without the CR and LF that end it. -/
def line
    (r : Request) : Bytes :=
  r.method.text ++ 32 :: (r.target ++
    (utf8 " HTTP/" ++ r.version.text))

def bytes
    (r : Request) : Bytes :=
  r.line ++ 13 :: 10 :: headerBytes r.lines

/- The file asked for. -/
def fileName
    (r : Request) : Bytes :=
  if r.target = [47] then utf8 "index.html" else r.path

/- The headers that the request has. -/
def headers
    (r : Request) : Headers :=
  setFields (fun _ => none)
    (r.lines.map fun l => (l.key, l.value))

theorem mem_target
    {r : Request}
    {b : Byte}
    (hMem : b ∈ r.target) :
    b ≠ 13 ∧ b ≠ 10 := by
  unfold target at hMem
  rcases List.mem_append.mp hMem with hMem | hMem
  · rcases List.mem_cons.mp hMem with rfl | hMem
    · decide
    · have hPlain := r.path_plain b hMem
      exact ⟨hPlain.2.1, hPlain.2.2.1⟩
  · cases hQuery : r.query with
    | none =>
        rw [hQuery] at hMem
        cases hMem
    | some q =>
        rw [hQuery] at hMem
        rcases List.mem_cons.mp hMem with rfl | hMem
        · decide
        · exact (r.query_plain q hQuery b hMem).2

/- There is no CR and no LF in the request line. -/
theorem mem_line
    {r : Request}
    {b : Byte}
    (hMem : b ∈ r.line) :
    b ≠ 13 ∧ b ≠ 10 := by
  have hMethod : ∀ b ∈ r.method.text, b ≠ 13 ∧ b ≠ 10 := by
    cases r.method <;> decide +kernel
  have hVersion :
      ∀ b ∈ utf8 " HTTP/" ++ r.version.text,
        b ≠ 13 ∧ b ≠ 10 := by
    cases r.version <;> decide +kernel
  unfold line at hMem
  rcases List.mem_append.mp hMem with hMem | hMem
  · exact hMethod b hMem
  · rcases List.mem_cons.mp hMem with rfl | hMem
    · decide
    · rcases List.mem_append.mp hMem with hMem | hMem
      · exact mem_target hMem
      · exact hVersion b hMem

theorem line_ne
    (r : Request) :
    r.line ≠ [] := by
  unfold line
  cases r.method <;> simp [HttpMethod.text]

end Request

end V3

end WebServer

------------------------------------------------------------
-- One Header Line
------------------------------------------------------------

namespace WebServer

namespace V3

open StdString

/- The scan is between two header lines. -/
def HeaderScan.Between
    (scan : HeaderScan) : Prop :=
  scan.hState = .start ∨ scan.hState = .lf

namespace HeaderScan

variable {scan : HeaderScan}

/- This byte starts the key of a line. -/
def Starts
    (scan : HeaderScan)
    (c : Byte) : Prop :=
  scan.hState = .start ∧ c ≠ 13 ∧ c ≠ 10 ∨
    scan.hState = .lf ∧ c ≠ 13

theorem Between.starts
    {c : Byte}
    (hBetween : scan.Between)
    (hCr : c ≠ 13)
    (hLf : c ≠ 10) :
    scan.Starts c := by
  rcases hBetween with hState | hState
  · exact .inl ⟨hState, hCr, hLf⟩
  · exact .inr ⟨hState, hCr⟩

/- The first byte of a line sets the start of the key. -/
theorem Starts.next
    {c : Byte}
    (hStarts : scan.Starts c)
    (w : Ints)
    (str : Bytes)
    (i : Nat) :
    ∃ lineBegin,
      scan.next w str c i =
        .ok
          (.more
            { scan with
              hState := .key
              vars :=
                { scan.vars with
                  keyStart := w.int i
                  nowReadLineBegin := lineBegin } }) := by
  rcases hStarts with ⟨hState, hCr, hLf⟩ | ⟨hState, hCr⟩
  · exact
      ⟨w.int i, by
        simp [HeaderScan.next, hState, isCr, isLf, hCr, hLf]⟩
  · exact
      ⟨scan.vars.nowReadLineBegin, by
        simp [HeaderScan.next, hState, isCr, hCr]⟩

/- The LF of a line stores its key and its value. -/
theorem next_cr
    {w : Ints}
    {str key value : Bytes}
    {i : Nat}
    (hState : scan.hState = .cr)
    (hKey :
      range str scan.vars.keyStart scan.vars.keyEnd =
        .ok key)
    (hValue :
      range str scan.vars.valueStart scan.vars.valueEnd =
        .ok value) :
    scan.next w str 10 i =
      .ok
        (.more
          { hState := .lf
            headers :=
              Function.update scan.headers key (some value)
            vars :=
              { scan.vars with
                nowReadLineBegin := w.int i } }) := by
  simp only [next, hState, isLf, beq_self_eq_true, if_true,
    hKey, hValue, bind, Except.bind]

end HeaderScan

/- The bytes of a key leave the scan as it is. -/
theorem headerLoop_key
    {w : Ints}
    {str key after : Bytes}
    {i : Nat}
    {scan : HeaderScan}
    (hState : scan.hState = .key)
    (hPlain : ∀ b ∈ key, b ≠ 58 ∧ b ≠ 13 ∧ b ≠ 10) :
    headerLoop w str (key ++ after) i scan =
      headerLoop w str after (i + key.length) scan := by
  induction key generalizing i with
  | nil => rfl
  | cons b key ih =>
      have hHead := hPlain b List.mem_cons_self
      have hTail := fun d hMem =>
        hPlain d (List.mem_cons_of_mem _ hMem)
      rw [List.cons_append,
        headerLoop_of_more
          (HeaderScan.next_key hState hHead.1 hHead.2.1
            hHead.2.2),
        ih hTail, List.length_cons]
      congr 1
      omega

/- So do those of a value that is not too long. -/
theorem headerLoop_value
    {str text after : Bytes}
    {i : Nat}
    {scan : HeaderScan}
    (hState : scan.hState = .value)
    (hCr : 13 ∉ text)
    (hShort :
      (i : Int) + text.length - scan.vars.valueStart ≤ 256) :
    headerLoop .exact str (text ++ after) i scan =
      headerLoop .exact str after (i + text.length) scan := by
  induction text generalizing i with
  | nil => rfl
  | cons b text ih =>
      simp only [List.mem_cons, not_or] at hCr
      rw [List.length_cons] at hShort
      push_cast at hShort
      rw [List.cons_append,
        headerLoop_of_more
          (HeaderScan.next_value hState
            (fun hEq => hCr.1 hEq.symm) (by omega)),
        ih hCr.2 (by push_cast; omega), List.length_cons]
      congr 1
      omega

/- A value that is too long is an error. -/
theorem headerLoop_value_long
    {str text after : Bytes}
    {i : Nat}
    {scan : HeaderScan}
    (hState : scan.hState = .value)
    (hCr : 13 ∉ text)
    (hInside : (i : Int) - scan.vars.valueStart ≤ 256)
    (hLong :
      256 < (i : Int) + text.length -
        scan.vars.valueStart) :
    ∃ scan',
      headerLoop .exact str (text ++ after) i scan =
        .ok (.error scan') := by
  induction text generalizing i with
  | nil =>
      simp only [List.length_nil] at hLong
      omega
  | cons b text ih =>
      simp only [List.mem_cons, not_or] at hCr
      rw [List.length_cons] at hLong
      push_cast at hLong
      have hNot : b ≠ 13 := fun hEq => hCr.1 hEq.symm
      by_cases hEdge : (i : Int) - scan.vars.valueStart = 256
      · exact
          ⟨scan,
            headerLoop_of_error
              (HeaderScan.next_value_error hState hNot
                (by omega))⟩
      · rw [List.cons_append,
          headerLoop_of_more
            (HeaderScan.next_value hState hNot (by omega))]
        exact
          ih hCr.2 (by push_cast; omega)
            (by push_cast; omega)

/-
  A key, a colon, a blank, and the first byte of a value,
  whichever it is.
-/
theorem headerLoop_front
    {start : Byte}
    {name : Bytes}
    {scan : HeaderScan}
    (hStarts : scan.Starts start)
    (hPlain : ∀ b ∈ name, b ≠ 58 ∧ b ≠ 13 ∧ b ≠ 10)
    (str after : Bytes)
    (first : Byte)
    (i : Nat) :
    ∃ lineBegin,
      headerLoop .exact str
          (start :: name ++ 58 :: 32 :: first :: after) i
          scan =
        headerLoop .exact str after
          (i + (start :: name).length + 3)
          { hState := .value
            headers := scan.headers
            vars :=
              { scan.vars with
                keyStart := i
                keyEnd := (i + (start :: name).length : Nat)
                valueStart :=
                  (i + (start :: name).length + 2 : Nat)
                nowReadLineBegin := lineBegin } } := by
  rcases hStarts.next .exact str i with
    ⟨lineBegin, hFirst⟩
  refine ⟨lineBegin, ?_⟩
  have hEnd :
      i + 1 + name.length = i + (start :: name).length := by
    rw [List.length_cons]
    omega
  rw [List.cons_append, headerLoop_of_more hFirst,
    headerLoop_key rfl hPlain,
    headerLoop_of_more
      (HeaderScan.next_key_colon rfl
        (by simp only; omega)),
    headerLoop_of_more (HeaderScan.next_colon rfl),
    headerLoop_of_more
      (HeaderScan.next_spacesAfterColon rfl),
    hEnd]

/- The string between two positions of the buffer. -/
theorem range_of_drop
    {str text rest : Bytes}
    {i : Nat}
    (hBound : i ≤ str.length)
    (hStr : str.drop i = text ++ rest) :
    range str (i : Int) ((i + text.length : Nat) : Int) =
      .ok text := by
  have hLen := congrArg List.length hStr
  simp only [List.length_drop, List.length_append] at hLen
  rw [range_of_inPlace (by omega) (by omega) (by omega)]
  have hSize :
      (((i + text.length : Nat) : Int) - i).toNat =
        text.length := by
    omega
  rw [hSize, Int.toNat_natCast, hStr, List.take_left]

/- Where the value of a line stands. -/
theorem drop_line_value
    {str key value after : Bytes}
    {i : Nat}
    (hStr :
      str.drop i =
        key ++ 58 :: 32 :: (value ++ 13 :: 10 :: after)) :
    str.drop (i + key.length + 2) =
      value ++ 13 :: 10 :: after := by
  rw [Nat.add_assoc, ← List.drop_drop, hStr,
    ← List.drop_drop, List.drop_left]
  rfl

/- Where the next line begins. -/
theorem drop_line_after
    {str key value after : Bytes}
    {i : Nat}
    (hStr :
      str.drop i =
        key ++ 58 :: 32 :: (value ++ 13 :: 10 :: after)) :
    str.drop (i + key.length + 2 + value.length + 2) =
      after := by
  rw [← List.drop_drop, ← List.drop_drop,
    drop_line_value hStr, List.drop_left]
  rfl

/- A whole line. Its key may begin with any such byte. -/
theorem headerLoop_started
    {str name text after : Bytes}
    {start first : Byte}
    {i : Nat}
    {scan : HeaderScan}
    (hStarts : scan.Starts start)
    (hStr :
      str.drop i =
        start :: name ++
          58 :: 32 :: first :: (text ++ 13 :: 10 :: after))
    (hPlain : ∀ b ∈ name, b ≠ 58 ∧ b ≠ 13 ∧ b ≠ 10)
    (hCr : 13 ∉ text)
    (hShort : text.length ≤ 255) :
    ∃ j scan',
      headerLoop .exact str (str.drop i) i scan =
          headerLoop .exact str after j scan' ∧
        str.drop j = after ∧
        j = i + (start :: name).length + text.length + 5 ∧
        scan'.hState = .lf ∧
        scan'.vars.nowReadLineBegin + 1 = j ∧
        scan'.headers =
          Function.update scan.headers (start :: name)
            (some (first :: text)) := by
  rcases
    headerLoop_front hStarts hPlain str
      (text ++ 13 :: 10 :: after) first i with
    ⟨lineBegin, hFront⟩
  generalize start :: name = key at hStr hFront ⊢
  have hLen := congrArg List.length hStr
  simp only [List.length_drop, List.length_append,
    List.length_cons] at hLen
  have hKeyText :
      range str (i : Int) ((i + key.length : Nat) : Int) =
        .ok key :=
    range_of_drop (by omega) hStr
  have hRest :
      str.drop (i + key.length + 2) =
        (first :: text) ++ 13 :: 10 :: after :=
    drop_line_value hStr
  have hValueText :
      range str ((i + key.length + 2 : Nat) : Int)
          ((i + key.length + 3 + text.length : Nat) : Int) =
        .ok (first :: text) := by
    have hEnd :
        i + key.length + 3 + text.length =
          i + key.length + 2 + (first :: text).length := by
      rw [List.length_cons]
      omega
    rw [hEnd]
    exact range_of_drop (by omega) hRest
  have hLoop :
      headerLoop .exact str (str.drop i) i scan =
        headerLoop .exact str after
          (i + key.length + 3 + text.length + 1 + 1)
          { hState := .lf
            headers :=
              Function.update scan.headers key
                (some (first :: text))
            vars :=
              { keyStart := i
                keyEnd := (i + key.length : Nat)
                valueStart := (i + key.length + 2 : Nat)
                valueEnd :=
                  (i + key.length + 3 + text.length : Nat)
                nowReadLineBegin :=
                  (i + key.length + 3 + text.length + 1 :
                    Nat) } }
      := by
    rw [hStr, hFront,
      headerLoop_value rfl hCr (by simp only; omega),
      headerLoop_of_more
        (HeaderScan.next_value_cr rfl (by simp only; omega)),
      headerLoop_of_more
        (HeaderScan.next_cr rfl hKeyText hValueText)]
  have hAfter :
      str.drop (i + key.length + 3 + text.length + 1 + 1) =
        after := by
    have hSplit :
        i + key.length + 3 + text.length + 1 + 1 =
          i + key.length + 2 + (first :: text).length + 2 := by
      rw [List.length_cons]
      omega
    rw [hSplit]
    exact drop_line_after hStr
  exact
    ⟨_, _, hLoop, hAfter, by omega, rfl, by push_cast; rfl,
      rfl⟩

/-
  A whole line, with `value` in front of its CR. The value
  may begin with any byte.
-/
theorem headerLoop_line
    {str key text after : Bytes}
    {first : Byte}
    {i : Nat}
    {scan : HeaderScan}
    (hBetween : scan.Between)
    (hStr :
      str.drop i =
        key ++ 58 :: 32 :: first :: (text ++ 13 :: 10 :: after))
    (hKey : key ≠ [])
    (hPlain : ∀ b ∈ key, b ≠ 58 ∧ b ≠ 13 ∧ b ≠ 10)
    (hCr : 13 ∉ text)
    (hShort : text.length ≤ 255) :
    ∃ j scan',
      headerLoop .exact str (str.drop i) i scan =
          headerLoop .exact str after j scan' ∧
        str.drop j = after ∧
        j = i + key.length + text.length + 5 ∧
        scan'.hState = .lf ∧
        scan'.vars.nowReadLineBegin + 1 = j ∧
        scan'.headers =
          Function.update scan.headers key
            (some (first :: text)) := by
  rcases List.exists_cons_of_ne_nil hKey with
    ⟨start, name, rfl⟩
  have hHead := hPlain start List.mem_cons_self
  have hTail := fun b hMem =>
    hPlain b (List.mem_cons_of_mem _ hMem)
  exact
    headerLoop_started (hBetween.starts hHead.2.1 hHead.2.2)
      hStr hTail hCr hShort

/- A line whose value is too long is an error. -/
theorem headerLoop_line_long
    {key text : Bytes}
    {scan : HeaderScan}
    (hBetween : scan.Between)
    (hKey : key ≠ [])
    (hPlain : ∀ b ∈ key, b ≠ 58 ∧ b ≠ 13 ∧ b ≠ 10)
    (hCr : 13 ∉ text)
    (hLong : 255 < text.length)
    (str after : Bytes)
    (first : Byte)
    (i : Nat) :
    ∃ scan',
      headerLoop .exact str
          (key ++ 58 :: 32 :: first :: (text ++ after)) i
          scan =
        .ok (.error scan') := by
  rcases List.exists_cons_of_ne_nil hKey with
    ⟨start, name, rfl⟩
  have hHead := hPlain start List.mem_cons_self
  have hTail := fun b hMem =>
    hPlain b (List.mem_cons_of_mem _ hMem)
  rcases
    headerLoop_front (hBetween.starts hHead.2.1 hHead.2.2)
      hTail str (text ++ after) first i with
    ⟨lineBegin, hFront⟩
  rw [hFront]
  apply headerLoop_value_long rfl hCr
  · simp only
    omega
  · simp only
    omega

/- A line without a blank after its colon is an error. -/
theorem headerLoop_no_blank
    {key : Bytes}
    {c : Byte}
    {scan : HeaderScan}
    (hBetween : scan.Between)
    (hKey : key ≠ [])
    (hPlain : ∀ b ∈ key, b ≠ 58 ∧ b ≠ 13 ∧ b ≠ 10)
    (hBlank : c ≠ 32)
    (str after : Bytes)
    (i : Nat) :
    ∃ scan',
      headerLoop .exact str (key ++ 58 :: c :: after) i scan =
        .ok (.error scan') := by
  cases key with
  | nil => exact absurd rfl hKey
  | cons b key =>
      have hHead := hPlain b List.mem_cons_self
      have hTail := fun d hMem =>
        hPlain d (List.mem_cons_of_mem _ hMem)
      have hStarts := hBetween.starts hHead.2.1 hHead.2.2
      rcases hStarts.next .exact str i with
        ⟨lineBegin, hFirst⟩
      rw [List.cons_append, headerLoop_of_more hFirst,
        headerLoop_key rfl hTail,
        headerLoop_of_more
          (HeaderScan.next_key_colon rfl
            (by simp only; omega)),
        headerLoop_of_error
          (HeaderScan.next_colon_error rfl hBlank)]
      exact ⟨_, rfl⟩

end V3

end WebServer

------------------------------------------------------------
-- All Header Lines
------------------------------------------------------------

namespace WebServer

namespace V3

open StdString

/-
  The header lines are read to their end, as these keys and
  values. A line with an empty value takes in the next line.
-/
inductive ReadsFields :
    List HeaderLine → List (Bytes × Bytes) → Prop
| nil : ReadsFields [] []
| line
    {l : HeaderLine}
    {lines : List HeaderLine}
    {fields : List (Bytes × Bytes)}
    {first : Byte}
    {text : Bytes}
    (hText : l.text = 32 :: first :: text)
    (hShort : text.length ≤ 255)
    (hRest : ReadsFields lines fields) :
    ReadsFields (l :: lines) ((l.key, first :: text) :: fields)
| empty
    {l m : HeaderLine}
    {lines : List HeaderLine}
    {fields : List (Bytes × Bytes)}
    (hText : l.text = [32])
    (hShort : m.content.length ≤ 254)
    (hRest : ReadsFields lines fields) :
    ReadsFields (l :: m :: lines)
      ((l.key, 13 :: 10 :: m.content) :: fields)

theorem HeaderLine.cr_not_mem_text
    (l : HeaderLine) :
    13 ∉ l.text := by
  intro hMem
  exact (l.text_plain 13 hMem).1 rfl

theorem HeaderLine.cr_not_mem_content
    (l : HeaderLine) :
    13 ∉ l.content := by
  intro hMem
  rcases List.mem_append.mp hMem with hMem | hMem
  · exact (l.key_plain 13 hMem).2.1 rfl
  · rcases List.mem_cons.mp hMem with hEq | hMem
    · cases hEq
    · exact l.cr_not_mem_text hMem

/-
  The loop passes over these keys and values and has `after`
  in front of it.
-/
def PassesOver
    (str : Bytes)
    (i : Nat)
    (scan : HeaderScan)
    (fields : List (Bytes × Bytes))
    (after : Bytes) : Prop :=
  ∃ j scan',
    headerLoop .exact str (str.drop i) i scan =
        headerLoop .exact str after j scan' ∧
      str.drop j = after ∧
      scan'.headers = setFields scan.headers fields ∧
      (fields = [] ∧ j = i ∧ scan' = scan ∨
        fields ≠ [] ∧
          scan'.hState = .lf ∧
          scan'.vars.nowReadLineBegin + 1 = j)

/- One line in front of lines that are passed over. -/
theorem PassesOver.started
    {str name text rest after : Bytes}
    {start first : Byte}
    {i : Nat}
    {scan : HeaderScan}
    {fields : List (Bytes × Bytes)}
    (hStarts : scan.Starts start)
    (hStr :
      str.drop i =
        start :: name ++
          58 :: 32 :: first :: (text ++ 13 :: 10 :: rest))
    (hPlain : ∀ b ∈ name, b ≠ 58 ∧ b ≠ 13 ∧ b ≠ 10)
    (hCr : 13 ∉ text)
    (hShort : text.length ≤ 255)
    (hRest : ∀ j scan',
      scan'.hState = .lf → str.drop j = rest →
        PassesOver str j scan' fields after) :
    PassesOver str i scan
      ((start :: name, first :: text) :: fields) after := by
  rcases
    headerLoop_started hStarts hStr hPlain hCr hShort with
    ⟨j, scan₁, hLoop, hDrop, _, hState, hBegin, hHeaders⟩
  rcases hRest j scan₁ hState hDrop with
    ⟨k, scan₂, hLoop', hDrop', hHeaders', hEnd⟩
  refine ⟨k, scan₂, ?_, hDrop', ?_, .inr ⟨by simp, ?_⟩⟩
  · rw [hLoop, ← hDrop, hLoop']
  · rw [hHeaders', hHeaders]
    rfl
  · rcases hEnd with ⟨_, rfl, rfl⟩ | ⟨_, hLast⟩
    · exact ⟨hState, hBegin⟩
    · exact hLast

/- The same between two lines. -/
theorem PassesOver.cons
    {str key text rest after : Bytes}
    {first : Byte}
    {i : Nat}
    {scan : HeaderScan}
    {fields : List (Bytes × Bytes)}
    (hBetween : scan.Between)
    (hStr :
      str.drop i =
        key ++ 58 :: 32 :: first :: (text ++ 13 :: 10 :: rest))
    (hKey : key ≠ [])
    (hPlain : ∀ b ∈ key, b ≠ 58 ∧ b ≠ 13 ∧ b ≠ 10)
    (hCr : 13 ∉ text)
    (hShort : text.length ≤ 255)
    (hRest : ∀ j scan',
      scan'.Between → str.drop j = rest →
        PassesOver str j scan' fields after) :
    PassesOver str i scan ((key, first :: text) :: fields)
      after := by
  rcases List.exists_cons_of_ne_nil hKey with
    ⟨start, name, rfl⟩
  have hHead := hPlain start List.mem_cons_self
  have hTail := fun b hMem =>
    hPlain b (List.mem_cons_of_mem _ hMem)
  exact
    PassesOver.started
      (hBetween.starts hHead.2.1 hHead.2.2) hStr hTail hCr
      hShort fun j scan' hLf => hRest j scan' (.inr hLf)

/- The loop passes over lines that are read to their end. -/
theorem passesOver_of_readsFields
    {str after : Bytes}
    {lines : List HeaderLine}
    {fields : List (Bytes × Bytes)}
    (hFields : ReadsFields lines fields)
    {i : Nat}
    {scan : HeaderScan}
    (hBetween : scan.Between)
    (hStr :
      str.drop i = lines.flatMap HeaderLine.bytes ++ after) :
    PassesOver str i scan fields after := by
  induction hFields generalizing i scan with
  | nil =>
      exact
        ⟨i, scan, by rw [hStr]; rfl, hStr, rfl,
          .inl ⟨rfl, rfl, rfl⟩⟩
  | line hText hShort hRest ih =>
      rename_i l lines fields first text
      have hCr : 13 ∉ text := by
        intro hMem
        apply l.cr_not_mem_text
        rw [hText]
        simp [hMem]
      have hStr' :
          str.drop i =
            l.key ++ 58 :: 32 :: first ::
              (text ++ 13 :: 10 ::
                (lines.flatMap HeaderLine.bytes ++ after)) := by
        rw [hStr]
        simp [HeaderLine.bytes, HeaderLine.content, hText]
      exact
        PassesOver.cons hBetween hStr' l.key_ne l.key_plain
          hCr hShort fun j scan' hBetween' hDrop =>
            ih hBetween' hDrop
  | empty hText hShort hRest ih =>
      rename_i l m lines fields
      have hCr : 13 ∉ 10 :: m.content := by
        intro hMem
        rcases List.mem_cons.mp hMem with hEq | hMem
        · cases hEq
        · exact m.cr_not_mem_content hMem
      have hLength : (10 :: m.content).length ≤ 255 := by
        rw [List.length_cons]
        omega
      have hStr' :
          str.drop i =
            l.key ++ 58 :: 32 :: 13 ::
              ((10 :: m.content) ++ 13 :: 10 ::
                (lines.flatMap HeaderLine.bytes ++ after)) := by
        rw [hStr]
        simp [HeaderLine.bytes, HeaderLine.content, hText]
      exact
        PassesOver.cons hBetween hStr' l.key_ne l.key_plain
          hCr hLength fun j scan' hBetween' hDrop =>
            ih hBetween' hDrop

/- The blank line after the header lines ends the loop. -/
theorem headerLoop_blank_line
    {w : Ints}
    {str more : Bytes}
    {j : Nat}
    {scan : HeaderScan}
    (hState : scan.hState = .lf)
    (hStr : str.drop j = 13 :: 10 :: more) :
    ∃ k scan',
      headerLoop w str (13 :: 10 :: more) j scan =
          .ok (.stopped k scan') ∧
        scan'.hState = .endLf ∧
        scan'.headers = scan.headers ∧
        k ≤ str.length ∧
        str.drop k = more.drop 1 := by
  have hLen := congrArg List.length hStr
  simp only [List.length_drop, List.length_cons] at hLen
  have hCr :
      scan.next w str 13 j =
        .ok (.more { scan with hState := .endCr }) := by
    simp [HeaderScan.next, hState, isCr,
      HeaderScan.setState]
  have hLf :
      { scan with hState := .endCr }.next w str 10
          (j + 1) =
        .ok (.more { scan with hState := .endLf }) := by
    simp [HeaderScan.next, isLf, HeaderScan.setState]
  have hDrop : str.drop (j + 2) = more := by
    rw [← List.drop_drop, hStr]
    rfl
  rw [headerLoop_of_more hCr, headerLoop_of_more hLf]
  cases more with
  | nil =>
      exact
        ⟨j + 2, _, rfl, rfl, rfl, by omega, by rw [hDrop]; rfl⟩
  | cons c more =>
      refine
        ⟨j + 1 + 1 + 1, _, headerLoop_of_done rfl, rfl, rfl,
          ?_, ?_⟩
      · simp only [List.length_cons] at hLen
        omega
      · rw [show j + 1 + 1 + 1 = j + 2 + 1 from rfl,
          ← List.drop_drop, hDrop]

/- The LF that the request line leaves behind is skipped. -/
theorem HttpData.scanHeaders_skip
    {w : Ints}
    {d : HttpData}
    {rest : Bytes}
    (hState : d.hState = .start)
    (hBuffer : d.inBuffer = 10 :: rest) :
    d.scanHeaders w =
      headerLoop w d.inBuffer (d.inBuffer.drop 1) 1
        ⟨.start, d.headers, .init⟩ := by
  have hSkip :
      headerLoop w d.inBuffer (10 :: rest) 0
          ⟨.start, d.headers, .init⟩ =
        headerLoop w d.inBuffer rest 1
          ⟨.start, d.headers, .init⟩ :=
    headerLoop_of_more (by simp [HeaderScan.next, isLf])
  have hRest : d.inBuffer.drop 1 = rest := by
    rw [hBuffer]
    rfl
  rw [← hBuffer] at hSkip
  unfold scanHeaders
  rw [hState, hSkip, hRest]

/-
  Header lines that are read to their end are stored, and
  one byte more than the blank line is taken.
-/
theorem HttpData.parseHeadersBy_of_readsFields
    {d : HttpData}
    {lines : List HeaderLine}
    {fields : List (Bytes × Bytes)}
    {more : Bytes}
    (hState : d.hState = .start)
    (hBuffer : d.inBuffer = 10 :: (headerBytes lines ++ more))
    (hFields : ReadsFields lines fields)
    (hNonempty : fields ≠ []) :
    d.parseHeadersBy .exact =
      .ok
        (.success,
          { d with
            hState := .endLf
            headers := setFields d.headers fields
            inBuffer := more.drop 1 }) := by
  have hStr :
      d.inBuffer.drop 1 =
        lines.flatMap HeaderLine.bytes ++ 13 :: 10 :: more := by
    rw [hBuffer]
    simp [headerBytes]
  have hBetween :
      (⟨.start, d.headers, .init⟩ : HeaderScan).Between :=
    .inl rfl
  rcases passesOver_of_readsFields hFields hBetween hStr with
    ⟨j, scan₁, hLoop, hDrop, hHeaders, hEnd⟩
  rcases hEnd with ⟨hNil, _⟩ | ⟨_, hLf, _⟩
  · exact absurd hNil hNonempty
  · rcases headerLoop_blank_line hLf hDrop with
      ⟨k, scan₂, hLast, hEndLf, hSame, hBound, hRest⟩
    have hScan :
        d.scanHeaders .exact = .ok (.stopped k scan₂) := by
      rw [scanHeaders_skip hState hBuffer, hLoop, hLast]
    rw [parseHeadersBy_of_success hScan hEndLf hBound, hRest]
    simp only [setScan, hEndLf, hSame, hHeaders]

end V3

end WebServer

------------------------------------------------------------
-- Header Lines That Are Not Read To Their End
------------------------------------------------------------

namespace WebServer

namespace V3

open StdString

/-
  The loop answers an error, or it has lost the blank line:
  the last header line has an empty value, and the blank
  line was taken for that value.
-/
def StuckOver
    (str : Bytes)
    (i : Nat)
    (scan : HeaderScan)
    (lines : List HeaderLine)
    (after : Bytes) : Prop :=
  (∃ scan',
    headerLoop .exact str (str.drop i) i scan =
      .ok (.error scan')) ∨
    ((∃ front l, lines = front ++ [l] ∧ l.text = [32]) ∧
      ∃ j scan',
        headerLoop .exact str (str.drop i) i scan =
            headerLoop .exact str after j scan' ∧
          str.drop j = after ∧
          scan'.hState = .lf ∧
          scan'.vars.nowReadLineBegin + 1 = j)

/- Lines in front of lines that are not read to their end. -/
theorem StuckOver.cons
    {str key text rest after : Bytes}
    {first : Byte}
    {i : Nat}
    {scan : HeaderScan}
    {lines : List HeaderLine}
    (front : List HeaderLine)
    (hBetween : scan.Between)
    (hStr :
      str.drop i =
        key ++ 58 :: 32 :: first :: (text ++ 13 :: 10 :: rest))
    (hKey : key ≠ [])
    (hPlain : ∀ b ∈ key, b ≠ 58 ∧ b ≠ 13 ∧ b ≠ 10)
    (hCr : 13 ∉ text)
    (hRest : text.length ≤ 255 → ∀ j scan',
      scan'.Between → str.drop j = rest →
        StuckOver str j scan' lines after) :
    StuckOver str i scan (front ++ lines) after := by
  by_cases hShort : text.length ≤ 255
  · rcases
      headerLoop_line hBetween hStr hKey hPlain hCr
        hShort with
      ⟨j, scan₁, hLoop, hDrop, _, hState, _, _⟩
    rcases hRest hShort j scan₁ (.inr hState) hDrop with
      ⟨scan₂, hError⟩ |
        ⟨⟨before, l, rfl, hText⟩, k, scan₂, hLoop', hLost⟩
    · refine .inl ⟨scan₂, ?_⟩
      rw [hLoop, ← hDrop, hError]
    · refine
        .inr
          ⟨⟨front ++ before, l, by simp, hText⟩, k, scan₂,
            ?_, hLost⟩
      rw [hLoop, ← hDrop, hLoop']
  · left
    rw [hStr]
    exact
      headerLoop_line_long hBetween hKey hPlain hCr
        (by omega) str (13 :: 10 :: rest) first i

/- A line without a blank after the colon. -/
theorem StuckOver.no_blank
    {str rest after : Bytes}
    {i : Nat}
    {scan : HeaderScan}
    {l : HeaderLine}
    {lines : List HeaderLine}
    (hBetween : scan.Between)
    (hStr : str.drop i = l.bytes ++ rest)
    (hText : l.text.head? ≠ some 32) :
    StuckOver str i scan lines after := by
  left
  have hForm : ∃ c more,
      c ≠ 32 ∧ str.drop i = l.key ++ 58 :: c :: more := by
    cases hCase : l.text with
    | nil =>
        refine ⟨13, 10 :: rest, by decide, ?_⟩
        rw [hStr]
        simp [HeaderLine.bytes, HeaderLine.content, hCase]
    | cons c text =>
        refine ⟨c, text ++ 13 :: 10 :: rest, ?_, ?_⟩
        · rw [hCase] at hText
          simpa using hText
        · rw [hStr]
          simp [HeaderLine.bytes, HeaderLine.content, hCase]
  rcases hForm with ⟨c, more, hBlank, hForm⟩
  rw [hForm]
  exact
    headerLoop_no_blank hBetween l.key_ne l.key_plain hBlank
      str more i

/- A line with a value that is not empty. -/
theorem StuckOver.line
    {str rest after : Bytes}
    {i : Nat}
    {scan : HeaderScan}
    {l : HeaderLine}
    {lines : List HeaderLine}
    {first : Byte}
    {text : Bytes}
    (hBetween : scan.Between)
    (hStr : str.drop i = l.bytes ++ rest)
    (hText : l.text = 32 :: first :: text)
    (hRest : text.length ≤ 255 → ∀ j scan',
      scan'.Between → str.drop j = rest →
        StuckOver str j scan' lines after) :
    StuckOver str i scan (l :: lines) after := by
  have hCr : 13 ∉ text := by
    intro hMem
    apply l.cr_not_mem_text
    rw [hText]
    simp [hMem]
  have hStr' :
      str.drop i =
        l.key ++ 58 :: 32 :: first ::
          (text ++ 13 :: 10 :: rest) := by
    rw [hStr]
    simp [HeaderLine.bytes, HeaderLine.content, hText]
  exact
    StuckOver.cons [l] hBetween hStr' l.key_ne l.key_plain
      hCr hRest

/-
  Header lines that are not read to their end leave the loop
  with an error or without the blank line.
-/
theorem stuckOver_of_not_readsFields
    {str more : Bytes}
    {lines : List HeaderLine}
    (hNone : ∀ fields, ¬ ReadsFields lines fields)
    {i : Nat}
    {scan : HeaderScan}
    (hBetween : scan.Between)
    (hStr : str.drop i = headerBytes lines ++ more) :
    StuckOver str i scan lines more := by
  induction lines using List.twoStepInduction
      generalizing i scan with
  | nil => exact absurd .nil (hNone [])
  | singleton l =>
      have hBytes :
          str.drop i = l.bytes ++ (13 :: 10 :: more) := by
        rw [hStr]
        simp [headerBytes]
      by_cases hBlank : l.text.head? = some 32
      · rcases List.head?_eq_some_iff.mp hBlank with
          ⟨text, hText⟩
        cases text with
        | nil =>
            -- the blank line becomes the value
            have hStr' :
                str.drop i =
                  l.key ++ 58 :: 32 :: 13 ::
                    ([10] ++ 13 :: 10 :: more) := by
              rw [hBytes]
              simp [HeaderLine.bytes, HeaderLine.content,
                hText]
            rcases
              headerLoop_line hBetween hStr' l.key_ne
                l.key_plain (by decide) (by decide) with
              ⟨j, scan₁, hLoop, hDrop, _, hState, hBegin, _⟩
            exact
              .inr
                ⟨⟨[], l, rfl, hText⟩, j, scan₁, hLoop, hDrop,
                  hState, hBegin⟩
        | cons first text =>
            refine StuckOver.line hBetween hBytes hText ?_
            intro hShort
            exact
              absurd (.line hText hShort .nil)
                (hNone [(l.key, first :: text)])
      · exact StuckOver.no_blank hBetween hBytes hBlank
  | cons_cons l m lines ih ihTail =>
      have hBytes :
          str.drop i =
            l.bytes ++ (headerBytes (m :: lines) ++ more) := by
        rw [hStr]
        simp [headerBytes]
      by_cases hBlank : l.text.head? = some 32
      · rcases List.head?_eq_some_iff.mp hBlank with
          ⟨text, hText⟩
        cases text with
        | nil =>
            -- the next line becomes the value
            have hCr : 13 ∉ 10 :: m.content := by
              intro hMem
              rcases List.mem_cons.mp hMem with hEq | hMem
              · cases hEq
              · exact m.cr_not_mem_content hMem
            have hStr' :
                str.drop i =
                  l.key ++ 58 :: 32 :: 13 ::
                    ((10 :: m.content) ++ 13 :: 10 ::
                      (headerBytes lines ++ more)) := by
              rw [hBytes]
              simp [headerBytes, HeaderLine.bytes,
                HeaderLine.content, hText]
            refine
              StuckOver.cons [l, m] hBetween hStr' l.key_ne
                l.key_plain hCr ?_
            intro hShort j scan' hBetween' hDrop
            refine ih ?_ hBetween' hDrop
            intro fields hFields
            rw [List.length_cons] at hShort
            exact
              hNone _ (.empty hText (by omega) hFields)
        | cons first text =>
            refine StuckOver.line hBetween hBytes hText ?_
            intro hShort j scan' hBetween' hDrop
            refine ihTail m ?_ hBetween' hDrop
            intro fields hFields
            exact hNone _ (.line hText hShort hFields)
      · exact StuckOver.no_blank hBetween hBytes hBlank

end V3

end WebServer
