import WebServer.V3.Net.HeaderFields

/-
  Pairs of a client, written as header lines and read back
  by `parseHeaders`.

  The positions of a line are `int` variables. From index
  2^31 on they wrap: then a length overflows or is negative,
  or a string is built from a negative position. So a block
  is read back as long as its last value ends in front of
  index 2^31, and no longer block is.

  Key definitions include:
    * `Succeeds`
    * `ReadsLine`
    * `PlainFields`

  Key theorems include:
    * `succeeds_line_iff`
    * `readsLine_machine_iff`
    * `succeeds_fields_iff`
    * `parseHeaders_round_trip_iff`
-/

------------------------------------------------------------
-- Turns Up To The Blank Line
------------------------------------------------------------

namespace WebServer

namespace V3

open StdString

/-
  The loop ends behind the blank line, which is the end of
  the buffer, with these headers.
-/
def Succeeds
    (w : Ints)
    (str rest : Bytes)
    (i : Nat)
    (scan : HeaderScan)
    (headers : Headers) : Prop :=
  ∃ last,
    headerLoop w str rest i scan =
        .ok (.stopped str.length last) ∧
      last.hState = .endLf ∧
      last.headers = headers

section Turns

variable {w : Ints}
variable {str rest : Bytes}
variable {i : Nat}
variable {scan scan' : HeaderScan}
variable {headers : Headers}

theorem succeeds_of_more
    {c : Byte}
    (hNext : scan.next w str c i = .ok (.more scan')) :
    Succeeds w str (c :: rest) i scan headers ↔
      Succeeds w str rest (i + 1) scan' headers := by
  unfold Succeeds
  rw [headerLoop_of_more hNext]

theorem not_succeeds_of_error
    {c : Byte}
    (hNext : scan.next w str c i = .ok (.error scan')) :
    ¬ Succeeds w str (c :: rest) i scan headers := by
  rintro ⟨last, hLoop, _⟩
  rw [headerLoop_of_error hNext] at hLoop
  cases hLoop

theorem not_succeeds_of_fault
    {c : Byte}
    {f : Fault}
    (hNext : scan.next w str c i = .error f) :
    ¬ Succeeds w str (c :: rest) i scan headers := by
  rintro ⟨last, hLoop, _⟩
  rw [headerLoop_of_fault hNext] at hLoop
  cases hLoop

/- The colon ends a key of positive length. -/
theorem succeeds_colon_iff
    (hState : scan.hState = .key) :
    Succeeds w str (58 :: rest) i scan headers ↔
      (∃ length,
        w.sub (w.int i) scan.vars.keyStart = .ok length ∧
          0 < length) ∧
        Succeeds w str rest (i + 1)
          { scan with
            hState := .colon
            vars := { scan.vars with keyEnd := w.int i } }
          headers := by
  cases hSub : w.sub (w.int i) scan.vars.keyStart with
  | error f =>
      have hNext : scan.next w str 58 i = .error f := by
        simp only [HeaderScan.next, hState,
          beq_self_eq_true, if_true, hSub, bind, Except.bind]
      simp [not_succeeds_of_fault hNext]
  | ok length =>
      by_cases hLength : length ≤ 0
      · have hNext :
            scan.next w str 58 i =
              .ok
                (.error
                  { scan with
                    vars :=
                      { scan.vars with
                        keyEnd := w.int i } }) := by
          simp only [HeaderScan.next, hState,
            beq_self_eq_true, if_true, hSub, bind,
            Except.bind, hLength]
        simp only [not_succeeds_of_error hNext, false_iff,
          not_and]
        rintro ⟨n, hEq, hPos⟩
        cases hEq
        omega
      · have hNext :
            scan.next w str 58 i =
              .ok
                (.more
                  { scan with
                    hState := .colon
                    vars :=
                      { scan.vars with
                        keyEnd := w.int i } }) := by
          simp only [HeaderScan.next, hState,
            beq_self_eq_true, if_true, hSub, bind,
            Except.bind, hLength, if_false,
            HeaderScan.setState]
        rw [succeeds_of_more hNext]
        have hPos : 0 < length := by omega
        simp [hPos]

/- A CR ends a value of positive length. -/
theorem succeeds_cr_iff
    (hState : scan.hState = .value) :
    Succeeds w str (13 :: rest) i scan headers ↔
      (∃ length,
        w.sub (w.int i) scan.vars.valueStart = .ok length ∧
          0 < length) ∧
        Succeeds w str rest (i + 1)
          { scan with
            hState := .cr
            vars := { scan.vars with valueEnd := w.int i } }
          headers := by
  cases hSub : w.sub (w.int i) scan.vars.valueStart with
  | error f =>
      have hNext : scan.next w str 13 i = .error f := by
        simp only [HeaderScan.next, hState, isCr,
          beq_self_eq_true, if_true, hSub, bind, Except.bind]
      simp [not_succeeds_of_fault hNext]
  | ok length =>
      by_cases hLength : length ≤ 0
      · have hNext :
            scan.next w str 13 i =
              .ok
                (.error
                  { scan with
                    hState := .cr
                    vars :=
                      { scan.vars with
                        valueEnd := w.int i } }) := by
          simp only [HeaderScan.next, hState, isCr,
            beq_self_eq_true, if_true, hSub, bind,
            Except.bind, hLength]
        simp only [not_succeeds_of_error hNext, false_iff,
          not_and]
        rintro ⟨n, hEq, hPos⟩
        cases hEq
        omega
      · have hNext :
            scan.next w str 13 i =
              .ok
                (.more
                  { scan with
                    hState := .cr
                    vars :=
                      { scan.vars with
                        valueEnd := w.int i } }) := by
          simp only [HeaderScan.next, hState, isCr,
            beq_self_eq_true, if_true, hSub, bind,
            Except.bind, hLength, if_false]
        rw [succeeds_of_more hNext]
        have hPos : 0 < length := by omega
        simp [hPos]

/- The bytes of a value are counted from its start. -/
theorem succeeds_value_iff
    {text : Bytes}
    (hState : scan.hState = .value)
    (hCr : 13 ∉ text) :
    Succeeds w str (text ++ rest) i scan headers ↔
      (∀ j : Nat, i ≤ j → j < i + text.length →
        w.size (j - scan.vars.valueStart) ≤ 255) ∧
        Succeeds w str rest (i + text.length) scan
          headers := by
  induction text generalizing i with
  | nil =>
      simp only [List.nil_append, List.length_nil,
        Nat.add_zero, iff_and_self]
      intro _ j hFrom hTo
      omega
  | cons b text ih =>
      simp only [List.mem_cons, not_or] at hCr
      have hNot : b ≠ 13 := fun hEq => hCr.1 hEq.symm
      rw [List.cons_append, List.length_cons]
      by_cases hLong :
          255 < w.size (i - scan.vars.valueStart)
      · have hNext :
            scan.next w str b i = .ok (.error scan) := by
          simp [HeaderScan.next, hState, isCr, hNot, hLong]
        simp only [not_succeeds_of_error hNext, false_iff,
          not_and]
        intro hAll
        have hFirst := hAll i (Nat.le_refl _) (by omega)
        omega
      · have hNext :
            scan.next w str b i = .ok (.more scan) := by
          simp [HeaderScan.next, hState, isCr, hNot, hLong]
        have hStep :
            i + 1 + text.length = i + (text.length + 1) := by
          omega
        rw [succeeds_of_more hNext, ih hCr.2, hStep]
        apply and_congr_left'
        constructor
        · intro hAll j hFrom hTo
          by_cases hAt : j = i
          · subst hAt
            omega
          · exact hAll j (by omega) hTo
        · intro hAll j hFrom hTo
          exact hAll j (by omega) hTo

/- The LF builds the strings and stores them. -/
theorem succeeds_lf_iff
    (hState : scan.hState = .cr) :
    Succeeds w str (10 :: rest) i scan headers ↔
      ∃ key value,
        range str scan.vars.keyStart scan.vars.keyEnd =
            .ok key ∧
          range str scan.vars.valueStart
              scan.vars.valueEnd =
            .ok value ∧
          Succeeds w str rest (i + 1)
            { hState := .lf
              headers :=
                Function.update scan.headers key (some value)
              vars :=
                { scan.vars with
                  nowReadLineBegin := w.int i } }
            headers := by
  cases hKey :
      range str scan.vars.keyStart scan.vars.keyEnd with
  | error f =>
      have hNext : scan.next w str 10 i = .error f := by
        simp only [HeaderScan.next, hState, isLf,
          beq_self_eq_true, if_true, hKey, bind, Except.bind]
      simp [not_succeeds_of_fault hNext]
  | ok key =>
      cases hValue :
          range str scan.vars.valueStart
            scan.vars.valueEnd with
      | error f =>
          have hNext : scan.next w str 10 i = .error f := by
            simp only [HeaderScan.next, hState, isLf,
              beq_self_eq_true, if_true, hKey, hValue, bind,
              Except.bind]
          simp [not_succeeds_of_fault hNext]
      | ok value =>
          rw [succeeds_of_more
            (HeaderScan.next_cr hState hKey hValue)]
          simp

end Turns

end V3

end WebServer

------------------------------------------------------------
-- One Line
------------------------------------------------------------

namespace WebServer

namespace V3

open StdString

/-
  A line with its key from `keyStart` to `keyEnd` and its
  value up to `valueEnd` is stored as `key` and `value`.
-/
structure ReadsLine
    (w : Ints)
    (str : Bytes)
    (keyStart keyEnd valueEnd : Nat)
    (key value : Bytes) : Prop where
  keyLength :
    ∃ length,
      w.sub (w.int keyEnd) (w.int keyStart) = .ok length ∧
        0 < length
  valueLength :
    ∃ length,
      w.sub (w.int valueEnd) (w.int (keyEnd + 2 : Nat)) =
          .ok length ∧
        0 < length
  valueShort :
    ∀ j : Nat, keyEnd + 3 ≤ j → j < valueEnd →
      w.size (j - w.int (keyEnd + 2 : Nat)) ≤ 255
  key :
    range str (w.int keyStart) (w.int keyEnd) = .ok key
  value :
    range str (w.int (keyEnd + 2 : Nat)) (w.int valueEnd) =
      .ok value

/- A line is passed when its strings can be built. -/
theorem succeeds_line_iff
    {w : Ints}
    {str name text rest : Bytes}
    {start first : Byte}
    {i keyEnd valueEnd : Nat}
    {scan : HeaderScan}
    {headers : Headers}
    (hStarts : scan.Starts start)
    (hPlain : ∀ b ∈ name, b ≠ 58 ∧ b ≠ 13 ∧ b ≠ 10)
    (hCr : 13 ∉ text)
    (hKeyEnd : keyEnd = i + 1 + name.length)
    (hValueEnd : valueEnd = keyEnd + 3 + text.length) :
    Succeeds w str
        (start :: name ++
          58 :: 32 :: first :: (text ++ 13 :: 10 :: rest))
        i scan headers ↔
      ∃ key value,
        ReadsLine w str i keyEnd valueEnd key value ∧
          Succeeds w str rest (valueEnd + 2)
            { hState := .lf
              headers :=
                Function.update scan.headers key (some value)
              vars :=
                { keyStart := w.int i
                  keyEnd := w.int keyEnd
                  valueStart := w.int (keyEnd + 2 : Nat)
                  valueEnd := w.int valueEnd
                  nowReadLineBegin :=
                    w.int (valueEnd + 1 : Nat) } }
            headers := by
  rcases hStarts.next w str i with ⟨lineBegin, hFirst⟩
  have hKey :
      ∀ vars : HeaderLocals,
        Succeeds w str
            (name ++ 58 :: 32 :: first ::
              (text ++ 13 :: 10 :: rest))
            (i + 1) ⟨.key, scan.headers, vars⟩ headers ↔
          Succeeds w str
            (58 :: 32 :: first :: (text ++ 13 :: 10 :: rest))
            keyEnd ⟨.key, scan.headers, vars⟩ headers := by
    intro vars
    unfold Succeeds
    rw [headerLoop_key rfl hPlain, hKeyEnd]
  have hSpaces :
      ∀ (vars : HeaderLocals) (j : Nat),
        (⟨.spacesAfterColon, scan.headers, vars⟩ :
              HeaderScan).next w str first j =
          .ok
            (.more
              ⟨.value, scan.headers,
                { vars with valueStart := w.int j }⟩) :=
    fun vars j => rfl
  rw [List.cons_append, succeeds_of_more hFirst, hKey,
    succeeds_colon_iff rfl,
    succeeds_of_more (HeaderScan.next_colon rfl),
    succeeds_of_more (hSpaces _ _),
    succeeds_value_iff rfl hCr, ← hValueEnd,
    succeeds_cr_iff rfl, succeeds_lf_iff rfl]
  constructor
  · rintro
      ⟨hKeyRoom, hShort, hValueRoom, key, value, hKeyText,
        hValueText, hRest⟩
    exact
      ⟨key, value,
        ⟨hKeyRoom, hValueRoom, hShort, hKeyText,
          hValueText⟩, hRest⟩
  · rintro ⟨key, value, hLine, hRest⟩
    exact
      ⟨hLine.keyLength, hLine.valueShort, hLine.valueLength,
        key, value, hLine.key, hLine.value, hRest⟩

end V3

end WebServer

------------------------------------------------------------
-- Positions From 2^31 On
------------------------------------------------------------

namespace WebServer

namespace V3

open StdString

/- An index of the next 2^31 wraps to a negative number. -/
theorem Ints.machine_int_of_wrap
    {n : Int}
    (hFrom : 2 ^ 31 ≤ n)
    (hTo : n < 2 ^ 32) :
    machine.int n = n - 2 ^ 32 := by
  simp only [machine, toInt32, Int.bmod_def]
  omega

theorem Ints.isInt32_of_machine_sub
    {x y length : Int}
    (h : machine.sub x y = .ok length) :
    IsInt32 (x - y) := by
  unfold sub at h
  split_ifs at h with hSame
  rw [← hSame]
  exact isInt32_toInt32 _

theorem nonneg_of_range
    {str text : Bytes}
    {first last : Int}
    (h : range str first last = .ok text) :
    0 ≤ first := by
  unfold range at h
  split_ifs at h with hIn
  exact hIn.1

/-
  The strings of a line that begins at most one byte behind
  index 2^31 are built when its value ends in front of that
  index, and they are those of the line.
-/
theorem readsLine_machine_iff
    {str key value afterKey afterValue : Bytes}
    {keyStart keyEnd valueEnd : Nat}
    (hKey : str.drop keyStart = key ++ afterKey)
    (hKeyEnd : keyEnd = keyStart + key.length)
    (hKeyPos : 0 < key.length)
    (hKeyShort : key.length < 2 ^ 31)
    (hValue : str.drop (keyEnd + 2) = value ++ afterValue)
    (hValueEnd : valueEnd = keyEnd + 2 + value.length)
    (hValuePos : 0 < value.length)
    (hValueShort : value.length ≤ 256)
    (hBound : valueEnd ≤ str.length)
    (hStart : keyStart ≤ 2 ^ 31 + 1)
    (key' value' : Bytes) :
    ReadsLine .machine str keyStart keyEnd valueEnd key'
        value' ↔
      valueEnd < 2 ^ 31 ∧ key' = key ∧ value' = value := by
  have hKeyText :
      range str keyStart keyEnd = .ok key := by
    rw [hKeyEnd]
    exact range_of_drop (by omega) hKey
  have hValueText :
      range str (keyEnd + 2 : Nat) valueEnd = .ok value := by
    rw [hValueEnd]
    exact range_of_drop (by omega) hValue
  have hExact : ∀ n : Nat, n < 2 ^ 31 →
      Ints.machine.int n = n :=
    fun n hSmall => Ints.machine_int (by omega) (by omega)
  constructor
  · rintro ⟨⟨_, hKeySub, _⟩, ⟨_, hValueSub, _⟩, _, hKeyRead,
      hValueRead⟩
    have hKeyNonneg := nonneg_of_range hKeyRead
    have hValueNonneg := nonneg_of_range hValueRead
    have hKeyRoom := Ints.isInt32_of_machine_sub hKeySub
    have hValueRoom := Ints.isInt32_of_machine_sub hValueSub
    unfold IsInt32 at hKeyRoom hValueRoom
    have hStartSmall : keyStart < 2 ^ 31 := by
      by_contra hWrap
      rw [Ints.machine_int_of_wrap (by omega) (by omega)]
        at hKeyNonneg
      omega
    rw [hExact keyStart hStartSmall] at hKeyRoom hKeyRead
    have hEndSmall : keyEnd < 2 ^ 31 := by
      by_contra hWrap
      rw [Ints.machine_int_of_wrap (by omega) (by omega)]
        at hKeyRoom
      omega
    rw [hExact keyEnd hEndSmall, hKeyText] at hKeyRead
    have hFirstSmall : keyEnd + 2 < 2 ^ 31 := by
      by_contra hWrap
      rw [Ints.machine_int_of_wrap (by omega) (by omega)]
        at hValueNonneg
      omega
    rw [hExact (keyEnd + 2) hFirstSmall]
      at hValueRoom hValueRead
    have hLastSmall : valueEnd < 2 ^ 31 := by
      by_contra hWrap
      rw [Ints.machine_int_of_wrap (by omega) (by omega)]
        at hValueRoom
      omega
    rw [hExact valueEnd hLastSmall, hValueText] at hValueRead
    exact
      ⟨hLastSmall, (Except.ok.inj hKeyRead).symm,
        (Except.ok.inj hValueRead).symm⟩
  · rintro ⟨hSmall, rfl, rfl⟩
    have hStartInt := hExact keyStart (by omega)
    have hKeyInt := hExact keyEnd (by omega)
    have hFirstInt := hExact (keyEnd + 2) (by omega)
    have hLastInt := hExact valueEnd (by omega)
    constructor
    · refine
        ⟨_, Ints.machine_sub ?_, ?_⟩ <;>
        rw [hKeyInt, hStartInt]
      · unfold IsInt32
        omega
      · omega
    · refine
        ⟨_, Ints.machine_sub ?_, ?_⟩ <;>
        rw [hLastInt, hFirstInt]
      · unfold IsInt32
        omega
      · omega
    · intro j hFrom hTo
      rw [hFirstInt, Ints.machine_size (by omega) (by omega)]
      omega
    · rw [hStartInt, hKeyInt]
      exact hKeyText
    · rw [hFirstInt, hLastInt]
      exact hValueText

theorem length_of_range
    {str text : Bytes}
    {first last : Int}
    (h : range str first last = .ok text) :
    text.length ≤ last := by
  unfold range at h
  split_ifs at h with hIn
  cases h
  rw [List.length_take]
  omega

/- The keys stored, and the end of the next one. -/
structure HeaderScan.KeysFit
    (scan : HeaderScan) : Prop where
  keyEnd : scan.vars.keyEnd < 2 ^ 31
  stored :
    ∀ key value, scan.headers key = some value →
      key.length < 2 ^ 31

theorem HeaderScan.KeysFit.next
    {w : Ints}
    {scan : HeaderScan}
    (h : scan.KeysFit)
    (hInt : ∀ n, w.int n < 2 ^ 31)
    (str : Bytes)
    (c : Byte)
    (i : Nat) :
    match scan.next w str c i with
    | .ok (.more scan') => scan'.KeysFit
    | .ok (.done scan') => scan'.KeysFit
    | .ok (.error scan') => scan'.KeysFit
    | .error _ => True := by
  rcases scan with ⟨hState, headers, vars⟩
  rcases h with ⟨hEnd, hStored⟩
  have hEndInt := hInt i
  cases hState <;>
    simp only [HeaderScan.next, HeaderScan.setState, bind,
      Except.bind]
  case start =>
      split_ifs <;> exact ⟨hEnd, hStored⟩
  case key =>
      split_ifs
      · cases w.sub (w.int i) vars.keyStart with
        | error f => trivial
        | ok length =>
            simp only
            split_ifs <;> exact ⟨hEndInt, hStored⟩
      · exact ⟨hEnd, hStored⟩
      · exact ⟨hEnd, hStored⟩
  case colon =>
      split_ifs <;> exact ⟨hEnd, hStored⟩
  case spacesAfterColon => exact ⟨hEnd, hStored⟩
  case value =>
      split_ifs
      · cases w.sub (w.int i) vars.valueStart with
        | error f => trivial
        | ok length =>
            simp only
            split_ifs <;> exact ⟨hEnd, hStored⟩
      · exact ⟨hEnd, hStored⟩
      · exact ⟨hEnd, hStored⟩
  case cr =>
      split_ifs
      · cases hKey : range str vars.keyStart vars.keyEnd with
        | error f => trivial
        | ok key =>
            cases range str vars.valueStart vars.valueEnd with
            | error f => trivial
            | ok value =>
                refine ⟨hEnd, ?_⟩
                intro other text hOther
                simp only at hOther
                by_cases hSame : other = key
                · have hLength := length_of_range hKey
                  simp only at hEnd
                  rw [hSame]
                  omega
                · rw [Function.update_of_ne hSame] at hOther
                  exact hStored other text hOther
      · exact ⟨hEnd, hStored⟩
  case lf =>
      split_ifs <;> exact ⟨hEnd, hStored⟩
  case endCr =>
      split_ifs <;> exact ⟨hEnd, hStored⟩
  case endLf => exact ⟨hEnd, hStored⟩

/- No key stored is longer than an `int` can count. -/
theorem keys_short_of_success
    {d d' : HttpData}
    {key value : Bytes}
    (hHeaders : d.headers = fun _ => none)
    (hCall : d.parseHeaders = .ok (.success, d'))
    (hStored : d'.headers key = some value) :
    key.length < 2 ^ 31 := by
  have hInt : ∀ n, Ints.machine.int n < 2 ^ 31 :=
    fun n => (isInt32_toInt32 n).2
  have hLoop :=
    d.scanHeaders_rule .machine
      (I := fun _ scan => scan.KeysFit)
      (R := HeaderEnd.Meets (fun _ scan => scan.KeysFit)
        fun _ => True)
      (F := fun _ => True)
      (fun scan hFit => hFit)
      (by
        intro i c scan hFit _
        have hNext := hFit.next hInt d.inBuffer c i
        cases hCase : scan.next .machine d.inBuffer c i with
        | error f => trivial
        | ok turn =>
            rw [hCase] at hNext
            cases turn with
            | more scan' => exact hNext
            | done scan' => exact hNext
            | error scan' => trivial)
      ⟨show (-1 : Int) < 2 ^ 31 by decide, by
        simp [hHeaders]⟩
  rcases HttpData.scanHeaders_of_success hCall with
    ⟨i, scan, hCase, _, _, rfl⟩
  rw [hCase] at hLoop
  exact HeaderScan.KeysFit.stored hLoop key value hStored

end V3

end WebServer

------------------------------------------------------------
-- Pairs Read Back
------------------------------------------------------------

namespace WebServer

namespace V3

open StdString

/- Pairs that can be told apart in a header block. -/
def PlainFields
    (fields : List (Bytes × Bytes)) : Prop :=
  ∀ field ∈ fields,
    (field.1 ≠ [] ∧
        ∀ b ∈ field.1, b ≠ 58 ∧ b ≠ 13 ∧ b ≠ 10) ∧
      1 ≤ field.2.length ∧
      field.2.length ≤ 256 ∧
      13 ∉ field.2

/- The blank line at the end of the buffer. -/
theorem succeeds_blank_line_iff
    {w : Ints}
    {str : Bytes}
    {i : Nat}
    {scan : HeaderScan}
    (hState : scan.hState = .lf)
    (hStr : str.drop i = [13, 10])
    (headers : Headers) :
    Succeeds w str [13, 10] i scan headers ↔
      headers = scan.headers := by
  rcases headerLoop_blank_line hState hStr with
    ⟨k, last, hLoop, hEnd, hSame, hBound, hRest⟩
  have hLast : k = str.length := by
    have hLen := congrArg List.length hRest
    simp at hLen
    omega
  subst hLast
  unfold Succeeds
  rw [hLoop]
  constructor
  · rintro ⟨other, hOther, _, rfl⟩
    cases hOther
    exact hSame
  · rintro rfl
    exact ⟨last, rfl, hEnd, hSame⟩

/-
  Lines of short keys are stored whole when the last of them
  ends in front of index 2^31; otherwise the loop does not
  get to the blank line.
-/
theorem succeeds_fields_iff
    {str : Bytes}
    {fields : List (Bytes × Bytes)}
    {i : Nat}
    {scan : HeaderScan}
    {headers : Headers}
    (hFields : PlainFields fields)
    (hKeys : ∀ field ∈ fields, field.1.length < 2 ^ 31)
    (hBetween :
      scan.hState = .lf ∨
        scan.hState = .start ∧ fields ≠ [])
    (hStr :
      str.drop i = fields.flatMap fieldBytes ++ [13, 10])
    (hBound : i ≤ 2 ^ 31 + 1) :
    Succeeds .machine str (str.drop i) i scan headers ↔
      str.length < 2 ^ 31 + 4 ∧
        headers = setFields scan.headers fields := by
  induction fields generalizing i scan with
  | nil =>
      have hState : scan.hState = .lf := by
        simpa using hBetween
      have hLen := congrArg List.length hStr
      simp at hLen
      rw [hStr]
      refine
        (succeeds_blank_line_iff hState hStr headers).trans ?_
      have hSmall : str.length < 2 ^ 31 + 4 := by omega
      exact ⟨fun hSame => ⟨hSmall, hSame⟩, fun h => h.2⟩
  | cons field fields ih =>
      rcases field with ⟨key, value⟩
      rcases hFields _ List.mem_cons_self with
        ⟨⟨hKey, hPlain⟩, hPos, hShort, hCr⟩
      have hKeyShort := hKeys _ List.mem_cons_self
      simp only at hKey hPlain hPos hShort hCr hKeyShort
      rcases List.exists_cons_of_ne_nil hKey with
        ⟨start, name, rfl⟩
      rcases List.exists_cons_of_length_pos hPos with
        ⟨first, text, rfl⟩
      obtain ⟨keyEnd, hKeyEnd⟩ :
          ∃ k, k = i + 1 + name.length := ⟨_, rfl⟩
      obtain ⟨valueEnd, hValueEnd⟩ :
          ∃ k, k = keyEnd + 3 + text.length := ⟨_, rfl⟩
      obtain ⟨rest, hRest⟩ :
          ∃ r, r = fields.flatMap fieldBytes ++ [13, 10] :=
        ⟨_, rfl⟩
      have hLine :
          str.drop i =
            start :: name ++ 58 :: 32 :: first ::
              (text ++ 13 :: 10 :: rest) := by
        rw [hStr, hRest]
        simp [fieldBytes]
      have hLen := congrArg List.length hLine
      simp only [List.length_drop, List.length_append,
        List.length_cons] at hLen hKeyShort hShort
      have hKeyAt : keyEnd = i + (start :: name).length := by
        rw [List.length_cons]
        omega
      have hValueAt :
          valueEnd = keyEnd + 2 + (first :: text).length := by
        rw [List.length_cons]
        omega
      have hValue :
          str.drop (keyEnd + 2) =
            (first :: text) ++ 13 :: 10 :: rest := by
        rw [hKeyAt]
        exact drop_line_value hLine
      have hAfter : str.drop (valueEnd + 2) = rest := by
        rw [hValueAt, hKeyAt]
        exact drop_line_after hLine
      have hHead := hPlain start List.mem_cons_self
      have hStarts : scan.Starts start := by
        rcases hBetween with hState | ⟨hState, _⟩
        · exact .inr ⟨hState, hHead.2.1⟩
        · exact .inl ⟨hState, hHead.2.1, hHead.2.2⟩
      have hReads :=
        readsLine_machine_iff hLine hKeyAt (by simp)
          (by rw [List.length_cons]; omega) hValue hValueAt
          (by simp) (by rw [List.length_cons]; omega)
          (by omega) hBound
      rw [hLine,
        succeeds_line_iff hStarts
          (fun b hMem =>
            hPlain b (List.mem_cons_of_mem _ hMem))
          (fun hMem => hCr (List.mem_cons_of_mem _ hMem))
          hKeyEnd hValueEnd]
      simp only [hReads]
      have hLong : 2 ≤ rest.length := by
        rw [hRest, List.length_append]
        exact Nat.le_add_left _ _
      have hTail : ∀ scan' : HeaderScan,
          scan'.hState = .lf → valueEnd < 2 ^ 31 →
            (Succeeds .machine str rest (valueEnd + 2) scan'
                headers ↔
              str.length < 2 ^ 31 + 4 ∧
                headers = setFields scan'.headers fields) := by
        intro scan' hState hSmall
        rw [← hAfter]
        exact
          ih
            (fun f hMem =>
              hFields f (List.mem_cons_of_mem _ hMem))
            (fun f hMem =>
              hKeys f (List.mem_cons_of_mem _ hMem))
            (.inl hState) (hAfter.trans hRest) (by omega)
      constructor
      · rintro ⟨_, _, ⟨hSmall, rfl, rfl⟩, hOn⟩
        exact (hTail _ rfl hSmall).mp hOn
      · rintro ⟨hSmall, rfl⟩
        have hEnd : valueEnd < 2 ^ 31 := by omega
        exact
          ⟨_, _, ⟨hEnd, rfl, rfl⟩,
            (hTail _ rfl hEnd).mpr ⟨hSmall, rfl⟩⟩

/- A call from `H_START` that takes the whole buffer. -/
theorem parseHeaders_success_iff
    {d : HttpData}
    {rest : Bytes}
    (hState : d.hState = .start)
    (hBuffer : d.inBuffer = 10 :: rest)
    (headers : Headers) :
    d.parseHeaders =
        .ok
          (.success,
            { d with
              hState := .endLf
              headers := headers
              inBuffer := [] }) ↔
      Succeeds .machine d.inBuffer (d.inBuffer.drop 1) 1
        ⟨.start, d.headers, .init⟩ headers := by
  unfold Succeeds
  rw [← HttpData.scanHeaders_skip hState hBuffer]
  constructor
  · intro hCall
    rcases HttpData.scanHeaders_of_success hCall with
      ⟨i, scan, hCase, hEnd, hBound, hSame⟩
    have hHeaders : headers = scan.headers :=
      congrArg HttpData.headers hSame
    have hRest : [] = d.inBuffer.drop i :=
      congrArg HttpData.inBuffer hSame
    have hLast : i = d.inBuffer.length := by
      have hLong := List.drop_eq_nil_iff.mp hRest.symm
      omega
    subst hLast
    exact ⟨scan, hCase, hEnd, hHeaders.symm⟩
  · rintro ⟨last, hCase, hEnd, rfl⟩
    refine
      (HttpData.parseHeadersBy_of_success hCase hEnd
        (Nat.le_refl _)).trans ?_
    simp only [HttpData.setScan, hEnd, List.drop_length]

/- Every key has a last value. -/
theorem exists_lastValue
    {fields : List (Bytes × Bytes)}
    {field : Bytes × Bytes}
    (hMem : field ∈ fields) :
    ∃ value, lastValues fields field.1 = some value := by
  cases hCase : lastValues fields field.1 with
  | some value => exact ⟨value, rfl⟩
  | none =>
      have hNone :=
        List.lookup_eq_none_iff.mp hCase field
          (List.mem_reverse.mpr hMem)
      simp at hNone

/-
  Pairs of a client are read back, and the block they are
  written to is taken whole, if and only if the last value
  ends in front of index 2^31: three line ends stand behind
  it.
-/
theorem parseHeaders_round_trip_iff
    {d : HttpData}
    {fields : List (Bytes × Bytes)}
    (hState : d.hState = .start)
    (hHeaders : d.headers = fun _ => none)
    (hNonempty : fields ≠ [])
    (hFields : PlainFields fields)
    (hBuffer :
      d.inBuffer =
        10 :: (fields.flatMap fieldBytes ++ [13, 10])) :
    d.parseHeaders =
        .ok
          (.success,
            { d with
              hState := .endLf
              headers := lastValues fields
              inBuffer := [] }) ↔
      d.inBuffer.length < 2 ^ 31 + 4 := by
  by_cases hKeys :
      ∀ field ∈ fields, field.1.length < 2 ^ 31
  · have hStr :
        d.inBuffer.drop 1 =
          fields.flatMap fieldBytes ++ [13, 10] := by
      rw [hBuffer]
      rfl
    rw [parseHeaders_success_iff hState hBuffer,
      succeeds_fields_iff hFields hKeys
        (.inr ⟨rfl, hNonempty⟩) hStr (by decide)]
    simp [hHeaders, setFields_eq_lastValues]
  · push Not at hKeys
    rcases hKeys with ⟨field, hMem, hLong⟩
    constructor
    · intro hCall
      rcases exists_lastValue hMem with ⟨value, hValue⟩
      exact
        absurd
          (keys_short_of_success hHeaders hCall hValue)
          (by omega)
    · intro hSmall
      rcases List.append_of_mem hMem with
        ⟨front, back, rfl⟩
      rw [hBuffer] at hSmall
      simp [fieldBytes] at hSmall
      omega

/- Two lines with the same key, read back. -/
theorem parseHeaders_round_trip_iff_twice :
    (HttpData.withBuffer
          (utf8 "\nA: x\r\nA: y\r\n\r\n")).parseHeaders =
        .ok
          (.success,
            { HttpData.withBuffer [] with
              hState := .endLf
              headers :=
                lastValues
                  [(utf8 "A", utf8 "x"),
                    (utf8 "A", utf8 "y")] }) ↔
      (utf8 "\nA: x\r\nA: y\r\n\r\n").length <
        2 ^ 31 + 4 :=
  parseHeaders_round_trip_iff
    (d := HttpData.withBuffer
      (utf8 "\nA: x\r\nA: y\r\n\r\n"))
    rfl rfl (by simp)
    (by unfold PlainFields; decide +kernel)
    (by decide +kernel)

/- A key of `n` bytes and a value of one. -/
def longField
    (n : Nat) : Bytes × Bytes :=
  (List.replicate n 97, [120])

/- The line that a client writes for it. -/
def longBlock
    (n : Nat) : Bytes :=
  10 :: ([longField n].flatMap fieldBytes ++ [13, 10])

theorem plainFields_longField
    {n : Nat}
    (hPos : 0 < n) :
    PlainFields [longField n] := by
  intro field hMem
  rw [List.mem_singleton.mp hMem]
  refine ⟨⟨?_, ?_⟩, by simp [longField], ?_⟩
  · intro hNil
    have hLen := congrArg List.length hNil
    simp only [longField, List.length_replicate,
      List.length_nil] at hLen
    omega
  · intro b hIn
    rw [List.eq_of_mem_replicate hIn]
    decide
  · simp [longField]

/- Such a key may not be stored by any call. -/
theorem longField_not_stored
    {n : Nat}
    (hLong : 2 ^ 31 ≤ n)
    {d d' : HttpData}
    (hHeaders : d.headers = fun _ => none)
    (hCall : d.parseHeaders = .ok (.success, d')) :
    d'.headers ≠ lastValues [longField n] := by
  intro hSame
  rcases exists_lastValue
      (List.mem_singleton.mpr rfl :
        longField n ∈ [longField n]) with
    ⟨value, hValue⟩
  rw [← hSame] at hValue
  have hShort := keys_short_of_success hHeaders hCall hValue
  simp only [longField, List.length_replicate] at hShort
  omega

/- A key of 2^31 bytes is not read back. -/
theorem long_key_not_read_back :
    PlainFields [longField (2 ^ 31)] ∧
      ∀ d',
        (HttpData.withBuffer
              (longBlock (2 ^ 31))).parseHeaders =
            .ok (.success, d') →
          d'.headers ≠ lastValues [longField (2 ^ 31)] :=
  ⟨plainFields_longField (Nat.two_pow_pos 31),
    fun _ hCall =>
      longField_not_stored (Nat.le_refl _) rfl hCall⟩

end V3

end WebServer
