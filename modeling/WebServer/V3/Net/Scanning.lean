import WebServer.V3.Net.ParseHeaders

/-
  What the loop of `parseHeaders` does with the bytes it is
  given.

  A call that starts between header lines keeps its
  positions in order, so it never raises. A call that starts
  in the middle of a header line has no position for the
  start of the key: it raises as soon as the line is
  completed.

  Key definitions include:
    * `ParseState.inLine`
    * `Completes`
    * `HeaderScan.InPlace`
    * `HeaderEnd.Meets`

  Key theorems include:
    * `headerLoop_rule`
    * `HttpData.parseHeadersBy_of_not_inLine`
    * `HttpData.parseHeadersBy_of_inLine`
    * `HttpData.parseHeadersBy_raises_iff`
-/

------------------------------------------------------------
-- Turns Of The Loop
------------------------------------------------------------

namespace WebServer

namespace V3

open StdString

/-
  The induction rule of the loop: `I` holds at every index
  reached, `R` of the way the loop ends, `F` of the fault it
  raises.
-/
theorem headerLoop_rule
    (w : Ints)
    (str : Bytes)
    {I : Nat → HeaderScan → Prop}
    {R : HeaderEnd → Prop}
    {F : Fault → Prop}
    (hStop : ∀ scan, I str.length scan →
      R (.stopped str.length scan))
    (hTurn : ∀ i c scan, I i scan → str[i]? = some c →
      match scan.next w str c i with
      | .ok (.more scan') => I (i + 1) scan'
      | .ok (.done scan') => R (.stopped (i + 1) scan')
      | .ok (.error scan') => R (.error scan')
      | .error f => F f)
    {rest : Bytes}
    {i : Nat}
    {scan : HeaderScan}
    (hRest : str.drop i = rest)
    (hBound : i ≤ str.length)
    (hInit : I i scan) :
    match headerLoop w str rest i scan with
    | .ok how => R how
    | .error f => F f := by
  induction rest generalizing i scan with
  | nil =>
      have hEnd : i = str.length := by
        have hLong := List.drop_eq_nil_iff.mp hRest
        omega
      subst hEnd
      exact hStop scan hInit
  | cons c rest ih =>
      have hAt : str[i]? = some c := by
        rw [← List.head?_drop, hRest]
        rfl
      have hSmall : i < str.length :=
        (List.getElem?_eq_some_iff.mp hAt).1
      have hTail : str.drop (i + 1) = rest := by
        rw [← List.tail_drop, hRest]
        rfl
      have hNext := hTurn i c scan hInit hAt
      cases hCase : scan.next w str c i with
      | error f =>
          rw [headerLoop_of_fault hCase]
          simpa [hCase] using hNext
      | ok turn =>
          cases turn with
          | more scan' =>
              rw [headerLoop_of_more hCase]
              rw [hCase] at hNext
              exact ih hTail hSmall hNext
          | done scan' =>
              rw [headerLoop_of_done hCase]
              simpa [hCase] using hNext
          | error scan' =>
              rw [headerLoop_of_error hCase]
              simpa [hCase] using hNext

end V3

end WebServer

------------------------------------------------------------
-- From The Loop To The Call
------------------------------------------------------------

namespace WebServer

namespace V3

open StdString

/- What holds where the loop stopped, or ended in an error. -/
def HeaderEnd.Meets
    (P : Nat → HeaderScan → Prop)
    (E : HeaderScan → Prop) :
    HeaderEnd → Prop
| .stopped i scan => P i scan
| .error scan => E scan

namespace HttpData

/- The induction rule of the loop, for a whole call. -/
theorem scanHeaders_rule
    (d : HttpData)
    (w : Ints)
    {I : Nat → HeaderScan → Prop}
    {R : HeaderEnd → Prop}
    {F : Fault → Prop}
    (hStop : ∀ scan, I d.inBuffer.length scan →
      R (.stopped d.inBuffer.length scan))
    (hTurn : ∀ i c scan,
      I i scan → d.inBuffer[i]? = some c →
        match scan.next w d.inBuffer c i with
        | .ok (.more scan') => I (i + 1) scan'
        | .ok (.done scan') => R (.stopped (i + 1) scan')
        | .ok (.error scan') => R (.error scan')
        | .error f => F f)
    (hInit : I 0 ⟨d.hState, d.headers, .init⟩) :
    match d.scanHeaders w with
    | .ok how => R how
    | .error f => F f :=
  headerLoop_rule w d.inBuffer hStop hTurn List.drop_zero
    (Nat.zero_le _) hInit

variable {d : HttpData}
variable {w : Ints}
variable {scan : HeaderScan}

theorem parseHeadersBy_of_fault
    {f : Fault}
    (hLoop : d.scanHeaders w = .error f) :
    d.parseHeadersBy w = .error f := by
  simp only [parseHeadersBy, hLoop]
  rfl

theorem parseHeadersBy_of_error
    (hLoop : d.scanHeaders w = .ok (.error scan)) :
    d.parseHeadersBy w = .ok (.error, d.setScan scan) := by
  simp only [parseHeadersBy, hLoop]
  rfl

theorem parseHeadersBy_of_success
    {i : Nat}
    (hLoop : d.scanHeaders w = .ok (.stopped i scan))
    (hState : scan.hState = .endLf)
    (hBound : i ≤ d.inBuffer.length) :
    d.parseHeadersBy w =
      .ok
        (.success,
          { d.setScan scan with
            inBuffer := d.inBuffer.drop i }) := by
  simp only [parseHeadersBy, hLoop, bind, Except.bind,
    hState, if_true, substr_suffix hBound]

theorem parseHeadersBy_of_again
    {i : Nat}
    (hLoop : d.scanHeaders .exact = .ok (.stopped i scan))
    (hState : scan.hState ≠ .endLf)
    (hBound :
      scan.vars.nowReadLineBegin ≤ d.inBuffer.length) :
    d.parseHeadersBy .exact =
      .ok
        (.again,
          { d.setScan scan with
            inBuffer :=
              d.inBuffer.drop
                scan.vars.nowReadLineBegin.toNat }) := by
  have hSmall :
      scan.vars.nowReadLineBegin.toNat ≤
        d.inBuffer.length := by
    omega
  simp only [parseHeadersBy, hLoop, bind, Except.bind,
    hState, if_false, substr_suffix hSmall]

/-
  A call that reads the blank line stopped its loop there,
  and took what the loop passed off the buffer.
-/
theorem scanHeaders_of_success
    {d' : HttpData}
    (h : d.parseHeadersBy w = .ok (.success, d')) :
    ∃ i scan,
      d.scanHeaders w = .ok (.stopped i scan) ∧
        scan.hState = .endLf ∧
        i ≤ d.inBuffer.length ∧
        d' =
          { d.setScan scan with
            inBuffer := d.inBuffer.drop i } := by
  cases hCase : d.scanHeaders w with
  | error f =>
      rw [parseHeadersBy_of_fault hCase] at h
      cases h
  | ok how =>
      cases how with
      | error scan =>
          rw [parseHeadersBy_of_error hCase] at h
          cases h
      | stopped i scan =>
          by_cases hEnd : scan.hState = .endLf
          · by_cases hBound : i ≤ d.inBuffer.length
            · rw [parseHeadersBy_of_success hCase hEnd
                hBound] at h
              cases h
              exact ⟨i, scan, rfl, hEnd, hBound, rfl⟩
            · simp only [parseHeadersBy, hCase, bind,
                Except.bind, hEnd, if_true, substr, hBound,
                if_false] at h
              cases h
          · simp only [parseHeadersBy, hCase, bind,
              Except.bind, hEnd, if_false] at h
            cases hRest :
                substr d.inBuffer
                  (w.size scan.vars.nowReadLineBegin).toNat
                  d.inBuffer.length with
            | error f =>
                rw [hRest] at h
                cases h
            | ok rest =>
                rw [hRest] at h
                cases h

end HttpData

end V3

end WebServer

------------------------------------------------------------
-- Turns By State
------------------------------------------------------------

namespace WebServer

namespace V3

open StdString

namespace HeaderScan

variable {w : Ints}
variable {str : Bytes}
variable {scan : HeaderScan}
variable {c : Byte}
variable {i : Nat}

theorem next_key
    (hState : scan.hState = .key)
    (hColon : c ≠ 58)
    (hCr : c ≠ 13)
    (hLf : c ≠ 10) :
    scan.next w str c i = .ok (.more scan) := by
  simp [next, hState, isCr, isLf, hColon, hCr, hLf]

theorem next_key_colon
    (hState : scan.hState = .key)
    (hKey : scan.vars.keyStart < i) :
    scan.next .exact str 58 i =
      .ok
        (.more
          { scan with
            hState := .colon
            vars := { scan.vars with keyEnd := i } }) := by
  have hNot : ¬ (i : Int) - scan.vars.keyStart ≤ 0 := by
    omega
  simp only [next, Ints.exact_sub_bind, hState,
    beq_self_eq_true, if_true]
  rw [if_neg hNot]
  rfl

theorem next_key_error
    (hState : scan.hState = .key)
    (hEnd : c = 13 ∨ c = 10) :
    scan.next .exact str c i = .ok (.error scan) := by
  rcases hEnd with hEnd | hEnd <;>
    simp [next, hState, isCr, isLf, hEnd]

theorem next_colon
    (hState : scan.hState = .colon) :
    scan.next w str 32 i =
      .ok (.more { scan with hState := .spacesAfterColon }) := by
  simp [next, hState, setState]

theorem next_colon_error
    (hState : scan.hState = .colon)
    (hBlank : c ≠ 32) :
    scan.next .exact str c i = .ok (.error scan) := by
  simp [next, hState, hBlank]

theorem next_spacesAfterColon
    (hState : scan.hState = .spacesAfterColon) :
    scan.next .exact str c i =
      .ok
        (.more
          { scan with
            hState := .value
            vars := { scan.vars with valueStart := i } }) := by
  simp [next, hState]

theorem next_value
    (hState : scan.hState = .value)
    (hCr : c ≠ 13)
    (hShort : (i : Int) - scan.vars.valueStart ≤ 255) :
    scan.next .exact str c i = .ok (.more scan) := by
  have hNot : ¬ 255 < (i : Int) - scan.vars.valueStart := by
    omega
  simp [next, hState, isCr, hCr, hNot]

theorem next_value_error
    (hState : scan.hState = .value)
    (hCr : c ≠ 13)
    (hLong : 255 < (i : Int) - scan.vars.valueStart) :
    scan.next .exact str c i = .ok (.error scan) := by
  simp [next, hState, isCr, hCr, hLong]

theorem next_value_cr
    (hState : scan.hState = .value)
    (hValue : scan.vars.valueStart < i) :
    scan.next .exact str 13 i =
      .ok
        (.more
          { scan with
            hState := .cr
            vars := { scan.vars with valueEnd := i } }) := by
  have hNot : ¬ (i : Int) - scan.vars.valueStart ≤ 0 := by
    omega
  simp only [next, Ints.exact_sub_bind, hState, isCr,
    beq_self_eq_true, if_true]
  rw [if_neg hNot]

theorem next_cr_error
    (hState : scan.hState = .cr)
    (hLf : c ≠ 10) :
    scan.next .exact str c i = .ok (.error scan) := by
  simp [next, hState, isLf, hLf]

theorem next_cr_fault
    (hState : scan.hState = .cr)
    (hKey : scan.vars.keyStart < 0) :
    scan.next .exact str 10 i = .error .badRange := by
  have hRange :
      range str scan.vars.keyStart scan.vars.keyEnd =
        .error .badRange := by
    unfold range
    rw [if_neg]
    omega
  simp only [next, hState, isLf, hRange, beq_self_eq_true,
    if_true]
  rfl

end HeaderScan

end V3

end WebServer

------------------------------------------------------------
-- Calls That Start Between Lines
------------------------------------------------------------

namespace WebServer

namespace V3

open StdString

/- A header line is under way in this state. -/
def ParseState.inLine :
    ParseState → Bool
| .key => true
| .colon => true
| .spacesAfterColon => true
| .value => true
| .cr => true
| _ => false

/- The key of the line under way was set in this call. -/
def HeaderLocals.KeySet
    (vars : HeaderLocals)
    (i : Nat) : Prop :=
  0 ≤ vars.keyStart ∧
    vars.keyStart ≤ vars.keyEnd ∧
    vars.keyEnd ≤ i

/- The positions set so far are in order. -/
def HeaderScan.InPlace
    (i : Nat)
    (scan : HeaderScan) : Prop :=
  scan.vars.nowReadLineBegin ≤ i ∧
    match scan.hState with
    | .key =>
        0 ≤ scan.vars.keyStart ∧ scan.vars.keyStart < i
    | .colon => scan.vars.KeySet i
    | .spacesAfterColon => scan.vars.KeySet i
    | .value =>
        scan.vars.KeySet i ∧
          0 ≤ scan.vars.valueStart ∧
          scan.vars.valueStart < i
    | .cr =>
        scan.vars.KeySet i ∧
          0 ≤ scan.vars.valueStart ∧
          scan.vars.valueStart ≤ scan.vars.valueEnd ∧
          scan.vars.valueEnd ≤ i
    | _ => True

theorem range_of_inPlace
    {str : Bytes}
    {first last : Int}
    (hFirst : 0 ≤ first)
    (hOrder : first ≤ last)
    (hLast : last ≤ str.length) :
    range str first last =
      .ok
        ((str.drop first.toNat).take
          (last - first).toNat) :=
  if_pos ⟨hFirst, hOrder, hLast⟩

/- One turn keeps the positions in order and never raises. -/
theorem HeaderScan.InPlace.next
    {str : Bytes}
    {scan : HeaderScan}
    {i : Nat}
    (h : scan.InPlace i)
    (hBound : i ≤ str.length)
    (c : Byte) :
    match scan.next .exact str c i with
    | .ok (.more scan') => scan'.InPlace (i + 1)
    | .ok (.done scan') =>
        scan'.hState = .endLf ∧
          scan'.vars.nowReadLineBegin ≤ i + 1
    | .ok (.error _) => True
    | .error _ => False := by
  rcases scan with ⟨hState, headers, vars⟩
  unfold HeaderScan.InPlace at h ⊢
  cases hState <;>
    simp only [HeaderScan.next, Ints.exact_sub_bind,
      HeaderScan.setState, HeaderLocals.KeySet] at h ⊢
  case start =>
      split_ifs <;> simp only [and_true] <;> omega
  case key =>
      split_ifs <;> simp only <;> omega
  case colon =>
      split_ifs <;> simp only
      omega
  case spacesAfterColon =>
      omega
  case value =>
      split_ifs <;> simp only <;> omega
  case cr =>
      rcases h with ⟨_, hKey, hValue⟩
      rw [range_of_inPlace hKey.1 hKey.2.1 (by omega),
        range_of_inPlace hValue.1 hValue.2.1 (by omega)]
      split_ifs
      · exact ⟨by simp only; omega, trivial⟩
      · trivial
  case lf =>
      split_ifs <;> simp only [and_true] <;> omega
  case endCr =>
      split_ifs
      · simp only [and_true]
        omega
      · trivial
  case endLf =>
      exact ⟨trivial, by omega⟩

/- A call between lines starts with positions in order. -/
theorem HttpData.inPlace_init
    (d : HttpData)
    (hState : d.hState.inLine = false) :
    (⟨d.hState, d.headers, .init⟩ : HeaderScan).InPlace
      0 := by
  unfold HeaderScan.InPlace
  refine ⟨Int.le_refl 0, ?_⟩
  cases hCase : d.hState <;>
    simp_all [ParseState.inLine]

/-
  The loop of a call that does not start in the middle of a
  header line does not raise.
-/
theorem HttpData.scanHeaders_of_not_inLine
    (d : HttpData)
    (hState : d.hState.inLine = false) :
    match d.scanHeaders .exact with
    | .ok (.stopped i scan) =>
        i ≤ d.inBuffer.length ∧
          scan.vars.nowReadLineBegin ≤ d.inBuffer.length
    | .ok (.error _) => True
    | .error _ => False := by
  have hLoop :=
    d.scanHeaders_rule .exact
      (I := fun i scan =>
        i ≤ d.inBuffer.length ∧ scan.InPlace i)
      (R := HeaderEnd.Meets
        (fun i scan =>
          i ≤ d.inBuffer.length ∧
            scan.vars.nowReadLineBegin ≤ d.inBuffer.length)
        fun _ => True)
      (F := fun _ => False)
      (by
        intro scan hI
        exact ⟨Nat.le_refl _, hI.2.1⟩)
      (by
        intro i c scan hI hAt
        have hSmall : i < d.inBuffer.length :=
          (List.getElem?_eq_some_iff.mp hAt).1
        have hNext := hI.2.next hI.1 c
        cases hCase : scan.next .exact d.inBuffer c i with
        | error f => simp [hCase] at hNext
        | ok turn =>
            cases turn with
            | more scan' =>
                rw [hCase] at hNext
                exact ⟨hSmall, hNext⟩
            | done scan' =>
                rw [hCase] at hNext
                exact ⟨hSmall, by have := hNext.2; omega⟩
            | error scan' => trivial)
      ⟨Nat.zero_le _, d.inPlace_init hState⟩
  cases hCase : d.scanHeaders .exact with
  | error f => simp [hCase] at hLoop
  | ok how =>
      rw [hCase] at hLoop
      cases how with
      | error scan => trivial
      | stopped i scan => exact hLoop

/-
  A call that does not start in the middle of a header line
  returns.
-/
theorem HttpData.parseHeadersBy_of_not_inLine
    (d : HttpData)
    (hState : d.hState.inLine = false) :
    ∃ result, d.parseHeadersBy .exact = .ok result := by
  have hLoop := d.scanHeaders_of_not_inLine hState
  cases hCase : d.scanHeaders .exact with
  | error f => simp [hCase] at hLoop
  | ok how =>
      rw [hCase] at hLoop
      cases how with
      | error scan => exact ⟨_, parseHeadersBy_of_error hCase⟩
      | stopped i scan =>
          by_cases hEnd : scan.hState = .endLf
          · exact
              ⟨_, parseHeadersBy_of_success hCase hEnd hLoop.1⟩
          · exact
              ⟨_, parseHeadersBy_of_again hCase hEnd hLoop.2⟩

end V3

end WebServer

------------------------------------------------------------
-- Calls That Start In A Line
------------------------------------------------------------

namespace WebServer

namespace V3

open StdString

/- The bytes begin with the rest of a value, CR and LF. -/
def EndsValue
    (bytes : Bytes) : Prop :=
  ∃ text rest,
    bytes = text ++ 13 :: 10 :: rest ∧
      13 ∉ text ∧ text.length ≤ 255

/-
  The bytes begin with the rest of a header line that was
  begun earlier and left in this state.
-/
def Completes :
    ParseState → Bytes → Prop
| .key, bytes =>
    ∃ name c rest,
      bytes = name ++ 58 :: 32 :: c :: rest ∧
        (∀ b ∈ name, b ≠ 58 ∧ b ≠ 13 ∧ b ≠ 10) ∧
        EndsValue rest
| .colon, bytes =>
    ∃ c rest, bytes = 32 :: c :: rest ∧ EndsValue rest
| .spacesAfterColon, bytes =>
    ∃ c rest, bytes = c :: rest ∧ EndsValue rest
| .value, bytes => EndsValue bytes
| .cr, bytes => ∃ rest, bytes = 10 :: rest
| _, _ => False

/- Only a line that is under way can be completed. -/
theorem Completes.inLine
    {hState : ParseState}
    {bytes : Bytes}
    (h : Completes hState bytes) :
    hState.inLine = true := by
  cases hState <;>
    first
      | rfl
      | exact h.elim

/-
  A line is under way whose key has no start: it was begun
  in an earlier call.
-/
def HeaderScan.Stranded
    (scan : HeaderScan) : Prop :=
  scan.hState.inLine = true ∧ scan.vars.keyStart = -1

/- Such a line raises as soon as its LF is read. -/
theorem HeaderScan.Stranded.next
    {scan : HeaderScan}
    (h : scan.Stranded)
    (str : Bytes)
    (c : Byte)
    (i : Nat) :
    match scan.next .exact str c i with
    | .ok (.more scan') =>
        scan'.Stranded ∧
          scan'.headers = scan.headers ∧
          scan'.vars.nowReadLineBegin =
            scan.vars.nowReadLineBegin
    | .ok (.done _) => False
    | .ok (.error scan') => scan'.headers = scan.headers
    | .error f => f = .badRange := by
  rcases scan with ⟨hState, headers, vars⟩
  unfold HeaderScan.Stranded at h ⊢
  cases hState <;>
    simp only [ParseState.inLine, Bool.false_eq_true,
      false_and] at h <;>
    simp only [HeaderScan.next, Ints.exact_sub_bind,
      HeaderScan.setState]
  case key =>
      split_ifs <;> simp [ParseState.inLine, h]
  case colon =>
      split_ifs <;> simp [ParseState.inLine, h]
  case spacesAfterColon =>
      simp [ParseState.inLine, h]
  case value =>
      split_ifs <;> simp [ParseState.inLine, h]
  case cr =>
      have hRange :
          range str vars.keyStart vars.keyEnd =
            .error .badRange := by
        unfold range
        rw [if_neg]
        omega
      rw [hRange]
      split_ifs <;> rfl

/- After the CR of a stranded line. -/
theorem headerLoop_raises_cr
    {str bytes : Bytes}
    {i : Nat}
    {scan : HeaderScan}
    (hState : scan.hState = .cr)
    (hKey : scan.vars.keyStart = -1) :
    headerLoop .exact str bytes i scan = .error .badRange ↔
      ∃ rest, bytes = 10 :: rest := by
  cases bytes with
  | nil => simp [headerLoop]
  | cons c rest =>
      by_cases hLf : c = 10
      · subst hLf
        rw [headerLoop_of_fault
          (HeaderScan.next_cr_fault hState (by omega))]
        simp
      · rw [headerLoop_of_error
          (HeaderScan.next_cr_error hState hLf)]
        simp [hLf]

/- In the value of a stranded line, `k` bytes of it read. -/
theorem headerLoop_raises_value
    {str bytes : Bytes}
    {i k : Nat}
    {scan : HeaderScan}
    (hState : scan.hState = .value)
    (hKey : scan.vars.keyStart = -1)
    (hRead : (i : Int) - scan.vars.valueStart = k + 1)
    (hSmall : k ≤ 255) :
    headerLoop .exact str bytes i scan = .error .badRange ↔
      ∃ text rest,
        bytes = text ++ 13 :: 10 :: rest ∧
          13 ∉ text ∧ text.length + k ≤ 255 := by
  induction bytes generalizing i k with
  | nil =>
      simp [headerLoop]
  | cons c bytes ih =>
      by_cases hCr : c = 13
      · subst hCr
        have hLast :
            headerLoop .exact str bytes (i + 1)
                { scan with
                  hState := .cr
                  vars := { scan.vars with valueEnd := i } } =
                .error .badRange ↔
              ∃ rest, bytes = 10 :: rest := by
          apply headerLoop_raises_cr
          · rfl
          · exact hKey
        rw [headerLoop_of_more
            (HeaderScan.next_value_cr hState (by omega)),
          hLast]
        constructor
        · intro hRest
          rcases hRest with ⟨rest, rfl⟩
          exact ⟨[], rest, rfl, by simp, by simpa⟩
        · intro hForm
          rcases hForm with ⟨text, rest, hForm, hText, _⟩
          cases text with
          | nil => exact ⟨rest, by simpa using hForm⟩
          | cons d text => simp_all
      · by_cases hLong : k = 255
        · rw [headerLoop_of_error
            (HeaderScan.next_value_error hState hCr
              (by omega))]
          constructor
          · intro hFault
            cases hFault
          · intro hForm
            rcases hForm with ⟨text, rest, hForm, _, hLen⟩
            cases text with
            | nil => simp_all
            | cons d text =>
                simp only [List.length_cons] at hLen
                omega
        · rw [headerLoop_of_more
              (HeaderScan.next_value hState hCr (by omega)),
            ih (k := k + 1) (by push_cast; omega) (by omega)]
          constructor
          · intro hForm
            rcases hForm with ⟨text, rest, rfl, hText, hLen⟩
            refine ⟨c :: text, rest, rfl, ?_, ?_⟩
            · simp only [List.mem_cons, not_or]
              exact ⟨fun hEq => hCr hEq.symm, hText⟩
            · simp only [List.length_cons]
              omega
          · intro hForm
            rcases hForm with ⟨text, rest, hForm, hText, hLen⟩
            cases text with
            | nil => simp_all
            | cons d text =>
                simp only [List.cons_append,
                  List.cons.injEq] at hForm
                simp only [List.mem_cons, not_or] at hText
                simp only [List.length_cons] at hLen
                exact
                  ⟨text, rest, hForm.2, hText.2, by omega⟩

/- In front of the value of a stranded line. -/
theorem headerLoop_raises_spacesAfterColon
    {str bytes : Bytes}
    {i : Nat}
    {scan : HeaderScan}
    (hState : scan.hState = .spacesAfterColon)
    (hKey : scan.vars.keyStart = -1) :
    headerLoop .exact str bytes i scan = .error .badRange ↔
      ∃ c rest, bytes = c :: rest ∧ EndsValue rest := by
  cases bytes with
  | nil => simp [headerLoop]
  | cons c rest =>
      have hValue :
          headerLoop .exact str rest (i + 1)
              { scan with
                hState := .value
                vars := { scan.vars with valueStart := i } } =
              .error .badRange ↔
            EndsValue rest := by
        apply headerLoop_raises_value (k := 0)
        · rfl
        · exact hKey
        · push_cast
          omega
        · omega
      rw [headerLoop_of_more
          (HeaderScan.next_spacesAfterColon hState),
        hValue]
      simp

/- After the colon of a stranded line. -/
theorem headerLoop_raises_colon
    {str bytes : Bytes}
    {i : Nat}
    {scan : HeaderScan}
    (hState : scan.hState = .colon)
    (hKey : scan.vars.keyStart = -1) :
    headerLoop .exact str bytes i scan = .error .badRange ↔
      ∃ c rest, bytes = 32 :: c :: rest ∧ EndsValue rest := by
  cases bytes with
  | nil => simp [headerLoop]
  | cons c rest =>
      by_cases hBlank : c = 32
      · subst hBlank
        have hSpaces :
            headerLoop .exact str rest (i + 1)
                { scan with hState := .spacesAfterColon } =
                .error .badRange ↔
              ∃ c more, rest = c :: more ∧ EndsValue more := by
          apply headerLoop_raises_spacesAfterColon
          · rfl
          · exact hKey
        rw [headerLoop_of_more (HeaderScan.next_colon hState),
          hSpaces]
        simp
      · rw [headerLoop_of_error
          (HeaderScan.next_colon_error hState hBlank)]
        simp [hBlank]

/- In the key of a stranded line. -/
theorem headerLoop_raises_key
    {str bytes : Bytes}
    {i : Nat}
    {scan : HeaderScan}
    (hState : scan.hState = .key)
    (hKey : scan.vars.keyStart = -1) :
    headerLoop .exact str bytes i scan = .error .badRange ↔
      Completes .key bytes := by
  induction bytes generalizing i with
  | nil => simp [headerLoop, Completes]
  | cons c bytes ih =>
      by_cases hColon : c = 58
      · subst hColon
        have hAfter :
            headerLoop .exact str bytes (i + 1)
                { scan with
                  hState := .colon
                  vars := { scan.vars with keyEnd := i } } =
                .error .badRange ↔
              ∃ c rest,
                bytes = 32 :: c :: rest ∧ EndsValue rest := by
          apply headerLoop_raises_colon
          · rfl
          · exact hKey
        rw [headerLoop_of_more
            (HeaderScan.next_key_colon hState (by omega)),
          hAfter]
        constructor
        · intro hForm
          rcases hForm with ⟨c, rest, rfl, hEnds⟩
          exact ⟨[], c, rest, rfl, by simp, hEnds⟩
        · intro hForm
          rcases hForm with ⟨name, c, rest, hForm, hName, hEnds⟩
          cases name with
          | nil => exact ⟨c, rest, by simpa using hForm, hEnds⟩
          | cons d name =>
              simp only [List.cons_append,
                List.cons.injEq] at hForm
              exact absurd hForm.1.symm (hName d (by simp)).1
      · by_cases hEnd : c = 13 ∨ c = 10
        · rw [headerLoop_of_error
            (HeaderScan.next_key_error hState hEnd)]
          constructor
          · intro hFault
            cases hFault
          · intro hForm
            rcases hForm with ⟨name, d, rest, hForm, hName, _⟩
            cases name with
            | nil => simp_all
            | cons e name =>
                simp only [List.cons_append,
                  List.cons.injEq] at hForm
                have hPlain := hName e (by simp)
                rw [← hForm.1] at hPlain
                rcases hEnd with hEnd | hEnd
                · exact absurd hEnd hPlain.2.1
                · exact absurd hEnd hPlain.2.2
        · rw [not_or] at hEnd
          rw [headerLoop_of_more
              (HeaderScan.next_key hState hColon hEnd.1
                hEnd.2),
            ih]
          constructor
          · intro hForm
            rcases hForm with ⟨name, d, rest, rfl, hName, hEnds⟩
            refine ⟨c :: name, d, rest, rfl, ?_, hEnds⟩
            intro b hMem
            rcases List.mem_cons.mp hMem with rfl | hMem
            · exact ⟨hColon, hEnd⟩
            · exact hName b hMem
          · intro hForm
            rcases hForm with
              ⟨name, d, rest, hForm, hName, hEnds⟩
            cases name with
            | nil => simp_all
            | cons e name =>
                simp only [List.cons_append,
                  List.cons.injEq] at hForm
                exact
                  ⟨name, d, rest, hForm.2,
                    fun b hMem => hName b (by simp [hMem]),
                    hEnds⟩

/-
  The loop of a call that starts in the middle of a header
  line does not get past that line.
-/
theorem HttpData.scanHeaders_of_inLine
    (d : HttpData)
    (hState : d.hState.inLine = true) :
    match d.scanHeaders .exact with
    | .ok (.stopped _ scan) =>
        scan.hState.inLine = true ∧
          scan.headers = d.headers ∧
          scan.vars.nowReadLineBegin = 0
    | .ok (.error scan) => scan.headers = d.headers
    | .error f => f = .badRange := by
  have hLoop :=
    d.scanHeaders_rule .exact
      (I := fun _ scan =>
        scan.Stranded ∧
          scan.headers = d.headers ∧
          scan.vars.nowReadLineBegin = 0)
      (R := HeaderEnd.Meets
        (fun _ scan =>
          scan.hState.inLine = true ∧
            scan.headers = d.headers ∧
            scan.vars.nowReadLineBegin = 0)
        fun scan => scan.headers = d.headers)
      (F := fun f => f = .badRange)
      (by
        intro scan hI
        exact ⟨hI.1.1, hI.2⟩)
      (by
        intro i c scan hI hAt
        have hNext := hI.1.next d.inBuffer c i
        cases hCase : scan.next .exact d.inBuffer c i with
        | error f =>
            rw [hCase] at hNext
            exact hNext
        | ok turn =>
            rw [hCase] at hNext
            cases turn with
            | more scan' =>
                exact
                  ⟨hNext.1, hNext.2.1.trans hI.2.1,
                    hNext.2.2.trans hI.2.2⟩
            | done scan' => exact hNext.elim
            | error scan' => exact hNext.trans hI.2.1)
      ⟨⟨hState, rfl⟩, rfl, rfl⟩
  cases hCase : d.scanHeaders .exact with
  | error f =>
      rw [hCase] at hLoop
      exact hLoop
  | ok how =>
      rw [hCase] at hLoop
      cases how with
      | error scan => exact hLoop
      | stopped i scan => exact hLoop

/-
  A call that starts in the middle of a header line raises,
  answers an error, or waits in the middle of a line again.
-/
theorem HttpData.parseHeadersBy_of_inLine
    (d : HttpData)
    (hState : d.hState.inLine = true) :
    d.parseHeadersBy .exact = .error .badRange ∨
      (∃ d', d.parseHeadersBy .exact = .ok (.error, d')) ∨
      (∃ scan,
        scan.hState.inLine = true ∧
          d.parseHeadersBy .exact =
            .ok (.again, d.setScan scan)) := by
  have hLoop := d.scanHeaders_of_inLine hState
  cases hCase : d.scanHeaders .exact with
  | error f =>
      rw [hCase] at hLoop
      exact .inl (hLoop ▸ parseHeadersBy_of_fault hCase)
  | ok how =>
      rw [hCase] at hLoop
      cases how with
      | error scan =>
          exact .inr (.inl ⟨_, parseHeadersBy_of_error hCase⟩)
      | stopped i scan =>
          rcases hLoop with ⟨hLine, _, hBegin⟩
          have hEnd : scan.hState ≠ .endLf := by
            intro hEnd
            simp [hEnd, ParseState.inLine] at hLine
          have hCall :=
            parseHeadersBy_of_again hCase hEnd
              (by rw [hBegin]; exact Int.natCast_nonneg _)
          rw [hBegin, Int.toNat_zero, List.drop_zero] at hCall
          exact .inr (.inr ⟨scan, hLine, hCall⟩)

/-
  The loop of a call that starts in the middle of a header
  line raises exactly when the bytes complete the line.
-/
theorem HttpData.scanHeaders_raises_iff
    (d : HttpData)
    (hState : d.hState.inLine = true) :
    d.scanHeaders .exact = .error .badRange ↔
      Completes d.hState d.inBuffer := by
  unfold scanHeaders
  cases hCase : d.hState <;>
    simp only [hCase, ParseState.inLine,
      Bool.false_eq_true] at hState
  case key => exact headerLoop_raises_key rfl rfl
  case colon => exact headerLoop_raises_colon rfl rfl
  case spacesAfterColon =>
      exact headerLoop_raises_spacesAfterColon rfl rfl
  case value =>
      exact
        headerLoop_raises_value (k := 0) rfl rfl (by rfl)
          (by omega)
  case cr => exact headerLoop_raises_cr rfl rfl

/- And so does the call. -/
theorem HttpData.parseHeadersBy_raises_iff
    (d : HttpData)
    (hState : d.hState.inLine = true) :
    d.parseHeadersBy .exact = .error .badRange ↔
      Completes d.hState d.inBuffer := by
  rw [← d.scanHeaders_raises_iff hState]
  constructor
  · intro hRaises
    have hForm := d.scanHeaders_of_inLine hState
    cases hCase : d.scanHeaders .exact with
    | error f =>
        rw [hCase] at hForm
        exact congrArg Except.error hForm
    | ok how =>
        rw [hCase] at hForm
        cases how with
        | error scan =>
            rw [parseHeadersBy_of_error hCase] at hRaises
            cases hRaises
        | stopped i scan =>
            rcases hForm with ⟨hLine, _, hBegin⟩
            have hEnd : scan.hState ≠ .endLf := by
              intro hEnd
              simp [hEnd, ParseState.inLine] at hLine
            rw [parseHeadersBy_of_again hCase hEnd
              (by rw [hBegin]; exact Int.natCast_nonneg _)]
              at hRaises
            cases hRaises
  · exact parseHeadersBy_of_fault

end V3

end WebServer
