import WebServer.V3.Net.Exceptions

/-
  The positions that `parseHeaders` builds its strings from.

  A key and a value are copied out of `inBuffer_` at the LF
  that ends their line. In a call that starts between lines
  all four positions were set in that call and are in order,
  as long as no index wraps in an `int`. `hState_` outlives
  the call and the positions do not: a call that starts in
  the middle of a line and completes it builds the key
  from -1.

  Key definitions include:
    * `headerBuilds`
    * `HttpData.builds`
    * `Conn.headerCall`
    * `BuildsInRange`
    * `LinesWhole`

  Key theorems include:
    * `headerBuilds_rule`
    * `HttpData.builds_eq`
    * `HttpData.builds_inRange_iff`
    * `Conn.atBody_raises_iff`
    * `header_positions_in_range_iff`
-/

------------------------------------------------------------
-- Strings Built In A Call
------------------------------------------------------------

namespace WebServer

namespace V3

open StdString

/- The index and the positions where strings are built. -/
structure HeaderBuild where
  i : Nat
  vars : HeaderLocals
deriving DecidableEq, Repr

/-
  Both strings are parts of the buffer in front of the
  current index, and neither is empty.
-/
def HeaderBuild.InRange
    (build : HeaderBuild) : Prop :=
  (0 ≤ build.vars.keyStart ∧
      build.vars.keyStart < build.vars.keyEnd ∧
      build.vars.keyEnd ≤ build.i) ∧
    0 ≤ build.vars.valueStart ∧
    build.vars.valueStart < build.vars.valueEnd ∧
    build.vars.valueEnd ≤ build.i

instance
    (build : HeaderBuild) : Decidable build.InRange := by
  unfold HeaderBuild.InRange
  infer_instance

/- The loop builds strings at the LF behind a CR. -/
def HeaderScan.buildsAt
    (scan : HeaderScan)
    (c : Byte)
    (i : Nat) : List HeaderBuild :=
  if scan.hState = .cr ∧ isLf c then [⟨i, scan.vars⟩] else []

/- The strings that the loop builds, in order. -/
def headerBuilds
    (w : Ints)
    (str : Bytes) :
    Bytes → Nat → HeaderScan → List HeaderBuild
| [], _, _ => []
| c :: rest, i, scan =>
    scan.buildsAt c i ++
      match scan.next w str c i with
      | .ok (.more scan) =>
          headerBuilds w str rest (i + 1) scan
      | _ => []

namespace HttpData

/- What a call builds, its numbers kept as `w` does. -/
def buildsBy
    (d : HttpData)
    (w : Ints) : List HeaderBuild :=
  headerBuilds w d.inBuffer d.inBuffer 0
    ⟨d.hState, d.headers, .init⟩

/- The strings that a call of `parseHeaders` builds. -/
def builds
    (d : HttpData) : List HeaderBuild :=
  d.buildsBy .machine

end HttpData

/- Below 2^31 the width of the positions does not matter. -/
theorem headerBuilds_eq
    {rest : Bytes}
    {i : Nat}
    {scan : HeaderScan}
    (hWithin : scan.vars.Within i)
    (hSmall : i + rest.length < 2 ^ 31)
    (str : Bytes) :
    headerBuilds .machine str rest i scan =
      headerBuilds .exact str rest i scan := by
  induction rest generalizing i scan with
  | nil => rfl
  | cons c rest ih =>
      rw [List.length_cons] at hSmall
      have hNext := hWithin.next str c
      simp only [headerBuilds,
        HeaderScan.next_eq hWithin (by omega) str c]
      cases hCase : scan.next .exact str c i with
      | error f => rfl
      | ok turn =>
          rw [hCase] at hNext
          cases turn with
          | more scan₁ =>
              simp only
              rw [ih (i := i + 1) hNext (by omega)]
          | done scan₁ => rfl
          | error scan₁ => rfl

theorem HttpData.builds_eq
    {d : HttpData}
    (hShort : d.inBuffer.length < 2 ^ 31) :
    d.builds = d.buildsBy .exact :=
  headerBuilds_eq HeaderLocals.within_init
    (by omega : 0 + d.inBuffer.length < 2 ^ 31) d.inBuffer

/-
  What an invariant of the loop says where strings are built
  holds of all strings built.
-/
theorem headerBuilds_rule
    (str : Bytes)
    {I : Nat → HeaderScan → Prop}
    {P : HeaderBuild → Prop}
    (hTurn : ∀ i c scan scan',
      I i scan → str[i]? = some c →
        scan.next .exact str c i = .ok (.more scan') →
          I (i + 1) scan')
    (hBuild : ∀ i scan,
      I i scan → scan.hState = .cr → P ⟨i, scan.vars⟩)
    {rest : Bytes}
    {i : Nat}
    {scan : HeaderScan}
    (hRest : str.drop i = rest)
    (hInit : I i scan) :
    ∀ build ∈ headerBuilds .exact str rest i scan,
      P build := by
  induction rest generalizing i scan with
  | nil => simp [headerBuilds]
  | cons c rest ih =>
      have hAt : str[i]? = some c := by
        rw [← List.head?_drop, hRest]
        rfl
      have hTail : str.drop (i + 1) = rest := by
        rw [← List.tail_drop, hRest]
        rfl
      intro build hMem
      rcases List.mem_append.mp hMem with hHere | hLater
      · unfold HeaderScan.buildsAt at hHere
        split_ifs at hHere with hLine
        · rw [List.mem_singleton.mp hHere]
          exact hBuild i scan hInit hLine.1
        · cases hHere
      · cases hNext : scan.next .exact str c i with
        | error f =>
            rw [hNext] at hLater
            cases hLater
        | ok turn =>
            rw [hNext] at hLater
            cases turn with
            | more scan' =>
                exact
                  ih hTail (hTurn i c scan scan' hInit hAt hNext)
                    build hLater
            | done scan' => cases hLater
            | error scan' => cases hLater

/-
  A turn raises only where strings are built, and not from
  positions that are in range.
-/
theorem HeaderScan.next_fault
    {str : Bytes}
    {scan : HeaderScan}
    {c : Byte}
    {i : Nat}
    {f : Fault}
    (hSmall : i < str.length)
    (hNext : scan.next .exact str c i = .error f) :
    (scan.hState = .cr ∧ isLf c) ∧
      ¬ (⟨i, scan.vars⟩ : HeaderBuild).InRange := by
  rcases scan with ⟨hState, headers, vars⟩
  cases hState <;>
    simp only [HeaderScan.next, Ints.exact_sub_bind,
      HeaderScan.setState] at hNext
  case cr =>
      split_ifs at hNext with hLf
      refine ⟨⟨rfl, hLf⟩, ?_⟩
      rintro ⟨hKey, hValue⟩
      simp only at hKey hValue
      rw [range_of_inPlace hKey.1 (by omega) (by omega),
        range_of_inPlace hValue.1 (by omega) (by omega)]
        at hNext
      cases hNext
  case spacesAfterColon => cases hNext
  case endLf => cases hNext
  all_goals split_ifs at hNext

/- A loop that raises has built a string out of range. -/
theorem exists_build_of_fault
    {str rest : Bytes}
    {i : Nat}
    {scan : HeaderScan}
    {f : Fault}
    (hRest : str.drop i = rest)
    (hLoop : headerLoop .exact str rest i scan = .error f) :
    ∃ build ∈ headerBuilds .exact str rest i scan,
      ¬ build.InRange := by
  induction rest generalizing i scan with
  | nil => cases hLoop
  | cons c rest ih =>
      have hSmall : i < str.length := by
        by_contra hLong
        rw [List.drop_eq_nil_of_le (by omega)] at hRest
        cases hRest
      have hTail : str.drop (i + 1) = rest := by
        rw [← List.tail_drop, hRest]
        rfl
      cases hNext : scan.next .exact str c i with
      | ok turn =>
          cases turn with
          | more scan' =>
              rw [headerLoop_of_more hNext] at hLoop
              rcases ih hTail hLoop with ⟨build, hMem, hBad⟩
              refine ⟨build, ?_, hBad⟩
              simp only [headerBuilds, hNext]
              exact List.mem_append_right _ hMem
          | done scan' =>
              rw [headerLoop_of_done hNext] at hLoop
              cases hLoop
          | error scan' =>
              rw [headerLoop_of_error hNext] at hLoop
              cases hLoop
      | error g =>
          have hFault := HeaderScan.next_fault hSmall hNext
          refine ⟨⟨i, scan.vars⟩, ?_, hFault.2⟩
          simp only [headerBuilds, HeaderScan.buildsAt,
            if_pos hFault.1]
          exact List.mem_append_left _ List.mem_cons_self

end V3

end WebServer

------------------------------------------------------------
-- Calls Between Lines And In The Middle Of One
------------------------------------------------------------

namespace WebServer

namespace V3

open StdString

/- A key that is complete is not empty, and so is a value. -/
def HeaderScan.Nonempty
    (scan : HeaderScan) : Prop :=
  match scan.hState with
  | .colon => scan.vars.keyStart < scan.vars.keyEnd
  | .spacesAfterColon =>
      scan.vars.keyStart < scan.vars.keyEnd
  | .value => scan.vars.keyStart < scan.vars.keyEnd
  | .cr =>
      scan.vars.keyStart < scan.vars.keyEnd ∧
        scan.vars.valueStart < scan.vars.valueEnd
  | _ => True

/- The checks at the colon and at the CR keep it so. -/
theorem HeaderScan.Nonempty.next
    {str : Bytes}
    {scan scan' : HeaderScan}
    {c : Byte}
    {i : Nat}
    (h : scan.Nonempty)
    (hNext : scan.next .exact str c i = .ok (.more scan')) :
    scan'.Nonempty := by
  rcases scan with ⟨hState, headers, vars⟩
  unfold HeaderScan.Nonempty at h ⊢
  cases hState <;>
    simp only [HeaderScan.next, Ints.exact_sub_bind,
      HeaderScan.setState] at h hNext
  case start =>
      split_ifs at hNext <;> cases hNext <;> trivial
  case key =>
      split_ifs at hNext <;> cases hNext
      · simp only
        omega
      · trivial
  case colon =>
      split_ifs at hNext <;> cases hNext
      exact h
  case spacesAfterColon =>
      cases hNext
      exact h
  case value =>
      split_ifs at hNext <;> cases hNext
      · simp only
        exact ⟨h, by omega⟩
      · exact h
  case cr =>
      split_ifs at hNext <;> try cases hNext
      cases hKey : range str vars.keyStart vars.keyEnd with
      | error f =>
          rw [hKey] at hNext
          cases hNext
      | ok key =>
          cases hValue :
              range str vars.valueStart vars.valueEnd with
          | error f =>
              rw [hKey, hValue] at hNext
              cases hNext
          | ok value =>
              rw [hKey, hValue] at hNext
              cases hNext
              trivial
  case lf =>
      split_ifs at hNext <;> cases hNext <;> trivial
  case endCr =>
      split_ifs at hNext <;> cases hNext
      trivial
  case endLf => cases hNext

namespace HttpData

/-
  A call that does not start in the middle of a line builds
  its strings from positions that are in range.
-/
theorem builds_inRange_of_not_inLine
    (d : HttpData)
    (hState : d.hState.inLine = false) :
    ∀ build ∈ d.buildsBy .exact, build.InRange := by
  apply
    headerBuilds_rule d.inBuffer
      (I := fun i scan => scan.InPlace i ∧ scan.Nonempty)
      (P := HeaderBuild.InRange)
  · intro i c scan scan' hI hAt hNext
    have hSmall : i < d.inBuffer.length :=
      (List.getElem?_eq_some_iff.mp hAt).1
    have hPlace := hI.1.next (Nat.le_of_lt hSmall) c
    rw [hNext] at hPlace
    exact ⟨hPlace, hI.2.next hNext⟩
  · rintro i ⟨hState, headers, vars⟩ ⟨hPlace, hNonempty⟩ rfl
    rcases hPlace with ⟨_, hKey, hValue⟩
    exact
      ⟨⟨hKey.1, hNonempty.1, hKey.2.2⟩, hValue.1,
        hNonempty.2, hValue.2.2⟩
  · exact List.drop_zero
  · refine ⟨d.inPlace_init hState, ?_⟩
    unfold HeaderScan.Nonempty
    cases hCase : d.hState <;>
      simp_all [ParseState.inLine]

/- A stranded line builds nothing unless it raises. -/
theorem builds_of_stranded
    {str rest : Bytes}
    {i : Nat}
    {scan : HeaderScan}
    {how : HeaderEnd}
    (hStranded : scan.Stranded)
    (hLoop : headerLoop .exact str rest i scan = .ok how) :
    headerBuilds .exact str rest i scan = [] := by
  induction rest generalizing i scan with
  | nil => rfl
  | cons c rest ih =>
      have hNot : scan.buildsAt c i = [] := by
        unfold HeaderScan.buildsAt
        rw [if_neg]
        rintro ⟨hCr, hLf⟩
        rw [show c = 10 by simpa [isLf] using hLf,
          headerLoop_of_fault
            (HeaderScan.next_cr_fault hCr
              (by have := hStranded.2; omega))] at hLoop
        cases hLoop
      have hNext := hStranded.next str c i
      rw [headerBuilds, hNot, List.nil_append]
      cases hCase : scan.next .exact str c i with
      | error f => rfl
      | ok turn =>
          rw [hCase] at hNext
          cases turn with
          | more scan' =>
              rw [headerLoop_of_more hCase] at hLoop
              exact ih hNext.1 hLoop
          | done scan' => rfl
          | error scan' => rfl

/-
  All strings that a short call builds are in range, unless
  it completes a line that an earlier call began.
-/
theorem builds_inRange_iff
    {d : HttpData}
    (hShort : d.inBuffer.length < 2 ^ 31) :
    (∀ build ∈ d.builds, build.InRange) ↔
      ¬ Completes d.hState d.inBuffer := by
  rw [builds_eq hShort]
  cases hLine : d.hState.inLine with
  | false =>
      have hNot : ¬ Completes d.hState d.inBuffer := by
        intro hCompletes
        rw [hCompletes.inLine] at hLine
        cases hLine
      exact
        iff_of_true (d.builds_inRange_of_not_inLine hLine)
          hNot
  | true =>
      rw [← d.scanHeaders_raises_iff hLine]
      constructor
      · intro hRange hRaises
        rcases
          exists_build_of_fault List.drop_zero hRaises with
          ⟨build, hMem, hBad⟩
        exact hBad (hRange build hMem)
      · intro hReturns
        have hForm := d.scanHeaders_of_inLine hLine
        cases hLoop : d.scanHeaders .exact with
        | error f =>
            rw [hLoop] at hForm hReturns
            exact absurd (congrArg Except.error hForm) hReturns
        | ok how =>
            have hNone : d.buildsBy .exact = [] :=
              builds_of_stranded ⟨hLine, rfl⟩ hLoop
            rw [hNone]
            simp

end HttpData

end V3

end WebServer

------------------------------------------------------------
-- Every Call Of A Connection
------------------------------------------------------------

namespace WebServer

namespace V3

open StdString

/- The members with which a pass calls `parseHeaders`. -/
def Conn.headerCall
    (c : Conn) : Option HttpData :=
  match c.atHeaders with
  | .ok (.go c₁) =>
      if c₁.http.state = .parseHeaders then
        some c₁.http
      else
        none
  | _ => none

/- A short pass calls `parseHeaders` on a short buffer. -/
theorem Conn.short_of_headerCall
    {c : Conn}
    {d : HttpData}
    (hShort : c.left < 2 ^ 31)
    (hPos : c.http.nowReadPos = 0)
    (hCall : d ∈ c.headerCall) :
    d.inBuffer.length < 2 ^ 31 := by
  unfold headerCall at hCall
  cases hLine : c.atHeaders with
  | error f =>
      rw [hLine] at hCall
      cases hCall
  | ok flow =>
      rw [hLine] at hCall
      cases flow with
      | brk c₁ => cases hCall
      | go c₁ =>
          simp only at hCall
          split_ifs at hCall
          · cases hCall
            exact short_of_atHeaders hShort hPos hLine
          · cases hCall

/-
  Up to the body a short pass raises exactly when it builds
  a string out of range.
-/
theorem Conn.atBody_raises_iff
    {c : Conn}
    (hPos : c.http.nowReadPos = 0)
    (hShort : c.left < 2 ^ 31) :
    (∃ f, c.atBody = .error f) ↔
      ∃ d ∈ c.headerCall,
        ∃ build ∈ d.builds, ¬ build.InRange := by
  rcases atHeaders_ok hPos with ⟨flow, hLine⟩
  unfold Conn.atBody headerCall
  rw [hLine]
  cases flow with
  | brk c₁ =>
      constructor
      · rintro ⟨f, hRaises⟩
        cases hRaises
      · rintro ⟨d, hCall, _⟩
        cases hCall
  | go c₁ =>
      have hFew := short_of_atHeaders hShort hPos hLine
      have hStage := headerStage_raises_iff hFew
      have hBuilds := HttpData.builds_inRange_iff hFew
      by_cases hState : c₁.http.state = .parseHeaders
      · have hBad :
            (∃ build ∈ c₁.http.builds, ¬ build.InRange) ↔
              Completes c₁.http.hState c₁.http.inBuffer := by
          rw [← not_iff_not, ← hBuilds]
          push Not
          rfl
        simp only [if_pos hState, Option.mem_some_iff,
          exists_eq_left', hBad]
        exact hStage.trans (and_iff_right hState)
      · simp only [if_neg hState]
        constructor
        · intro hRaises
          exact absurd (hStage.mp hRaises).1 hState
        · rintro ⟨d, hCall, _⟩
          cases hCall

/-
  All strings that `parseHeaders` builds in a call of
  `handleRead`, and in the calls inside it, are in range.
-/
def BuildsInRange
    (c : Conn) :
    ReadEvent → Prop
| .readable fs reads writes =>
    ∀ c', Conn.NestedCall fs (c.wake reads writes) c' →
      ∀ d ∈ c'.headerCall,
        ∀ build ∈ d.builds, build.InRange
| .writable _ => True

/-
  No call of `parseHeaders` completes a header line that an
  earlier call began.
-/
def LinesWhole
    (c : Conn) :
    ReadEvent → Prop
| .readable fs reads writes =>
    ∀ c', Conn.NestedCall fs (c.wake reads writes) c' →
      ∀ d ∈ c'.headerCall,
        ¬ Completes d.hState d.inBuffer
| .writable _ => True

theorem buildsInRange_iff
    {c : Conn}
    {e : ReadEvent}
    (hPos : c.http.nowReadPos = 0)
    (hShort : CallShort c e) :
    BuildsInRange c e ↔ LinesWhole c e := by
  cases e with
  | writable writes => exact Iff.rfl
  | readable fs reads writes =>
      have hFew : ∀ c',
          Conn.NestedCall fs (c.wake reads writes) c' →
            ∀ d ∈ c'.headerCall,
              d.inBuffer.length < 2 ^ 31 := by
        intro c' hNested d hCall
        have hLater := hNested.later hPos
        exact
          c'.short_of_headerCall
            (Nat.lt_of_le_of_lt hLater.left hShort)
            (hLater.nowReadPos hPos) hCall
      constructor
      · intro hRange c' hNested d hCall
        exact
          (HttpData.builds_inRange_iff
            (hFew c' hNested d hCall)).mp
            (hRange c' hNested d hCall)
      · intro hWhole c' hNested d hCall
        exact
          (HttpData.builds_inRange_iff
            (hFew c' hNested d hCall)).mpr
            (hWhole c' hNested d hCall)

/-
  However the bytes of a client are cut into chunks, as long
  as these are short enough for the `int` positions: all
  strings that `parseHeaders` builds are in range, if and
  only if no call of it completes a header line that an
  earlier call began.
-/
theorem header_positions_in_range_iff
    {socket : Socket}
    {es : List ReadEvent}
    (hShort :
      readMachine.StepsMeet CallShort (.new socket) es) :
    readMachine.StepsMeet BuildsInRange (.new socket) es ↔
      readMachine.StepsMeet LinesWhole (.new socket) es := by
  apply
    Machine.stepsMeet_congr
      (I := fun c : Conn => c.http.nowReadPos = 0)
      (A := CallShort)
  · intro c e c' hPos _ hStep
    exact (readMachine_length_le hPos hStep).1
  · intro c e hPos _ hFew
    exact buildsInRange_iff hPos hFew
  · rfl
  · exact hShort

/- A request cut between two of its header lines. -/
theorem header_positions_in_range_iff_two_lines :
    readMachine.StepsMeet BuildsInRange
        (.new ⟨[], [], []⟩)
        [.readable noFiles
            [.data (utf8 "GET / HTTP/1.1\r\nA: b\r\n")] [],
          .readable noFiles
            [.data (utf8 "C: d\r\n\r\n")] []] ↔
      readMachine.StepsMeet LinesWhole
        (.new ⟨[], [], []⟩)
        [.readable noFiles
            [.data (utf8 "GET / HTTP/1.1\r\nA: b\r\n")] [],
          .readable noFiles
            [.data (utf8 "C: d\r\n\r\n")] []] :=
  header_positions_in_range_iff
    (stepsMeet_callShort rfl (by decide +kernel))

/- A header line cut in two is built from position -1. -/
theorem header_position_out_of_range :
    ¬ readMachine.StepsMeet BuildsInRange
      (.new ⟨[], [], []⟩)
      [.readable noFiles
          [.data (utf8 "GET / HTTP/1.1\r\nA")] [],
        .readable noFiles [.data (utf8 ": b\r\n")] []] := by
  intro hAll
  have hRun :
      ((readMachine.step (.new ⟨[], [], []⟩)
            (.readable noFiles
              [.data (utf8 "GET / HTTP/1.1\r\nA")] [])).bind
          fun c =>
            (c.wake [.data (utf8 ": b\r\n")] []).headerCall.map
              fun d =>
                (c.http.error,
                  d.builds.all fun build =>
                    decide build.InRange)) =
        some (false, false) := by
    decide +kernel
  rcases Option.bind_eq_some_iff.mp hRun with
    ⟨c, hStep, hCall⟩
  rcases Option.map_eq_some_iff.mp hCall with
    ⟨d, hHeader, hEnd⟩
  simp only [Prod.mk.injEq] at hEnd
  have hSecond := (hAll rfl).2 c hStep
  have hRange :=
    (hSecond hEnd.1).1 _ (.refl _) d hHeader
  have hGood :
      (d.builds.all fun build =>
        decide build.InRange) = true := by
    rw [List.all_eq_true]
    intro build hMem
    exact decide_eq_true (hRange build hMem)
  rw [hGood] at hEnd
  cases hEnd.2

end V3

end WebServer
