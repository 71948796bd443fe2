import WebServer.V2.Http.ProcessWrite
import WebServer.V2.Http.ReadInChunks
import WebServer.V2.Http.RequestPath

/-
  When `process_read` of version 2.0 asks for more bytes.

  NO_REQUEST is meant for bytes that hold no complete header
  yet. It is also what the loop falls through to at a line
  that is not well formed, and what `do_request` returns for
  a path that `stat` does not find.

  What the bytes hold is said by positions in them: where a
  line is not well formed and where the header ends. Every
  answer of `process_read` is then traced to one of them.

  Key definitions include:
    * `MalformedAt`
    * `HeaderEndsAt`
    * `Received`
    * `WaitsOnlyIncomplete`
    * `Answerable`
    * `Traced`

  Key theorems include:
    * `Clean.line`
    * `Clean.stops`
    * `HttpParser.Reading.readsTo`
    * `waits_only_incomplete_iff`
-/

------------------------------------------------------------
-- Headers In Bytes
------------------------------------------------------------

namespace WebServer

namespace V2

/- A CR without an LF behind it, or an LF without a CR. -/
def MalformedAt
    (s : Bytes)
    (i : Nat) : Prop :=
  s[i]? = some 13 ∧ i + 1 < s.length ∧
      s[i + 1]? ≠ some 10 ∨
    s[i]? = some 10 ∧ (i = 0 ∨ s[i - 1]? ≠ some 13)

/- The end of a line with an empty line behind it. -/
def HeaderEndsAt
    (s : Bytes)
    (i : Nat) : Prop :=
  [13, 10, 13, 10] <+: s.drop i

instance
    (s : Bytes)
    (i : Nat) :
    Decidable (MalformedAt s i) := by
  unfold MalformedAt
  infer_instance

instance
    (s : Bytes)
    (i : Nat) :
    Decidable (HeaderEndsAt s i) := by
  unfold HeaderEndsAt
  infer_instance

/- The first line, if it is complete and well formed. -/
def frontLine
    (s : Bytes) : Option Bytes :=
  let line := s.takeWhile fun b => b != 13 && b != 10
  if [13, 10] <+: s.drop line.length then
    some line
  else
    none

/-
  The bytes the parser is asked to take: no NUL is among
  them, a complete first line has a blank, and no header
  line declares a body.
-/
structure Received
    (s : Bytes) : Prop where
  noNul : 0 ∉ s
  short : s.length ≤ readBufferSize
  blank : ∀ line ∈ frontLine s, ∃ b ∈ line, b ∈ blanks
  noBody :
    ∀ i < s.length, [13, 10] <+: s.drop i →
      (∀ j < i, j + 2 ≤ i → ¬HeaderEndsAt s j) →
        ∀ line ∈ frontLine (s.drop (i + 2)),
          declaredLength line = 0

instance
    (s : Bytes) :
    Decidable (Received s) :=
  decidable_of_iff
    (0 ∉ s ∧ s.length ≤ readBufferSize ∧
      (∀ line ∈ frontLine s, ∃ b ∈ line, b ∈ blanks) ∧
      ∀ i < s.length, [13, 10] <+: s.drop i →
        (∀ j < i, j + 2 ≤ i → ¬HeaderEndsAt s j) →
          ∀ line ∈ frontLine (s.drop (i + 2)),
            declaredLength line = 0)
    ⟨fun ⟨hNul, hShort, hBlank, hBody⟩ =>
      ⟨hNul, hShort, hBlank, hBody⟩,
    fun h => ⟨h.noNul, h.short, h.blank, h.noBody⟩⟩

/- What the first line asks for; `some none` if refused. -/
def asked
    (s : Bytes) : Option (Option Bytes) :=
  (frontLine s).map requestPath

/- `m_real_file` for a path. -/
def realPath
    (path : Bytes) : Bytes :=
  docRoot ++ path.take (filenameLen - docRoot.length - 1)

/- What `do_request` answers for a path. -/
def fileCode
    (fs : FileSystem)
    (path : Bytes) : HttpCode :=
  match fs.stat (realPath path) with
  | none => .noRequest
  | some st =>
      if !st.othersRead then .forbiddenRequest
      else if st.isDir then .badRequest
      else .fileRequest

/-
  NO_REQUEST means incomplete: it is returned only if no
  line is malformed and the header has not ended, a
  malformed line in the header is a bad request, and a
  complete request is answered.
-/
structure WaitsOnlyIncomplete
    (fs : FileSystem)
    (conn : HttpParser)
    (s : Bytes) : Prop where
  noRequest :
    ∀ c,
      (conn.init.receive s).processRead fs =
          .ok (.noRequest, c) →
        ∀ i, ¬MalformedAt s i ∧ ¬HeaderEndsAt s i
  malformed :
    ∀ i, MalformedAt s i →
      (∀ j, HeaderEndsAt s j → i < j) →
        ∃ c,
          (conn.init.receive s).processRead fs =
            .ok (.badRequest, c)
  complete :
    ∀ j, HeaderEndsAt s j →
      (∀ i, MalformedAt s i → j < i) →
        ∃ code c,
          (conn.init.receive s).processRead fs =
              .ok (code, c) ∧
            code.Responds

/-
  The bytes that are treated as they should be: the request
  line is refused, or no line of the header is malformed
  and, once it has ended, the file is found.
-/
def Answerable
    (fs : FileSystem)
    (s : Bytes) : Prop :=
  asked s = some none ∨
    (∀ i, MalformedAt s i → ∃ j < i, HeaderEndsAt s j) ∧
      ((∃ j, HeaderEndsAt s j) →
        ∃ path,
          asked s = some (some path) ∧
            (fs.stat (realPath path)).isSome)

/- What `process_read` answers, and why. -/
inductive Traced
    (fs : FileSystem)
    (s : Bytes) :
    HttpCode → Prop
| refused
    (hAsked : asked s = some none) :
    Traced fs s .badRequest
| malformed
    {i : Nat}
    (hAsked : asked s ≠ some none)
    (hMalformed : MalformedAt s i)
    (hFirst : ∀ j, HeaderEndsAt s j → i < j) :
    Traced fs s .noRequest
| incomplete
    (hNone : ∀ i, ¬MalformedAt s i ∧ ¬HeaderEndsAt s i) :
    Traced fs s .noRequest
| served
    {j : Nat}
    {path : Bytes}
    (hAsked : asked s = some (some path))
    (hEnds : HeaderEndsAt s j)
    (hFirst : ∀ i, MalformedAt s i → j < i) :
    Traced fs s (fileCode fs path)

end V2

end WebServer

------------------------------------------------------------
-- Well-Formed Lines
------------------------------------------------------------

namespace WebServer

namespace V2

/-
  All lines before `n` are well formed and none of them is
  empty; `n` is where a line begins.
-/
structure Clean
    (s : Bytes)
    (n : Nat) : Prop where
  start :
    n = 0 ∨
      2 ≤ n ∧ s[n - 2]? = some 13 ∧ s[n - 1]? = some 10
  wellFormed : ∀ i < n, ¬MalformedAt s i
  notEnded : ∀ i, i + 2 < n → ¬HeaderEndsAt s i

theorem MalformedAt.lt
    {s : Bytes}
    {i : Nat}
    (h : MalformedAt s i) :
    i < s.length := by
  rcases h with ⟨hByte, _⟩ | ⟨hByte, _⟩
  · exact (List.getElem?_eq_some_iff.mp hByte).1
  · exact (List.getElem?_eq_some_iff.mp hByte).1

theorem HeaderEndsAt.bytes
    {s : Bytes}
    {i : Nat}
    (h : HeaderEndsAt s i) :
    s[i]? = some 13 ∧ s[i + 1]? = some 10 ∧
      s[i + 2]? = some 13 ∧ s[i + 3]? = some 10 := by
  rcases h with ⟨rest, hRest⟩
  have hAt : ∀ m, s[i + m]? =
      ([13, 10, 13, 10] ++ rest)[m]? := by
    intro m
    rw [hRest, List.getElem?_drop]
  exact ⟨hAt 0, hAt 1, hAt 2, hAt 3⟩

theorem headerEndsAt_of_bytes
    {s : Bytes}
    {i : Nat}
    (hFirst : s[i]? = some 13)
    (hSecond : s[i + 1]? = some 10)
    (hThird : s[i + 2]? = some 13)
    (hFourth : s[i + 3]? = some 10) :
    HeaderEndsAt s i := by
  have hAt : ∀ {m : Nat} {b : Byte}, s[m]? = some b →
      s.drop m = b :: s.drop (m + 1) := by
    intro m b hByte
    rcases List.getElem?_eq_some_iff.mp hByte with
      ⟨hIn, rfl⟩
    exact List.drop_eq_getElem_cons hIn
  refine ⟨s.drop (i + 4), ?_⟩
  rw [hAt hFirst, hAt hSecond, hAt hThird, hAt hFourth]
  rfl

theorem lineEnd_prefix
    {s : Bytes}
    {i : Nat}
    (hCr : s[i]? = some 13)
    (hLf : s[i + 1]? = some 10) :
    [13, 10] <+: s.drop i := by
  rcases List.getElem?_eq_some_iff.mp hCr with ⟨hIn, hAt⟩
  rcases List.getElem?_eq_some_iff.mp hLf with ⟨hIn', hAt'⟩
  rw [List.drop_eq_getElem_cons hIn, hAt,
    List.drop_eq_getElem_cons hIn', hAt']
  exact ⟨_, rfl⟩

/- The bytes from `n` to `k` hold neither CR nor LF. -/
def Plain
    (s : Bytes)
    (n k : Nat) : Prop :=
  ∀ i, n ≤ i → i < k → s[i]? ≠ some 13 ∧ s[i]? ≠ some 10

/- Only the line at `n` can be the empty one, or a later. -/
theorem Clean.headerEndsAt
    {s : Bytes}
    {n k j : Nat}
    (h : Clean s n)
    (hFrom : n ≤ k)
    (hPlain : Plain s n k)
    (hEnds : HeaderEndsAt s j) :
    n = k ∧ j + 2 = n ∨ k ≤ j := by
  have hLate : n ≤ j + 2 := by
    by_contra hEarly
    exact h.notEnded j (by omega) hEnds
  rcases hEnds.bytes with ⟨hCr, hLf, hNext, _⟩
  have hNot : j + 1 ≠ n := by
    rintro rfl
    rcases h.start with hZero | ⟨_, _, hBefore⟩
    · omega
    · rw [Nat.add_sub_cancel, hCr] at hBefore
      cases hBefore
  by_cases hNow : j + 2 = n
  · left
    refine ⟨?_, hNow⟩
    by_contra hLonger
    exact (hPlain (j + 2) (by omega) (by omega)).1 hNext
  · right
    by_contra hEarly
    exact (hPlain j (by omega) (by omega)).1 hCr

theorem Clean.not_malformedAt
    {s : Bytes}
    {n k i : Nat}
    (h : Clean s n)
    (hPlain : Plain s n k)
    (hBefore : i < k) :
    ¬MalformedAt s i := by
  by_cases hOld : i < n
  · exact h.wellFormed i hOld
  · have hByte := hPlain i (by omega) hBefore
    rintro (⟨hCr, _⟩ | ⟨hLf, _⟩)
    · exact hByte.1 hCr
    · exact hByte.2 hLf

/- A line that is not the empty one behind another. -/
theorem Clean.line
    {s : Bytes}
    {n k : Nat}
    (h : Clean s n)
    (hFrom : n ≤ k)
    (hPlain : Plain s n k)
    (hCr : s[k]? = some 13)
    (hLf : s[k + 1]? = some 10)
    (hLonger : n = 0 ∨ n ≠ k) :
    Clean s (k + 2) where
  start := .inr ⟨by omega, hCr, hLf⟩
  wellFormed := by
    intro i hBefore
    by_cases hOld : i < k
    · exact h.not_malformedAt hPlain hOld
    by_cases hHere : i = k
    · subst hHere
      rintro (⟨_, _, hNot⟩ | ⟨hOther, _⟩)
      · exact hNot hLf
      · rw [hCr] at hOther
        cases hOther
    · have hNext : i = k + 1 := by omega
      subst hNext
      rintro (⟨hOther, _⟩ | ⟨_, hZero | hNot⟩)
      · rw [hLf] at hOther
        cases hOther
      · omega
      · exact hNot hCr
  notEnded := by
    intro i hBefore hEnds
    rcases h.headerEndsAt hFrom hPlain hEnds with
      ⟨hSame, hNow⟩ | hLate
    · omega
    · omega

/- Nothing is wrong where no CR and no LF is left. -/
theorem Clean.incomplete
    {s : Bytes}
    {n k : Nat}
    (h : Clean s n)
    (hFrom : n ≤ k)
    (hPlain : Plain s n k)
    (hNoLf : ∀ i, k ≤ i → s[i]? ≠ some 10)
    (hNoCr : ∀ i, k ≤ i → i + 1 < s.length → s[i]? ≠ some 13) :
    ∀ i, ¬MalformedAt s i ∧ ¬HeaderEndsAt s i := by
  intro i
  constructor
  · by_cases hBefore : i < k
    · exact h.not_malformedAt hPlain hBefore
    · rintro (⟨hCr, hMore, _⟩ | ⟨hLf, _⟩)
      · exact hNoCr i (by omega) hMore hCr
      · exact hNoLf i (by omega) hLf
  · intro hEnds
    rcases hEnds.bytes with ⟨_, hFirst, _, hSecond⟩
    rcases h.headerEndsAt hFrom hPlain hEnds with
      ⟨hSame, hNow⟩ | hLate
    · exact hNoLf (i + 3) (by omega) hSecond
    · exact hNoLf (i + 1) (by omega) hFirst

/- What is wrong first comes before the header ends. -/
theorem Clean.malformed_first
    {s : Bytes}
    {n k j : Nat}
    (h : Clean s n)
    (hFrom : n ≤ k)
    (hPlain : Plain s n k)
    (hMalformed : MalformedAt s k)
    (hEnds : HeaderEndsAt s j) :
    k < j := by
  have hNot : ¬(s[k]? = some 13 ∧ s[k + 1]? = some 10) := by
    rintro ⟨hCr, hLf⟩
    rcases hMalformed with ⟨_, _, hOther⟩ | ⟨hOther, _⟩
    · exact hOther hLf
    · rw [hCr] at hOther
      cases hOther
  rcases hEnds.bytes with ⟨hCr, hLf, hNextCr, hNextLf⟩
  rcases h.headerEndsAt hFrom hPlain hEnds with
    ⟨hSame, hNow⟩ | hLate
  · exfalso
    apply hNot
    rw [← hSame, ← hNow]
    exact ⟨hNextCr, hNextLf⟩
  · refine Nat.lt_of_le_of_ne hLate ?_
    rintro rfl
    exact hNot ⟨hCr, hLf⟩

/-
  Where no complete line follows, nothing is malformed and
  the header has not ended, or the first thing that is wrong
  comes before the header ends.
-/
theorem Clean.stops
    {s : Bytes}
    {n k : Nat}
    (h : Clean s n)
    (hFrom : n ≤ k)
    (hPlain : Plain s n k)
    (hStop :
      k = s.length ∨
        s[k]? = some 10 ∨
          s[k]? = some 13 ∧ s[k + 1]? ≠ some 10) :
    (∀ i, ¬MalformedAt s i ∧ ¬HeaderEndsAt s i) ∨
      MalformedAt s k ∧ ∀ j, HeaderEndsAt s j → k < j := by
  rcases hStop with hEnd | hLf | ⟨hCr, hNot⟩
  · left
    apply h.incomplete hFrom hPlain
    · intro i hLate hLf
      have hIn := (List.getElem?_eq_some_iff.mp hLf).1
      omega
    · intro i hLate hMore
      omega
  · right
    have hMalformed : MalformedAt s k := by
      refine .inr ⟨hLf, ?_⟩
      by_cases hHere : n = k
      · rcases h.start with hZero | ⟨_, _, hBefore⟩
        · omega
        · right
          rw [← hHere, hBefore]
          decide
      · exact .inr (hPlain (k - 1) (by omega) (by omega)).1
    exact
      ⟨hMalformed, fun _ =>
        h.malformed_first hFrom hPlain hMalformed⟩
  · by_cases hMore : k + 1 < s.length
    · right
      have hMalformed : MalformedAt s k :=
        .inl ⟨hCr, hMore, hNot⟩
      exact
        ⟨hMalformed, fun _ =>
          h.malformed_first hFrom hPlain hMalformed⟩
    · left
      apply h.incomplete hFrom hPlain
      · intro i hLate hLf
        have hIn := (List.getElem?_eq_some_iff.mp hLf).1
        have hHere : i = k := by omega
        rw [hHere, hCr] at hLf
        cases hLf
      · intro i hLate hIn
        omega

theorem clean_zero
    (s : Bytes) :
    Clean s 0 where
  start := .inl rfl
  wellFormed := by
    intro i hBefore
    cases hBefore
  notEnded := by
    intro i hBefore
    cases hBefore

end V2

end WebServer

------------------------------------------------------------
-- First Lines
------------------------------------------------------------

namespace WebServer

namespace V2

theorem Plain.drop
    {s : Bytes}
    {n k : Nat}
    (h : Plain s n k) :
    Plain (s.drop n) 0 (k - n) := by
  intro i _ hBefore
  rw [List.getElem?_drop]
  exact h (n + i) (by omega) (by omega)

/- The bytes in front of the first CR or LF. -/
theorem takeWhile_plain
    {s : Bytes}
    {k : Nat}
    (hPlain : Plain s 0 k)
    (hStop :
      k = s.length ∨ s[k]? = some 10 ∨ s[k]? = some 13) :
    (s.takeWhile fun b => b != 13 && b != 10) = s.take k := by
  have hRest :
      (s.drop k).takeWhile (fun b => b != 13 && b != 10) =
        [] := by
    rcases hStop with hEnd | hLf | hCr
    · rw [hEnd, List.drop_length]
      rfl
    · rcases List.getElem?_eq_some_iff.mp hLf with ⟨hIn, hAt⟩
      rw [List.drop_eq_getElem_cons hIn, hAt]
      rfl
    · rcases List.getElem?_eq_some_iff.mp hCr with ⟨hIn, hAt⟩
      rw [List.drop_eq_getElem_cons hIn, hAt]
      rfl
  have hFront : ∀ b ∈ s.take k,
      (b != 13 && b != 10) = true := by
    intro b hMem
    rcases List.mem_iff_getElem?.mp hMem with ⟨i, hAt⟩
    have hIn : i < k := by
      have hLong := (List.getElem?_eq_some_iff.mp hAt).1
      rw [List.length_take] at hLong
      omega
    rw [List.getElem?_take_of_lt hIn] at hAt
    have hByte := hPlain i (Nat.zero_le _) hIn
    rw [hAt] at hByte
    simpa using hByte
  conv_lhs => rw [← List.take_append_drop k s]
  rw [List.takeWhile_append_of_pos hFront, hRest,
    List.append_nil]

theorem frontLine_eq
    {s : Bytes}
    {k : Nat}
    (hPlain : Plain s 0 k)
    (hCr : s[k]? = some 13)
    (hLf : s[k + 1]? = some 10) :
    frontLine s = some (s.take k) := by
  have hIn := (List.getElem?_eq_some_iff.mp hCr).1
  have hLine := takeWhile_plain hPlain (.inr (.inr hCr))
  have hEnd := lineEnd_prefix hCr hLf
  unfold frontLine
  simp only [hLine, List.length_take,
    Nat.min_eq_left (Nat.le_of_lt hIn)]
  exact if_pos hEnd

theorem frontLine_eq_none
    {s : Bytes}
    {k : Nat}
    (hPlain : Plain s 0 k)
    (hTo : k ≤ s.length)
    (hStop :
      k = s.length ∨
        s[k]? = some 10 ∨
          s[k]? = some 13 ∧ s[k + 1]? ≠ some 10) :
    frontLine s = none := by
  have hLine := takeWhile_plain hPlain (by tauto)
  have hNot : ¬[13, 10] <+: s.drop k := by
    rintro ⟨rest, hRest⟩
    have hCr : s[k]? = some 13 := by
      rw [← Nat.add_zero k, ← List.getElem?_drop, ← hRest]
      rfl
    have hLf : s[k + 1]? = some 10 := by
      rw [← List.getElem?_drop, ← hRest]
      rfl
    rcases hStop with hEnd | hOther | ⟨_, hOther⟩
    · rw [List.getElem?_eq_none (by omega)] at hCr
      cases hCr
    · rw [hCr] at hOther
      cases hOther
    · exact hOther hLf
  unfold frontLine
  simp only [hLine, List.length_take, Nat.min_eq_left hTo]
  exact if_neg hNot

end V2

end WebServer

------------------------------------------------------------
-- What A Turn Answers
------------------------------------------------------------

namespace WebServer

namespace V2

/- A turn does what a line that asks for `path` makes it. -/
def Turn.Asks :
    Turn → Option Bytes → Prop
| .returns code _, path => code = .badRequest ∧ path = none
| .again _ c, path =>
    ∃ text, path = some text ∧ c.PointsAt c.url text

namespace HttpParser

theorem handleLine_asks
    {c : HttpParser}
    {fs : FileSystem}
    {turn : Turn}
    (h : c.LineReady)
    (hState : c.checkState = .requestLine)
    (hTurn : c.handleLine fs .lineOk = .ok turn) :
    turn.Asks (requestPath (c.stringAt c.startLine)) := by
  have hState' : c.startNextLine.checkState = .requestLine :=
    hState
  unfold handleLine at hTurn
  simp only [hState'] at hTurn
  cases hCall : c.startNextLine.parseRequestLine c.getLine with
  | error f =>
      rw [hCall] at hTurn
      cases hTurn
  | ok r =>
      have hAsks :
          Asks r (requestPath (c.stringAt c.startLine)) :=
        parseRequestLine_asks (c := c.startNextLine) h.ends
          hCall
      rw [hCall] at hTurn
      simp only [bind, Except.bind] at hTurn
      cases hPath : requestPath (c.stringAt c.startLine) with
      | none =>
          rw [hPath] at hAsks
          have hBad : r.1 = .badRequest := hAsks
          rw [if_pos hBad] at hTurn
          cases hTurn
          exact ⟨rfl, rfl⟩
      | some text =>
          rw [hPath] at hAsks
          rcases hAsks with ⟨hGood, hUrl⟩
          have hNot : r.1 ≠ .badRequest := by
            rw [hGood]
            exact HttpCode.noConfusion
          rw [if_neg hNot] at hTurn
          cases hTurn
          exact ⟨text, rfl, hUrl⟩

theorem doRequest_code
    {c : HttpParser}
    {path : Bytes}
    (hUrl : c.PointsAt c.url path)
    (fs : FileSystem) :
    ∃ c',
      c.doRequest fs = .ok (fileCode fs path, c') ∧
        c'.realFile = realPath path := by
  rcases hUrl with ⟨k, hUrl, hString, _⟩
  unfold doRequest fileCode realPath
  simp only [hUrl, hString]
  cases
      fs.stat
        (docRoot ++
          path.take (filenameLen - docRoot.length - 1)) with
  | none => exact ⟨_, rfl, rfl⟩
  | some st =>
      simp only
      split_ifs <;> exact ⟨_, rfl, rfl⟩

/- The empty line behind the header. -/
theorem handleLine_empty
    {c : HttpParser}
    {path : Bytes}
    (hState : c.checkState = .header)
    (hEmpty : c.byteAt c.startLine = 0)
    (hNoBody : c.contentLength = 0)
    (hUrl : c.PointsAt c.url path)
    (fs : FileSystem)
    (status : LineStatus) :
    ∃ c',
      c.handleLine fs status =
        .ok (.returns (fileCode fs path) c') := by
  have hHeader :
      c.startNextLine.parseHeaders c.getLine =
        (.getRequest, c.startNextLine) := by
    have hEmpty' : c.startNextLine.byteAt c.getLine = 0 :=
      hEmpty
    have hNoBody' : ¬c.startNextLine.contentLength ≠ 0 :=
      not_not.mpr hNoBody
    unfold parseHeaders
    rw [if_pos hEmpty', if_neg hNoBody']
  rcases doRequest_code (c := c.startNextLine) hUrl fs with
    ⟨c', hRequest, _⟩
  refine ⟨c', ?_⟩
  rw [handleLine_of_header hState, hHeader]
  simp only [hRequest]
  rfl

/- A line that is ended leaves the strings in front of it. -/
theorem PointsAt.lineEnded
    {c : HttpParser}
    {p : Option Nat}
    {text : Bytes}
    {k : Nat}
    (h : c.PointsAt p text)
    (hFrom : c.checkedIdx ≤ k) :
    (c.lineEnded k).PointsAt p text := by
  rcases h with ⟨j, hP, hString, hEnds⟩
  have hEnds' := hEnds.set k
  have hFirst :=
    CString.string_congr (CString.agree_set hFrom 0) hEnds
  have hSecond :=
    CString.string_congr
      (CString.agree_set (Nat.le_succ_of_le hFrom) 0) hEnds'
  refine ⟨j, hP, ?_, (hEnds'.set (k + 1)).mono ?_⟩
  · exact hSecond.trans (hFirst.trans hString)
  · exact Nat.le_add_right_of_le hFrom

end HttpParser

end V2

end WebServer

------------------------------------------------------------
-- The Whole Call
------------------------------------------------------------

namespace WebServer

namespace V2

namespace HttpParser

/-
  All bytes were received, the lines read are well formed,
  and `m_url` is at the path the first one asks for.
-/
structure Reading
    (s : Bytes)
    (c : HttpParser) : Prop where
  tracks : c.Tracks s
  whole : c.readIdx = s.length
  clean : Clean s c.startLine
  names :
    c.checkState = .header →
      ∃ path,
        asked s = some (some path) ∧ c.PointsAt c.url path

theorem Tracks.getElem?
    {s : Bytes}
    {c : HttpParser}
    {i : Nat}
    (h : c.Tracks s)
    (hFrom : c.startLine ≤ i)
    (hTo : i < c.readIdx) :
    s[i]? = some (c.byteAt i) := by
  have hRead := h.readIdx_le
  rw [h.bytes i hFrom hTo, List.getD_eq_getElem?_getD,
    List.getElem?_eq_getElem (by omega)]
  rfl

theorem Tracks.plainBytes
    {s : Bytes}
    {c : HttpParser}
    {k : Nat}
    (h : c.Tracks s)
    (hTo : k ≤ c.readIdx)
    (hPlain : c.PlainFrom c.checkedIdx k) :
    Plain s c.startLine k := by
  intro i hFrom hBefore
  rw [h.getElem? hFrom (by omega)]
  have hByte : c.byteAt i ≠ 13 ∧ c.byteAt i ≠ 10 := by
    by_cases hOld : i < c.checkedIdx
    · exact h.plain i hFrom hOld
    · exact hPlain i (by omega) hBefore
  exact
    ⟨fun hCr => hByte.1 (Option.some.inj hCr),
      fun hLf => hByte.2 (Option.some.inj hLf)⟩

end HttpParser

/- What a turn does for the bytes received. -/
def Turn.Reads
    (fs : FileSystem)
    (s : Bytes) :
    Turn → Prop
| .returns code _ => Traced fs s code
| .again status c => status = .lineOk ∧ c.Reading s

namespace HttpParser

/- A complete line in the bytes. -/
structure LineAt
    (s : Bytes)
    (c : HttpParser)
    (k : Nat) : Prop where
  ends : c.EndsLine k
  plain : Plain s c.startLine k
  cr : s[k]? = some 13
  lf : s[k + 1]? = some 10
  line :
    frontLine (s.drop c.startLine) = some (c.lineOf s k)

theorem Reading.lineAt
    {s : Bytes}
    {c c' : HttpParser}
    (h : c.Reading s)
    (hLine : c.parseLine = (.lineOk, c')) :
    ∃ k, c.LineAt s k ∧ c' = c.lineEnded k := by
  rcases parseLine_ok h.tracks.framed hLine with
    ⟨k, hEnds, hSame⟩
  have hFrom := hEnds.from_le
  have hMore := hEnds.more
  have hStart := h.tracks.framed.startLine_le
  have hBytes := h.tracks.plainBytes (by omega) hEnds.plain
  have hCr' : s[k]? = some 13 := by
    rw [h.tracks.getElem? (by omega) (by omega), hEnds.cr]
  have hLf' : s[k + 1]? = some 10 := by
    rw [h.tracks.getElem? (by omega) (by omega), hEnds.lf]
  refine ⟨k, ⟨hEnds, hBytes, hCr', hLf', ?_⟩, hSame⟩
  apply frontLine_eq hBytes.drop
  · rw [List.getElem?_drop, Nat.add_sub_cancel' (by omega)]
    exact hCr'
  · rw [List.getElem?_drop, ← Nat.add_assoc,
      Nat.add_sub_cancel' (by omega)]
    exact hLf'

/- What precedes a header line. -/
theorem Reading.ended
    {s : Bytes}
    {c : HttpParser}
    (h : c.Reading s)
    (hState : c.checkState = .header) :
    ∃ j,
      c.startLine = j + 2 ∧ s[j]? = some 13 ∧
        s[j + 1]? = some 10 := by
  rcases h.clean.start with hZero | ⟨hTwo, hCr, hLf⟩
  · rcases h.tracks.place with ⟨hOther, _⟩ | ⟨_, _, hTwo, _⟩
    · rw [hState] at hOther
      cases hOther
    · omega
  · refine ⟨c.startLine - 2, by omega, hCr, ?_⟩
    have hNext : c.startLine - 2 + 1 = c.startLine - 1 := by
      omega
    rw [hNext]
    exact hLf

theorem byteAt_lineEnded_self
    (c : HttpParser)
    (k : Nat) :
    (c.lineEnded k).byteAt k = 0 := by
  unfold byteAt lineEnded cutAt
  simp only [List.getD_eq_getElem?_getD, List.getElem?_set,
    if_true]
  rw [if_neg (Nat.succ_ne_self k)]
  split_ifs <;> rfl

theorem Reading.requestLine_turn
    {s : Bytes}
    {c : HttpParser}
    {k : Nat}
    (h : c.Reading s)
    (hReceived : Received s)
    (hState : c.checkState = .requestLine)
    (hLine : c.LineAt s k)
    (fs : FileSystem) :
    ∃ turn,
      (c.lineEnded k).handleLine fs .lineOk = .ok turn ∧
        turn.Reads fs s := by
  have hReady := h.tracks.framed.lineEnded hLine.ends
  have hFirst := h.tracks.startLine_eq hState
  have hFirstLine := hLine.line
  rw [hFirst, List.drop_zero] at hFirstLine
  have hString :
      (c.lineEnded k).stringAt c.startLine = c.lineOf s k :=
    h.tracks.stringAt_lineEnded hReceived.noNul hLine.ends
  have hAsked :
      asked s = some (requestPath (c.lineOf s k)) := by
    unfold asked
    rw [hFirstLine]
    rfl
  rcases handleLine_requestLine hReady hState fs .lineOk with
    ⟨hNone, _⟩ |
      ⟨c', hMarks, hFramed,
        hCall | ⟨hHeader, hUrl, hLength, hCall⟩⟩
  · exact
      absurd hNone
        (h.tracks.strpbrk_ne_none hReceived.noNul hLine.ends
          (hReceived.blank _ hFirstLine))
  · refine ⟨_, hCall, ?_⟩
    rcases handleLine_asks hReady hState hCall with
      ⟨_, hRefused⟩
    have hRefused' : requestPath (c.lineOf s k) = none :=
      hString ▸ hRefused
    exact .refused (hRefused' ▸ hAsked)
  · refine ⟨_, hCall, rfl, ?_⟩
    rcases handleLine_asks hReady hState hCall with
      ⟨path, hPath, hPoints⟩
    have hPath' :
        requestPath (c.lineOf s k) = some path :=
      hString ▸ hPath
    have hStartLine : c'.startLine = k + 2 := hMarks.startLine
    exact
      { tracks :=
          h.tracks.next hLine.ends hMarks hFramed hHeader hUrl
            (hLength.trans h.tracks.contentLength)
        whole := hMarks.readIdx.trans h.whole
        clean := by
          rw [hStartLine]
          exact
            h.clean.line (by omega) hLine.plain hLine.cr
              hLine.lf (.inl hFirst)
        names := fun _ => ⟨path, hPath' ▸ hAsked, hPoints⟩ }

theorem Reading.header_turn
    {s : Bytes}
    {c : HttpParser}
    {k : Nat}
    (h : c.Reading s)
    (hReceived : Received s)
    (hState : c.checkState = .header)
    (hLine : c.LineAt s k)
    (fs : FileSystem) :
    ∃ turn,
      (c.lineEnded k).handleLine fs .lineOk = .ok turn ∧
        turn.Reads fs s := by
  have hReady := h.tracks.framed.lineEnded hLine.ends
  have hNext := hReady.framed.startNextLine
  have hStart := h.tracks.framed.startLine_le
  have hFrom : c.startLine ≤ k :=
    Nat.le_trans hStart hLine.ends.from_le
  rcases h.names hState with ⟨path, hAsked, hPoints⟩
  have hPoints' := hPoints.lineEnded hLine.ends.from_le
  have hUrl : c.url ≠ none := by
    rcases hPoints with ⟨j, hUrl, _⟩
    rw [hUrl]
    exact Option.some_ne_none j
  rcases h.ended hState with ⟨j, hJ, hCrBefore, hLfBefore⟩
  rcases handleLine_header hReady hState fs .lineOk with
    ⟨_, hBody, _⟩ | ⟨hEmpty, _, _⟩ |
      ⟨hMore, linger, n, host, hHost, hN, hCall⟩
  · exact absurd h.tracks.contentLength hBody
  · have hAtStart : k = c.startLine :=
      h.tracks.emptyLine hReceived.noNul hLine.ends hEmpty
    rcases
      handleLine_empty (c := c.lineEnded k) hState hEmpty
        h.tracks.contentLength hPoints' fs .lineOk with
      ⟨c', hCall⟩
    refine ⟨_, hCall, ?_⟩
    have hCr := hLine.cr
    have hLf := hLine.lf
    rw [hAtStart, hJ] at hCr hLf
    refine
      .served hAsked
        (headerEndsAt_of_bytes hCrBefore hLfBefore hCr hLf) ?_
    intro i hMalformed
    by_contra hEarly
    exact h.clean.wellFormed i (by omega) hMalformed
  · have hLonger : c.startLine ≠ k := by
      intro hSame
      apply hMore
      show (c.lineEnded k).byteAt c.startLine = 0
      rw [hSame]
      exact byteAt_lineEnded_self c k
    have hLength : n = 0 := by
      apply
        h.tracks.headerLength hReceived.noNul hLine.ends hN
      refine
        hReceived.noBody j ?_ ?_ ?_ _ (hJ ▸ hLine.line)
      · exact (List.getElem?_eq_some_iff.mp hCrBefore).1
      · exact lineEnd_prefix hCrBefore hLfBefore
      · intro i _ hEarly
        exact h.clean.notEnded i (by omega)
    refine ⟨_, hCall, rfl, ?_⟩
    exact
      { tracks := by
          refine
            h.tracks.next hLine.ends ?_ ?_ hState hUrl hLength
          · exact
              { Marks.refl (c.lineEnded k).startNextLine with }
          · exact { hNext with host := hHost }
        whole := h.whole
        clean :=
          h.clean.line hFrom hLine.plain hLine.cr
            hLine.lf (.inr hLonger)
        names := fun _ => ⟨path, hAsked, hPoints'⟩ }

theorem Reading.turn
    {s : Bytes}
    {c c' : HttpParser}
    (h : c.Reading s)
    (hReceived : Received s)
    (hLine : c.parseLine = (.lineOk, c'))
    (fs : FileSystem) :
    ∃ turn,
      c'.handleLine fs .lineOk = .ok turn ∧
        turn.Reads fs s := by
  rcases h.lineAt hLine with ⟨k, hAt, rfl⟩
  rcases h.tracks.place with ⟨hState, _⟩ | ⟨hState, _⟩
  · exact h.requestLine_turn hReceived hState hAt fs
  · exact h.header_turn hReceived hState hAt fs

/- Where no complete line follows, NO_REQUEST is returned. -/
theorem Reading.waits
    {s : Bytes}
    {c c' : HttpParser}
    {status : LineStatus}
    (h : c.Reading s)
    (hLine : c.parseLine = (status, c'))
    (hStatus : status ≠ .lineOk)
    (fs : FileSystem) :
    Traced fs s .noRequest := by
  rcases parseLine_not_ok h.tracks.framed hLine hStatus with
    ⟨k, hFrom, hTo, hPlain, hStops, _⟩
  have hStart := h.tracks.framed.startLine_le
  have hWhole := h.whole
  have hBytes := h.tracks.plainBytes hTo hPlain
  have hStop :
      k = s.length ∨
        s[k]? = some 10 ∨
          s[k]? = some 13 ∧ s[k + 1]? ≠ some 10 := by
    rcases hStops with hEnd | ⟨hMore, hLf | ⟨hCr, hNot⟩⟩
    · exact .inl (hEnd.trans hWhole)
    · right
      left
      rw [h.tracks.getElem? (by omega) hMore, hLf]
    · right
      right
      rw [h.tracks.getElem? (by omega) hMore, hCr]
      refine ⟨rfl, ?_⟩
      by_cases hNext : k + 1 < c.readIdx
      · rw [h.tracks.getElem? (by omega) hNext]
        intro hLf
        exact hNot hNext (Option.some.inj hLf)
      · rw [List.getElem?_eq_none (by omega)]
        intro hLf
        cases hLf
  rcases h.clean.stops (by omega) hBytes hStop with
    hNone | ⟨hMalformed, hFirst⟩
  · exact .incomplete hNone
  · refine .malformed ?_ hMalformed hFirst
    rcases h.tracks.place with ⟨_, hZero⟩ | ⟨hState, _⟩
    · rw [hZero] at hBytes
      unfold asked
      rw [frontLine_eq_none hBytes (by omega) hStop]
      intro hSame
      cases hSame
    · rcases h.names hState with ⟨path, hAsked, _⟩
      rw [hAsked]
      intro hSame
      cases hSame

/- Every call is traced. -/
theorem Reading.readsTo
    {s : Bytes}
    {c : HttpParser}
    {fs : FileSystem}
    {o : ReadOutcome}
    (hReads : ReadsTo fs c o)
    (h : c.Reading s)
    (hReceived : Received s) :
    ∃ code c',
      o.result = .ok (code, c') ∧ Traced fs s code := by
  induction hReads with
  | waits hState hLine hStatus =>
      exact ⟨_, _, rfl, h.waits hLine hStatus fs⟩
  | fault hState hLine hTurn =>
      rcases h.turn hReceived hLine fs with ⟨turn, hCall, _⟩
      rw [hTurn] at hCall
      cases hCall
  | returned hState hLine hTurn =>
      rcases h.turn hReceived hLine fs with
        ⟨turn, hCall, hReads⟩
      rw [hTurn] at hCall
      cases hCall
      exact ⟨_, _, rfl, hReads⟩
  | again hState hLine hTurn hRest ih =>
      rcases h.turn hReceived hLine fs with
        ⟨turn, hCall, hReads⟩
      rw [hTurn] at hCall
      cases hCall
      exact ih hReads.2
  | content hState => exact absurd hState h.tracks.not_content

theorem reading_init
    (s : Bytes)
    (conn : HttpParser) :
    (conn.init.receive s).Reading s where
  tracks :=
    (tracks_init s conn).receive (List.append_nil s).symm
  whole := Nat.zero_add s.length
  clean := clean_zero s
  names := by
    intro hState
    cases hState

/- What `process_read` makes of the bytes received. -/
theorem processRead_traced
    {s : Bytes}
    (hReceived : Received s)
    (fs : FileSystem)
    (conn : HttpParser) :
    ∃ code c,
      (conn.init.receive s).processRead fs = .ok (code, c) ∧
        Traced fs s code := by
  have hReading := reading_init s conn
  have hFramed := hReading.tracks.framed
  rcases exists_readsTo fs hFramed with ⟨o, hReads⟩
  rcases hReading.readsTo hReads hReceived with
    ⟨code, c, hResult, hTraced⟩
  exact
    ⟨code, c, (hReads.processRead hFramed).trans hResult,
      hTraced⟩

end HttpParser

theorem fileCode_eq_noRequest
    {fs : FileSystem}
    {path : Bytes} :
    fileCode fs path = .noRequest ↔
      fs.stat (realPath path) = none := by
  unfold fileCode
  cases fs.stat (realPath path) with
  | none => exact ⟨fun _ => rfl, fun _ => rfl⟩
  | some st =>
      constructor
      · intro hCode
        simp only at hCode
        split_ifs at hCode
      · intro hNone
        cases hNone

theorem fileCode_ne_closedConnection
    (fs : FileSystem)
    (path : Bytes) :
    fileCode fs path ≠ .closedConnection := by
  unfold fileCode
  cases fs.stat (realPath path) with
  | none => exact HttpCode.noConfusion
  | some st =>
      simp only
      split_ifs <;> exact HttpCode.noConfusion

/- A call whose answer is another is not NO_REQUEST. -/
theorem code_unique
    {r : Except ParseFault (HttpCode × HttpParser)}
    {code code' : HttpCode}
    {c c' : HttpParser}
    (h : r = .ok (code, c))
    (h' : r = .ok (code', c')) :
    code = code' := by
  rw [h] at h'
  cases h'
  rfl

theorem Traced.waitsOnlyIncomplete
    {fs : FileSystem}
    {conn c : HttpParser}
    {s : Bytes}
    {code : HttpCode}
    (h : Traced fs s code)
    (hCall :
      (conn.init.receive s).processRead fs = .ok (code, c))
    (hAnswerable : Answerable fs s) :
    WaitsOnlyIncomplete fs conn s := by
  cases h with
  | refused hAsked =>
      exact
        { noRequest := by
            intro c' hCall'
            cases code_unique hCall hCall'
          malformed := fun _ _ _ => ⟨c, hCall⟩
          complete := fun _ _ _ =>
            ⟨_, c, hCall,
              HttpCode.responds HttpCode.noConfusion
                HttpCode.noConfusion⟩ }
  | malformed hAsked hMalformed hFirst =>
      rcases hAnswerable with hRefused | ⟨hFormed, _⟩
      · exact absurd hRefused hAsked
      · rcases hFormed _ hMalformed with ⟨j, hBefore, hEnds⟩
        have hLater := hFirst j hEnds
        omega
  | incomplete hNone =>
      exact
        { noRequest := fun _ _ => hNone
          malformed := fun i hMalformed =>
            absurd hMalformed (hNone i).1
          complete := fun j hEnds =>
            absurd hEnds (hNone j).2 }
  | served hAsked hEnds hFirst =>
      rename_i j path
      have hFound : (fs.stat (realPath path)).isSome := by
        rcases hAnswerable with hRefused | ⟨_, hFiles⟩
        · rw [hAsked] at hRefused
          cases hRefused
        · rcases hFiles ⟨j, hEnds⟩ with
            ⟨path', hAsked', hFound⟩
          rw [hAsked] at hAsked'
          cases hAsked'
          exact hFound
      have hCode : fileCode fs path ≠ .noRequest := by
        intro hNo
        rw [fileCode_eq_noRequest.mp hNo] at hFound
        cases hFound
      exact
        { noRequest := fun c' hCall' =>
            absurd (code_unique hCall hCall') hCode
          malformed := by
            intro i hMalformed hEarly
            have hLate := hFirst i hMalformed
            have hBefore := hEarly j hEnds
            omega
          complete := fun _ _ _ =>
            ⟨_, c, hCall,
              HttpCode.responds hCode
                (fileCode_ne_closedConnection fs path)⟩ }

theorem Traced.answerable
    {fs : FileSystem}
    {conn c : HttpParser}
    {s : Bytes}
    {code : HttpCode}
    (h : Traced fs s code)
    (hCall :
      (conn.init.receive s).processRead fs = .ok (code, c))
    (hWaits : WaitsOnlyIncomplete fs conn s) :
    Answerable fs s := by
  cases h with
  | refused hAsked => exact .inl hAsked
  | malformed hAsked hMalformed hFirst =>
      exact
        absurd hMalformed (hWaits.noRequest c hCall _).1
  | incomplete hNone =>
      right
      constructor
      · intro i hMalformed
        exact absurd hMalformed (hNone i).1
      · rintro ⟨j, hEnds⟩
        exact absurd hEnds (hNone j).2
  | served hAsked hEnds hFirst =>
      rename_i j path
      right
      constructor
      · intro i hMalformed
        exact ⟨j, hFirst i hMalformed, hEnds⟩
      · intro _
        refine ⟨path, hAsked, ?_⟩
        by_contra hMissing
        rw [Option.not_isSome_iff_eq_none] at hMissing
        rw [fileCode_eq_noRequest.mpr hMissing] at hCall
        exact (hWaits.noRequest c hCall j).2 hEnds

/-
  NO_REQUEST means incomplete exactly where the request line
  is refused, or nothing in the header is malformed and the
  file of a complete request is found.
-/
theorem waits_only_incomplete_iff
    (fs : FileSystem)
    (conn : HttpParser)
    {s : Bytes}
    (hReceived : Received s) :
    WaitsOnlyIncomplete fs conn s ↔ Answerable fs s := by
  rcases HttpParser.processRead_traced hReceived fs conn with
    ⟨code, c, hCall, hTraced⟩
  exact
    ⟨hTraced.answerable hCall,
      hTraced.waitsOnlyIncomplete hCall⟩

/- A request that ends with an LF alone. -/
def bareLineFeed : Bytes := utf8 "GET /a HTTP/1.1\n"

/- A complete request. -/
def wholeRequest : Bytes := utf8 "GET /a HTTP/1.1\r\n\r\n"

/- No path names a file. -/
def noFile : FileSystem where
  stat _ := none
  openRdonly _ := false
  mmap _ _ := none

theorem waits_only_incomplete_whole_request :
    WaitsOnlyIncomplete oneFile unusedParser wholeRequest := by
  have hReceived : Received wholeRequest := by
    decide +kernel
  have hFormed : ∀ i < wholeRequest.length,
      ¬MalformedAt wholeRequest i := by
    decide +kernel
  have hAsked :
      asked wholeRequest = some (some (utf8 "/a")) := by
    decide +kernel
  refine
    (waits_only_incomplete_iff oneFile unusedParser
      hReceived).mpr (.inr ⟨?_, ?_⟩)
  · intro i hMalformed
    exact absurd hMalformed (hFormed i hMalformed.lt)
  · exact fun _ => ⟨_, hAsked, rfl⟩

/-
  The two ways it goes wrong: an LF without a CR, and a
  complete request for a file that is not there, are both
  taken for incomplete.
-/
theorem waits_for_complete_requests :
    (Received bareLineFeed ∧
        ¬WaitsOnlyIncomplete oneFile unusedParser
          bareLineFeed) ∧
      Received wholeRequest ∧
        ¬WaitsOnlyIncomplete noFile unusedParser
          wholeRequest := by
  have hBare : Received bareLineFeed := by
    decide +kernel
  have hWhole : Received wholeRequest := by
    decide +kernel
  refine ⟨⟨hBare, ?_⟩, hWhole, ?_⟩
  · intro hWaits
    rcases HttpParser.processRead_traced hBare oneFile
        unusedParser with
      ⟨code, c, hCall, hTraced⟩
    have hNot : asked bareLineFeed ≠ some none := by
      decide +kernel
    have hMalformed : MalformedAt bareLineFeed 15 := by
      decide +kernel
    have hOpen : ∀ j < 15, ¬HeaderEndsAt bareLineFeed j := by
      decide +kernel
    rcases hTraced.answerable hCall hWaits with
      hRefused | ⟨hFormed, _⟩
    · exact hNot hRefused
    · rcases hFormed 15 hMalformed with ⟨j, hBefore, hEnds⟩
      exact hOpen j hBefore hEnds
  · intro hWaits
    rcases HttpParser.processRead_traced hWhole noFile
        unusedParser with
      ⟨code, c, hCall, hTraced⟩
    have hNot : asked wholeRequest ≠ some none := by
      decide +kernel
    have hEnds : HeaderEndsAt wholeRequest 15 := by
      decide +kernel
    rcases hTraced.answerable hCall hWaits with
      hRefused | ⟨_, hFiles⟩
    · exact hNot hRefused
    · rcases hFiles ⟨15, hEnds⟩ with ⟨path, _, hFound⟩
      cases hFound

end V2

end WebServer
