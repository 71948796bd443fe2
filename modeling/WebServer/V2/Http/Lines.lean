import WebServer.V2.Http.ProcessRead

/-
  The lines of a request in version 2.0: what `parse_line`
  and the functions that handle a line do to the buffer.

  Each of them stays behind the end of its line, so each does
  the same when more bytes have been received.

  Key definitions include:
    * `HttpParser.StopsAt`
    * `HttpParser.EndsLine`
    * `HttpParser.Framed`
    * `HttpParser.Marks`
    * `HttpParser.Parsed`
    * `HttpParser.LineReady`

  Key theorems include:
    * `HttpParser.parseLine_cases`
    * `HttpParser.parseLine_resume`
    * `HttpParser.handleLine_receive`
    * `HttpParser.handleLine_requestLine`
    * `HttpParser.handleLine_header`
-/

------------------------------------------------------------
-- One Line
------------------------------------------------------------

namespace WebServer

namespace V2

namespace HttpParser

/- The scan of a line has come to `k`. -/
def scanned
    (c : HttpParser)
    (k : Nat) : HttpParser :=
  { c with checkedIdx := k }

/- The bytes from `i` to `j` hold neither CR nor LF. -/
def PlainFrom
    (c : HttpParser)
    (i j : Nat) : Prop :=
  ∀ m, i ≤ m → m < j →
    c.byteAt m ≠ 13 ∧ c.byteAt m ≠ 10

/- Nothing is left to scan. -/
theorem parseLine_at_end
    {c : HttpParser}
    (hEnd : c.readIdx ≤ c.checkedIdx) :
    c.parseLine = (.lineOpen, c) := by
  unfold parseLine
  rw [Nat.sub_eq_zero_of_le hEnd]
  rfl

/- One turn of the loop of `parse_line`. -/
theorem parseLine_turn
    {c : HttpParser}
    (hMore : c.checkedIdx < c.readIdx) :
    c.parseLine =
      if c.byteAt c.checkedIdx = 13 then
        if c.checkedIdx + 1 = c.readIdx then
          (.lineOpen, c)
        else if c.byteAt (c.checkedIdx + 1) = 10 then
          (.lineOk,
            { (c.cutAt c.checkedIdx).cutAt
                (c.checkedIdx + 1) with
              checkedIdx := c.checkedIdx + 2 })
        else
          (.lineBad, c)
      else if c.byteAt c.checkedIdx = 10 then
        if 1 < c.checkedIdx ∧
            c.byteAt (c.checkedIdx - 1) = 13 then
          (.lineOk,
            { (c.cutAt (c.checkedIdx - 1)).cutAt
                c.checkedIdx with
              checkedIdx := c.checkedIdx + 1 })
        else
          (.lineBad, c)
      else
        (c.scanned (c.checkedIdx + 1)).parseLine := by
  have hTurns :
      c.readIdx - c.checkedIdx =
        c.readIdx - (c.checkedIdx + 1) + 1 := by
    omega
  unfold parseLine
  rw [hTurns]
  rfl

/- Bytes that end no line are skipped. -/
theorem parseLine_skip
    {c : HttpParser}
    {k : Nat}
    (hFrom : c.checkedIdx ≤ k)
    (hTo : k ≤ c.readIdx)
    (hPlain : c.PlainFrom c.checkedIdx k) :
    c.parseLine = (c.scanned k).parseLine := by
  induction hGap : k - c.checkedIdx generalizing c with
  | zero =>
      have hSame : k = c.checkedIdx := by omega
      rw [hSame]
      rfl
  | succ n ih =>
      have hHere :=
        hPlain c.checkedIdx (Nat.le_refl _) (by omega)
      rw [parseLine_turn (by omega), if_neg hHere.1,
        if_neg hHere.2]
      have hRest :
          (c.scanned (c.checkedIdx + 1)).PlainFrom
            (c.checkedIdx + 1) k := by
        intro m hLe hLt
        exact hPlain m (by omega) hLt
      exact
        ih (c := c.scanned (c.checkedIdx + 1))
          (show c.checkedIdx + 1 ≤ k by omega) hTo hRest
          (show k - (c.checkedIdx + 1) = n by omega)

/- Where the scan of a line stops. -/
theorem exists_stop
    (c : HttpParser)
    (hIn : c.checkedIdx ≤ c.readIdx) :
    ∃ k,
      c.checkedIdx ≤ k ∧ k ≤ c.readIdx ∧
        c.PlainFrom c.checkedIdx k ∧
          (k = c.readIdx ∨
            k < c.readIdx ∧
              (c.byteAt k = 13 ∨ c.byteAt k = 10)) := by
  induction hGap : c.readIdx - c.checkedIdx
      generalizing c with
  | zero =>
      refine ⟨c.checkedIdx, Nat.le_refl _, hIn, ?_, ?_⟩
      · intro m hLe hLt
        omega
      · left
        omega
  | succ n ih =>
      by_cases hHere :
          c.byteAt c.checkedIdx = 13 ∨
            c.byteAt c.checkedIdx = 10
      · refine
          ⟨c.checkedIdx, Nat.le_refl _, hIn, ?_,
            .inr ⟨by omega, hHere⟩⟩
        intro m hLe hLt
        omega
      · rw [not_or] at hHere
        rcases
          ih (c.scanned (c.checkedIdx + 1))
            (show c.checkedIdx + 1 ≤ c.readIdx by omega)
            (show c.readIdx - (c.checkedIdx + 1) = n by
              omega) with
          ⟨k, hFrom, hTo, hPlain, hStop⟩
        have hLater : c.checkedIdx + 1 ≤ k := hFrom
        refine ⟨k, by omega, hTo, ?_, hStop⟩
        intro m hLe hLt
        by_cases hFirst : m = c.checkedIdx
        · rw [hFirst]
          exact hHere
        · exact
            hPlain m
              (show c.checkedIdx + 1 ≤ m by omega) hLt

/- A line that ends at CR LF. -/
def lineEnded
    (c : HttpParser)
    (k : Nat) : HttpParser :=
  { (c.cutAt k).cutAt (k + 1) with checkedIdx := k + 2 }

theorem parseLine_at_cr
    {c : HttpParser}
    (hMore : c.checkedIdx < c.readIdx)
    (hCr : c.byteAt c.checkedIdx = 13) :
    c.parseLine =
      if c.checkedIdx + 1 = c.readIdx then
        (.lineOpen, c)
      else if c.byteAt (c.checkedIdx + 1) = 10 then
        (.lineOk, c.lineEnded c.checkedIdx)
      else
        (.lineBad, c) := by
  rw [parseLine_turn hMore, if_pos hCr]
  rfl

theorem parseLine_at_lf
    {c : HttpParser}
    (hMore : c.checkedIdx < c.readIdx)
    (hLf : c.byteAt c.checkedIdx = 10)
    (hBefore :
      1 < c.checkedIdx →
        c.byteAt (c.checkedIdx - 1) ≠ 13) :
    c.parseLine = (.lineBad, c) := by
  have hNotCr : c.byteAt c.checkedIdx ≠ 13 := by
    rw [hLf]
    decide
  rw [parseLine_turn hMore, if_neg hNotCr, if_pos hLf,
    if_neg]
  rintro ⟨hInside, hCr⟩
  exact hBefore hInside hCr

/-
  The scan stops at `k` without a complete line: at the end,
  or at a CR or an LF that ends no line.
-/
def StopsAt
    (c : HttpParser)
    (k : Nat) : Prop :=
  k = c.readIdx ∨
    k < c.readIdx ∧
      (c.byteAt k = 10 ∨
        c.byteAt k = 13 ∧
          (k + 1 < c.readIdx → c.byteAt (k + 1) ≠ 10))

/-
  What `parse_line` does. The branch for an LF behind a CR
  is never taken where no CR precedes the scan.
-/
theorem parseLine_cases
    {c : HttpParser}
    (hIn : c.checkedIdx ≤ c.readIdx)
    (hBefore :
      1 < c.checkedIdx →
        c.byteAt (c.checkedIdx - 1) ≠ 13) :
    ∃ k,
      c.checkedIdx ≤ k ∧ k ≤ c.readIdx ∧
        c.PlainFrom c.checkedIdx k ∧
          ((∃ status,
              status ≠ .lineOk ∧ c.StopsAt k ∧
                c.parseLine = (status, c.scanned k)) ∨
            (k + 1 < c.readIdx ∧ c.byteAt k = 13 ∧
              c.byteAt (k + 1) = 10 ∧
                c.parseLine = (.lineOk, c.lineEnded k))) := by
  rcases c.exists_stop hIn with
    ⟨k, hFrom, hTo, hPlain, hStop⟩
  refine ⟨k, hFrom, hTo, hPlain, ?_⟩
  rw [parseLine_skip hFrom hTo hPlain]
  rcases hStop with hEnd | ⟨hMore, hCr | hLf⟩
  · left
    refine ⟨.lineOpen, LineStatus.noConfusion, .inl hEnd, ?_⟩
    exact parseLine_at_end (Nat.le_of_eq hEnd.symm)
  · have hTurn :
        (c.scanned k).parseLine =
          if k + 1 = c.readIdx then
            (.lineOpen, c.scanned k)
          else if c.byteAt (k + 1) = 10 then
            (.lineOk, c.lineEnded k)
          else
            (.lineBad, c.scanned k) :=
      parseLine_at_cr (c := c.scanned k) hMore hCr
    rw [hTurn]
    split_ifs with hLast hNext
    · refine .inl ⟨_, LineStatus.noConfusion, .inr ?_, rfl⟩
      exact ⟨hMore, .inr ⟨hCr, fun _ => by omega⟩⟩
    · exact .inr ⟨by omega, hCr, hNext, rfl⟩
    · refine .inl ⟨_, LineStatus.noConfusion, .inr ?_, rfl⟩
      exact ⟨hMore, .inr ⟨hCr, fun _ => hNext⟩⟩
  · left
    refine
      ⟨.lineBad, LineStatus.noConfusion,
        .inr ⟨hMore, .inl hLf⟩, ?_⟩
    apply parseLine_at_lf (c := c.scanned k) hMore hLf
    intro hInside hCr
    have hAt : 1 < k ∧ c.byteAt (k - 1) = 13 :=
      ⟨hInside, hCr⟩
    by_cases hFirst : k = c.checkedIdx
    · rw [hFirst] at hAt
      exact hBefore hAt.1 hAt.2
    · exact
        (hPlain (k - 1) (by omega) (by omega)).1 hAt.2

end HttpParser

end V2

end WebServer

------------------------------------------------------------
-- More Bytes
------------------------------------------------------------

namespace WebServer

namespace V2

namespace HttpParser

/- A pointer is null or points at a string received. -/
def Points
    (c : HttpParser)
    (p : Option Nat) : Prop :=
  ∀ k, p = some k → CString.Ends c.readBuffer k c.readIdx

/- What holds of the indices and the pointers. -/
structure Framed
    (c : HttpParser) : Prop where
  startLine_le : c.startLine ≤ c.checkedIdx
  checkedIdx_le : c.checkedIdx ≤ c.readIdx
  readIdx_le : c.readIdx ≤ c.readBuffer.length
  before :
    1 < c.checkedIdx → c.byteAt (c.checkedIdx - 1) ≠ 13
  url : c.Points c.url
  version : c.Points c.version
  host : c.Points c.host

theorem framed_init
    (c : HttpParser) :
    c.init.Framed where
  startLine_le := Nat.le_refl _
  checkedIdx_le := Nat.le_refl _
  readIdx_le := Nat.zero_le _
  before := by
    intro hInside
    cases hInside
  url := by
    intro k hNull
    cases hNull
  version := by
    intro k hNull
    cases hNull
  host := by
    intro k hNull
    cases hNull

theorem receive_nil
    (c : HttpParser) :
    c.receive [] = c := by
  unfold receive
  rw [CString.store_nil]
  rfl

theorem receive_receive
    {c : HttpParser}
    (hIn : c.readIdx ≤ c.readBuffer.length)
    (bytes more : Bytes) :
    (c.receive bytes).receive more =
      c.receive (bytes ++ more) := by
  unfold receive
  simp only [CString.store_store hIn, List.length_append,
    Nat.add_assoc]

/- The bytes that were there stay. -/
theorem agree_receive
    {c : HttpParser}
    (hIn : c.readIdx ≤ c.readBuffer.length)
    (bytes : Bytes) :
    CString.Agree c.readBuffer (c.receive bytes).readBuffer
      c.readIdx :=
  CString.agree_store hIn bytes

theorem byteAt_receive
    {c : HttpParser}
    {i : Nat}
    (hIn : c.readIdx ≤ c.readBuffer.length)
    (hOld : i < c.readIdx)
    (bytes : Bytes) :
    (c.receive bytes).byteAt i = c.byteAt i := by
  unfold byteAt
  rw [List.getD_eq_getElem?_getD,
    List.getD_eq_getElem?_getD,
    (agree_receive hIn bytes).getElem? hOld]

theorem readIdx_le_cutAt
    {c : HttpParser}
    (hIn : c.readIdx ≤ c.readBuffer.length)
    (k : Nat) :
    (c.cutAt k).readIdx ≤ (c.cutAt k).readBuffer.length := by
  unfold cutAt
  rw [List.length_set]
  exact hIn

theorem cutAt_receive
    {c : HttpParser}
    {k : Nat}
    (hIn : c.readIdx ≤ c.readBuffer.length)
    (hOld : k < c.readIdx)
    (bytes : Bytes) :
    (c.receive bytes).cutAt k =
      (c.cutAt k).receive bytes := by
  unfold cutAt receive
  simp only [CString.store_set hIn hOld]

theorem Points.receive
    {c : HttpParser}
    {p : Option Nat}
    (h : c.Points p)
    (hIn : c.readIdx ≤ c.readBuffer.length)
    (bytes : Bytes) :
    (c.receive bytes).Points p := by
  intro k hSome
  exact
    ((agree_receive hIn bytes).ends (h k hSome)).mono
      (Nat.le_add_right _ _)

theorem Framed.receive
    {c : HttpParser}
    (h : c.Framed)
    (bytes : Bytes) :
    (c.receive bytes).Framed where
  startLine_le := h.startLine_le
  checkedIdx_le :=
    Nat.le_trans h.checkedIdx_le (Nat.le_add_right _ _)
  readIdx_le := CString.le_length_store h.readIdx_le bytes
  before := by
    intro hInside
    have hOld := h.checkedIdx_le
    have hInside' : 1 < c.checkedIdx := hInside
    show (c.receive bytes).byteAt (c.checkedIdx - 1) ≠ 13
    rw [byteAt_receive h.readIdx_le (by omega)]
    exact h.before hInside
  url := h.url.receive h.readIdx_le bytes
  version := h.version.receive h.readIdx_le bytes
  host := h.host.receive h.readIdx_le bytes

/- A scan passes the same bytes. -/
theorem PlainFrom.receive
    {c : HttpParser}
    {i k : Nat}
    (h : c.PlainFrom i k)
    (hIn : c.readIdx ≤ c.readBuffer.length)
    (hTo : k ≤ c.readIdx)
    (bytes : Bytes) :
    (c.receive bytes).PlainFrom i k := by
  intro m hLe hLt
  rw [byteAt_receive hIn (by omega)]
  exact h m hLe hLt

/- A complete line ends with the CR and LF at `k`. -/
structure EndsLine
    (c : HttpParser)
    (k : Nat) : Prop where
  from_le : c.checkedIdx ≤ k
  more : k + 1 < c.readIdx
  plain : c.PlainFrom c.checkedIdx k
  cr : c.byteAt k = 13
  lf : c.byteAt (k + 1) = 10

/- What a complete line is. -/
theorem parseLine_ok
    {c c' : HttpParser}
    (h : c.Framed)
    (hLine : c.parseLine = (.lineOk, c')) :
    ∃ k, c.EndsLine k ∧ c' = c.lineEnded k := by
  rcases parseLine_cases h.checkedIdx_le h.before with
    ⟨k, hFrom, hTo, hPlain,
      ⟨status, hStatus, _, hCall⟩ | ⟨hMore, hCr, hLf, hCall⟩⟩
  · rw [hCall] at hLine
    cases hLine
    exact absurd rfl hStatus
  · rw [hCall] at hLine
    cases hLine
    exact ⟨k, ⟨hFrom, hMore, hPlain, hCr, hLf⟩, rfl⟩

/- A complete line is found whatever follows it. -/
theorem parseLine_receive
    {c c' : HttpParser}
    (h : c.Framed)
    (hLine : c.parseLine = (.lineOk, c'))
    (bytes : Bytes) :
    (c.receive bytes).parseLine =
      (.lineOk, c'.receive bytes) := by
  rcases parseLine_ok h hLine with
    ⟨k, ⟨hFrom, hMore, hPlain, hCr, hLf⟩, rfl⟩
  have hTo : k ≤ c.readIdx := by omega
  have hIn := h.readIdx_le
  have hSkip :=
    parseLine_skip (c := c.receive bytes) hFrom
      (Nat.le_trans hTo (Nat.le_add_right _ _))
      (hPlain.receive hIn hTo bytes)
  have hTurn :
      ((c.receive bytes).scanned k).parseLine =
        if k + 1 = c.readIdx + bytes.length then
          (.lineOpen, (c.receive bytes).scanned k)
        else if (c.receive bytes).byteAt (k + 1) = 10 then
          (.lineOk, (c.receive bytes).lineEnded k)
        else
          (.lineBad, (c.receive bytes).scanned k) := by
    apply parseLine_at_cr (c := (c.receive bytes).scanned k)
    · show k < c.readIdx + bytes.length
      omega
    · show (c.receive bytes).byteAt k = 13
      rw [byteAt_receive hIn (by omega)]
      exact hCr
  rw [hSkip, hTurn, if_neg (by omega),
    byteAt_receive hIn (by omega), if_pos hLf]
  unfold lineEnded
  rw [cutAt_receive hIn (by omega),
    cutAt_receive (readIdx_le_cutAt hIn k)
      (show k + 1 < c.readIdx from hMore)]
  rfl

/-
  A scan that found no complete line goes on, when more
  bytes are there, as a scan of all the bytes.
-/
theorem parseLine_resume
    {c c' : HttpParser}
    {status : LineStatus}
    (h : c.Framed)
    (hLine : c.parseLine = (status, c'))
    (hStatus : status ≠ .lineOk)
    (bytes : Bytes) :
    (c'.receive bytes).parseLine =
      (c.receive bytes).parseLine := by
  rcases parseLine_cases h.checkedIdx_le h.before with
    ⟨k, hFrom, hTo, hPlain,
      ⟨status', _, _, hCall⟩ | ⟨_, _, _, hCall⟩⟩
  · rw [hCall] at hLine
    cases hLine
    have hSkip :=
      parseLine_skip (c := c.receive bytes) hFrom
        (Nat.le_trans hTo (Nat.le_add_right _ _))
        (hPlain.receive h.readIdx_le hTo bytes)
    exact hSkip.symm
  · rw [hCall] at hLine
    cases hLine
    exact absurd rfl hStatus

end HttpParser

end V2

end WebServer

------------------------------------------------------------
-- Handling A Line
------------------------------------------------------------

namespace WebServer

namespace V2

namespace HttpParser

/- What a pointer points at stays the same. -/
theorem stringAt_receive
    {c : HttpParser}
    {p : Nat}
    (hIn : c.readIdx ≤ c.readBuffer.length)
    (hEnds : CString.Ends c.readBuffer p c.readIdx)
    (bytes : Bytes) :
    (c.receive bytes).stringAt p = c.stringAt p :=
  CString.string_congr (agree_receive hIn bytes) hEnds

theorem Points.lt
    {c : HttpParser}
    {k : Nat}
    (h : CString.Ends c.readBuffer k c.readIdx) :
    k < c.readIdx := by
  rcases h with ⟨e, hLe, hLt, _⟩
  omega

/- Ending a string earlier leaves every pointer good. -/
theorem Points.cutAt
    {c : HttpParser}
    {p : Option Nat}
    (h : c.Points p)
    (k : Nat) :
    (c.cutAt k).Points p := by
  intro j hSome
  exact (h j hSome).set k

theorem Points.none
    (c : HttpParser) :
    c.Points Option.none := by
  intro k hNull
  cases hNull

/- What follows `http://` is in the same string. -/
theorem ends_pastHost
    {c : HttpParser}
    {url : Nat}
    (hHost :
      CString.strncaseEq (c.stringAt url) (utf8 "http://")
        7 = true)
    (hEnds : CString.Ends c.readBuffer url c.readIdx) :
    CString.Ends c.readBuffer (url + 7) c.readIdx := by
  have hLong := CString.strncaseEq_length hHost (by decide)
  exact hEnds.of_le (Nat.add_le_add_left hLong _)

/- What `parsePath` may change. -/
theorem parsePath_frame
    {c : HttpParser}
    {url : Nat}
    (hUrl : c.url = some url)
    (hEnds : CString.Ends c.readBuffer url c.readIdx) :
    ∃ u,
      c.Points u ∧
        (c.parsePath url =
            (.badRequest, { c with url := u }) ∨
          u ≠ none ∧
            c.parsePath url =
              (.noRequest,
                { c with
                  url := u
                  checkState := .header })) := by
  by_cases hHost :
      CString.strncaseEq (c.stringAt url) (utf8 "http://")
        7 = true
  · have hPath := ends_pastHost hHost hEnds
    cases hFind : CString.strchr c.readBuffer (url + 7) 47 with
    | none =>
        refine ⟨none, .none c, .inl ?_⟩
        unfold parsePath
        simp only [if_pos hHost, hFind]
    | some k =>
        have hBounds := CString.strchr_bounds hFind
        refine ⟨some k, ?_, ?_⟩
        · rintro j hSome
          cases hSome
          exact hPath.of_le (Nat.le_of_lt hBounds.2)
        · unfold parsePath
          simp only [if_pos hHost, hFind]
          split_ifs
          · exact .inr ⟨Option.some_ne_none k, rfl⟩
          · exact .inl rfl
  · refine ⟨some url, ?_, ?_⟩
    · rintro j hSome
      cases hSome
      exact hEnds
    · unfold parsePath
      simp only [if_neg hHost, hUrl]
      split_ifs
      · exact
          .inr ⟨Option.some_ne_none url, by rw [← hUrl]⟩
      · exact .inl (by rw [← hUrl])

theorem parsePath_receive
    {c : HttpParser}
    {url : Nat}
    (hIn : c.readIdx ≤ c.readBuffer.length)
    (hUrl : c.url = some url)
    (hEnds : CString.Ends c.readBuffer url c.readIdx)
    (bytes : Bytes) :
    (c.receive bytes).parsePath url =
      ((c.parsePath url).1,
        (c.parsePath url).2.receive bytes) := by
  have hString := stringAt_receive hIn hEnds bytes
  by_cases hHost :
      CString.strncaseEq (c.stringAt url) (utf8 "http://")
        7 = true
  · have hPath := ends_pastHost hHost hEnds
    have hSearch :=
      CString.strchr_congr (agree_receive hIn bytes) hPath 47
    unfold parsePath
    simp only [hString, if_pos hHost, hSearch]
    cases hFind : CString.strchr c.readBuffer (url + 7) 47 with
    | none => rfl
    | some k =>
        have hBounds := CString.strchr_bounds hFind
        have hByte :=
          byteAt_receive hIn
            (Points.lt (hPath.of_le (Nat.le_of_lt hBounds.2)))
            bytes
        unfold byteAt at hByte ⊢
        simp only [hByte]
        split_ifs <;> rfl
  · have hByte :=
      byteAt_receive hIn (Points.lt hEnds) bytes
    have hUrl' : (c.receive bytes).url = some url := hUrl
    unfold parsePath
    simp only [hString, if_neg hHost, hUrl, hUrl', hByte]
    split_ifs <;> rfl

/-
  A line was marked: NULs were put before `m_checked_idx`,
  and the indices stay.
-/
structure Marks
    (c c' : HttpParser) : Prop where
  readIdx : c'.readIdx = c.readIdx
  checkedIdx : c'.checkedIdx = c.checkedIdx
  startLine : c'.startLine = c.startLine
  length : c'.readBuffer.length = c.readBuffer.length
  byteAt :
    ∀ i,
      c'.byteAt i = c.byteAt i ∨
        i < c.checkedIdx ∧ c'.byteAt i = 0
  points : ∀ p, c.Points p → c'.Points p

theorem Marks.refl
    (c : HttpParser) :
    c.Marks c where
  readIdx := rfl
  checkedIdx := rfl
  startLine := rfl
  length := rfl
  byteAt := fun _ => .inl rfl
  points := fun _ h => h

theorem Marks.cutAt
    {c c' : HttpParser}
    (h : c.Marks c')
    {k : Nat}
    (hBelow : k < c.checkedIdx) :
    c.Marks (c'.cutAt k) where
  readIdx := h.readIdx
  checkedIdx := h.checkedIdx
  startLine := h.startLine
  length := by
    rw [← h.length]
    exact List.length_set
  byteAt := by
    intro i
    have hByte :
        (c'.cutAt k).byteAt i = c'.byteAt i ∨
          i = k ∧ (c'.cutAt k).byteAt i = 0 := by
      unfold HttpParser.byteAt HttpParser.cutAt
      simp only [List.getD_eq_getElem?_getD,
        List.getElem?_set]
      split_ifs with hSame hIn
      · exact .inr ⟨hSame.symm, rfl⟩
      · exact .inr ⟨hSame.symm, rfl⟩
      · exact .inl rfl
    rcases hByte with hKept | ⟨rfl, hNul⟩
    · rw [hKept]
      exact h.byteAt i
    · exact .inr ⟨hBelow, hNul⟩
  points := fun p hPoints => (h.points p hPoints).cutAt k

/- Behind the line nothing changes. -/
theorem Marks.byteAt_of_le
    {c c' : HttpParser}
    (h : c.Marks c')
    {i : Nat}
    (hBehind : c.checkedIdx ≤ i) :
    c'.byteAt i = c.byteAt i := by
  rcases h.byteAt i with hKept | ⟨hBelow, _⟩
  · exact hKept
  · omega

theorem Framed.of_marks
    {c c' : HttpParser}
    (h : c.Framed)
    (hMarks : c.Marks c')
    (hUrl : c'.Points c'.url)
    (hVersion : c'.Points c'.version)
    (hHost : c'.Points c'.host) :
    c'.Framed where
  startLine_le := by
    rw [hMarks.startLine, hMarks.checkedIdx]
    exact h.startLine_le
  checkedIdx_le := by
    rw [hMarks.checkedIdx, hMarks.readIdx]
    exact h.checkedIdx_le
  readIdx_le := by
    rw [hMarks.readIdx, hMarks.length]
    exact h.readIdx_le
  before := by
    intro hInside
    rw [hMarks.checkedIdx] at hInside ⊢
    rcases hMarks.byteAt (c.checkedIdx - 1) with
      hKept | ⟨_, hNul⟩
    · rw [hKept]
      exact h.before hInside
    · rw [hNul]
      decide
  url := hUrl
  version := hVersion
  host := hHost

/- The same of a line that was already marked. -/
theorem Framed.of_marks_of_points
    {c c' : HttpParser}
    (h : c.Framed)
    (hMarks : c.Marks c')
    (hUrl : c'.Points c'.url)
    (hVersion : c'.Points c'.version)
    (hHost : c'.host = c.host) :
    c'.Framed := by
  apply h.of_marks hMarks hUrl hVersion
  rw [hHost]
  exact hMarks.points _ h.host

theorem Marks.trans
    {c₁ c₂ c₃ : HttpParser}
    (h₁ : c₁.Marks c₂)
    (h₂ : c₂.Marks c₃) :
    c₁.Marks c₃ where
  readIdx := h₂.readIdx.trans h₁.readIdx
  checkedIdx := h₂.checkedIdx.trans h₁.checkedIdx
  startLine := h₂.startLine.trans h₁.startLine
  length := h₂.length.trans h₁.length
  byteAt := by
    intro i
    rcases h₂.byteAt i with hKept | ⟨hBelow, hNul⟩
    · rw [hKept]
      exact h₁.byteAt i
    · rw [h₁.checkedIdx] at hBelow
      exact .inr ⟨hBelow, hNul⟩
  points := fun p hPoints => h₂.points p (h₁.points p hPoints)

/-
  What `parse_request_line` and its parts do to a line: they
  mark it, leave the header fields alone, and end with an
  error or in `CHECK_STATE_HEADER` with a URL.
-/
structure Parsed
    (c : HttpParser)
    (r : HttpCode × HttpParser) : Prop where
  marks : c.Marks r.2
  framed : r.2.Framed
  host : r.2.host = c.host
  linger : r.2.linger = c.linger
  contentLength : r.2.contentLength = c.contentLength
  ends :
    r.1 = .badRequest ∨
      r.1 = .noRequest ∧
        r.2.checkState = .header ∧ r.2.url ≠ none

/- A line that was marked before. -/
theorem Parsed.of_marked
    {c c₁ : HttpParser}
    {r : HttpCode × HttpParser}
    (h : c₁.Parsed r)
    (hMarks : c.Marks c₁)
    (hHost : c₁.host = c.host)
    (hLinger : c₁.linger = c.linger)
    (hLength : c₁.contentLength = c.contentLength) :
    c.Parsed r where
  marks := hMarks.trans h.marks
  framed := h.framed
  host := h.host.trans hHost
  linger := h.linger.trans hLinger
  contentLength := h.contentLength.trans hLength
  ends := h.ends

/- A line that is refused. -/
theorem parsed_badRequest
    {c : HttpParser}
    (h : c.Framed) :
    c.Parsed (.badRequest, c) :=
  ⟨.refl c, h, rfl, rfl, rfl, .inl rfl⟩

theorem parsed_parsePath
    {c : HttpParser}
    {url : Nat}
    (h : c.Framed)
    (hUrl : c.url = some url) :
    c.Parsed (c.parsePath url) := by
  rcases parsePath_frame hUrl (h.url url hUrl) with
    ⟨u, hU, hPath | ⟨hSome, hPath⟩⟩
  · rw [hPath]
    exact
      ⟨{ Marks.refl c with }, { h with url := hU }, rfl, rfl,
        rfl, .inl rfl⟩
  · rw [hPath]
    exact
      ⟨{ Marks.refl c with }, { h with url := hU }, rfl, rfl,
        rfl, .inr ⟨rfl, rfl, hSome⟩⟩

theorem parsed_parseVersion
    {c : HttpParser}
    {url : Nat}
    (h : c.Framed)
    (hUrl : c.url = some url)
    (hEnds : CString.Ends c.readBuffer url c.checkedIdx) :
    c.Parsed (c.parseVersion url) := by
  unfold parseVersion
  cases hFind : CString.strpbrk c.readBuffer url blanks with
  | none =>
      exact
        ⟨{ Marks.refl c with }, { h with version := .none c },
          rfl, rfl, rfl, .inl rfl⟩
  | some k =>
      have hBounds := CString.strpbrk_bounds hFind
      have hText := hEnds.terminator
      have hMarks :
          c.Marks { c.cutAt k with version := some (k + 1) } :=
        { (Marks.refl c).cutAt
            (show k < c.checkedIdx by omega) with }
      have hVersion :
          (c.cutAt k).Points (some (k + 1)) := by
        rintro j hSome
        cases hSome
        exact
          ((hEnds.of_le hBounds.2).mono h.checkedIdx_le).set k
      have hCut :=
        h.of_marks_of_points hMarks (h.url.cutAt k) hVersion
          rfl
      simp only
      split_ifs with hHttp
      · exact
          (parsed_parsePath hCut hUrl).of_marked hMarks rfl rfl
            rfl
      · exact
          (parsed_badRequest hCut).of_marked hMarks rfl rfl rfl

/- The method is cut off the line at its first blank. -/
theorem Framed.cutMethod
    {c : HttpParser}
    {text k : Nat}
    (h : c.Framed)
    (hEnds : CString.Ends c.readBuffer text c.checkedIdx)
    (hFind :
      CString.strpbrk c.readBuffer text blanks = some k) :
    CString.Ends (c.cutAt k).readBuffer (k + 1)
        c.checkedIdx ∧
      c.Marks { c.cutAt k with url := some (k + 1) } ∧
        { c.cutAt k with url := some (k + 1) }.Framed := by
  have hBounds := CString.strpbrk_bounds hFind
  have hText := hEnds.terminator
  have hMarks :
      c.Marks { c.cutAt k with url := some (k + 1) } :=
    { (Marks.refl c).cutAt
        (show k < c.checkedIdx by omega) with }
  have hRest :
      CString.Ends (c.cutAt k).readBuffer (k + 1)
        c.checkedIdx :=
    (hEnds.of_le hBounds.2).set k
  have hUrl : (c.cutAt k).Points (some (k + 1)) := by
    rintro j hSome
    cases hSome
    exact hRest.mono h.checkedIdx_le
  exact
    ⟨hRest, hMarks,
      h.of_marks_of_points hMarks hUrl (h.version.cutAt k)
        rfl⟩

/-
  `parse_request_line` writes through a null pointer on a
  line without a blank, and on no other.
-/
theorem parseRequestLine_cases
    {c : HttpParser}
    {text : Nat}
    (h : c.Framed)
    (hEnds : CString.Ends c.readBuffer text c.checkedIdx) :
    (CString.strpbrk c.readBuffer text blanks = none ∧
        c.parseRequestLine text = .error .nullDereference) ∨
      ∃ r, c.parseRequestLine text = .ok r ∧ c.Parsed r := by
  unfold parseRequestLine
  cases hFind :
      CString.strpbrk c.readBuffer text blanks with
  | none => exact .inl ⟨rfl, rfl⟩
  | some k =>
      right
      rcases h.cutMethod hEnds hFind with
        ⟨hRest, hMarks, hCut⟩
      simp only
      split_ifs with hGet
      · refine ⟨_, rfl, ?_⟩
        have hGot :
            { c.cutAt k with
              url := some (k + 1)
              method := .get }.Framed :=
          { hCut with }
        exact
          (parsed_parseVersion hGot rfl hRest).of_marked
            { hMarks with } rfl rfl rfl
      · exact
          ⟨_, rfl,
            (parsed_badRequest hCut).of_marked hMarks rfl rfl
              rfl⟩

theorem parseVersion_receive
    {c : HttpParser}
    {url : Nat}
    (h : c.Framed)
    (hUrl : c.url = some url)
    (hEnds : CString.Ends c.readBuffer url c.checkedIdx)
    (bytes : Bytes) :
    (c.receive bytes).parseVersion url =
      ((c.parseVersion url).1,
        (c.parseVersion url).2.receive bytes) := by
  have hIn := h.readIdx_le
  have hSearch :=
    CString.strpbrk_congr (agree_receive hIn bytes)
      (hEnds.mono h.checkedIdx_le) blanks
  unfold parseVersion
  rw [hSearch]
  cases hFind : CString.strpbrk c.readBuffer url blanks with
  | none => rfl
  | some k =>
      have hBounds := CString.strpbrk_bounds hFind
      have hText := hEnds.terminator
      have hLe := h.checkedIdx_le
      have hCut :=
        cutAt_receive hIn (show k < c.readIdx by omega) bytes
      have hIn' := readIdx_le_cutAt hIn k
      have hVersion :=
        stringAt_receive hIn'
          (((hEnds.of_le hBounds.2).mono hLe).set k) bytes
      have hPath :=
        parsePath_receive
          (c := { c.cutAt k with version := some (k + 1) })
          hIn' hUrl ((hEnds.mono hLe).set k) bytes
      simp only [hCut]
      unfold stringAt at hVersion ⊢
      simp only [hVersion]
      split_ifs with hHttp
      · exact hPath
      · rfl

theorem parseRequestLine_receive
    {c : HttpParser}
    {text : Nat}
    (h : c.Framed)
    (hEnds : CString.Ends c.readBuffer text c.checkedIdx)
    (bytes : Bytes) :
    (c.receive bytes).parseRequestLine text =
      (c.parseRequestLine text).map fun r =>
        (r.1, r.2.receive bytes) := by
  have hIn := h.readIdx_le
  have hLe := h.checkedIdx_le
  have hSearch :=
    CString.strpbrk_congr (agree_receive hIn bytes)
      (hEnds.mono hLe) blanks
  unfold parseRequestLine
  rw [hSearch]
  cases hFind :
      CString.strpbrk c.readBuffer text blanks with
  | none => rfl
  | some k =>
      have hBounds := CString.strpbrk_bounds hFind
      have hText := hEnds.terminator
      have hCut :=
        cutAt_receive hIn (show k < c.readIdx by omega) bytes
      have hIn' := readIdx_le_cutAt hIn k
      have hMethod :=
        stringAt_receive hIn' ((hEnds.mono hLe).set k) bytes
      rcases h.cutMethod hEnds hFind with
        ⟨hRest, _, hFramed⟩
      have hGot :
          { c.cutAt k with
            url := some (k + 1)
            method := .get }.Framed :=
        { hFramed with }
      have hVersion :=
        parseVersion_receive hGot rfl hRest bytes
      simp only [hCut]
      unfold stringAt at hMethod ⊢
      simp only [hMethod]
      split_ifs with hGet
      · exact congrArg Except.ok hVersion
      · rfl

/- A pointer past the name of a header and its blanks. -/
theorem points_skipBlanks
    {c : HttpParser}
    {text n : Nat}
    (hEnds : CString.Ends c.readBuffer text c.readIdx)
    (hLong : n ≤ (c.stringAt text).length) :
    CString.Ends c.readBuffer (text + n) c.readIdx ∧
      CString.Ends c.readBuffer (c.skipBlanks (text + n))
        c.readIdx := by
  have hName : CString.Ends c.readBuffer (text + n) c.readIdx :=
    hEnds.of_le (Nat.add_le_add_left hLong _)
  refine ⟨hName, hName.of_le ?_⟩
  exact Nat.add_le_add_left (CString.strspn_le _ _ _) _

theorem skipBlanks_receive
    {c : HttpParser}
    {text : Nat}
    (hIn : c.readIdx ≤ c.readBuffer.length)
    (hEnds : CString.Ends c.readBuffer text c.readIdx)
    (bytes : Bytes) :
    (c.receive bytes).skipBlanks text = c.skipBlanks text := by
  have hSame :=
    CString.strspn_congr (agree_receive hIn bytes) hEnds blanks
  unfold skipBlanks
  rw [hSame]

theorem parseHeaders_receive
    {c : HttpParser}
    {text : Nat}
    (hIn : c.readIdx ≤ c.readBuffer.length)
    (hEnds : CString.Ends c.readBuffer text c.readIdx)
    (bytes : Bytes) :
    (c.receive bytes).parseHeaders text =
      ((c.parseHeaders text).1,
        (c.parseHeaders text).2.receive bytes) := by
  have hByte := byteAt_receive hIn (Points.lt hEnds) bytes
  have hLine := stringAt_receive hIn hEnds bytes
  have hLength :
      (c.receive bytes).contentLength = c.contentLength :=
    rfl
  have hValue : ∀ name n,
      CString.strncaseEq (c.stringAt text) name n = true →
        n ≤ name.length →
          (c.receive bytes).skipBlanks (text + n) =
              c.skipBlanks (text + n) ∧
            (c.receive bytes).stringAt
                (c.skipBlanks (text + n)) =
              c.stringAt (c.skipBlanks (text + n)) := by
    intro name n hName hLong
    have hPoints :=
      points_skipBlanks hEnds
        (CString.strncaseEq_length hName hLong)
    exact
      ⟨skipBlanks_receive hIn hPoints.1 bytes,
        stringAt_receive hIn hPoints.2 bytes⟩
  unfold parseHeaders
  simp only [hByte, hLine, hLength]
  by_cases hEmpty : c.byteAt text = 0
  · simp only [if_pos hEmpty]
    split_ifs <;> rfl
  simp only [if_neg hEmpty]
  by_cases hConnection :
      CString.strncaseEq (c.stringAt text)
        (utf8 "Connection:") 11 = true
  · have hSame := hValue _ _ hConnection (by decide)
    simp only [if_pos hConnection, hSame.1, hSame.2]
    split_ifs <;> rfl
  simp only [if_neg hConnection]
  by_cases hSize :
      CString.strncaseEq (c.stringAt text)
        (utf8 "Content-Length:") 15 = true
  · have hSame := hValue _ _ hSize (by decide)
    simp only [if_pos hSize, hSame.1, hSame.2]
    rfl
  simp only [if_neg hSize]
  by_cases hHost :
      CString.strncaseEq (c.stringAt text) (utf8 "Host:")
        5 = true
  · have hSame := hValue _ _ hHost (by decide)
    simp only [if_pos hHost, hSame.1]
    rfl
  · simp only [if_neg hHost]

/-
  What `parse_headers` does: the empty line ends the header,
  and any other line sets at most one field.
-/
theorem parseHeaders_cases
    {c : HttpParser}
    {text : Nat}
    (h : c.Framed)
    (hEnds : CString.Ends c.readBuffer text c.readIdx) :
    (c.byteAt text = 0 ∧ c.contentLength ≠ 0 ∧
        c.parseHeaders text =
          (.noRequest, { c with checkState := .content })) ∨
      (c.byteAt text = 0 ∧ c.contentLength = 0 ∧
        c.parseHeaders text = (.getRequest, c)) ∨
      (c.byteAt text ≠ 0 ∧
        ∃ linger n host,
          c.Points host ∧
            (n = c.contentLength ∨
              CString.strncaseEq (c.stringAt text)
                  (utf8 "Content-Length:") 15 = true ∧
                n =
                  toInt32
                    (CString.atol
                      (c.stringAt
                        (c.skipBlanks (text + 15))))) ∧
            c.parseHeaders text =
              (.noRequest,
                { c with
                  linger := linger
                  contentLength := n
                  host := host })) := by
  unfold parseHeaders
  by_cases hEmpty : c.byteAt text = 0
  · simp only [if_pos hEmpty]
    split_ifs with hBody
    · exact .inl ⟨hEmpty, hBody, rfl⟩
    · rw [not_not] at hBody
      exact .inr (.inl ⟨hEmpty, hBody, rfl⟩)
  simp only [if_neg hEmpty]
  right
  right
  refine ⟨hEmpty, ?_⟩
  split_ifs with hConnection hKeep hSize hHost
  · exact ⟨true, _, _, h.host, .inl rfl, rfl⟩
  · exact ⟨_, _, _, h.host, .inl rfl, rfl⟩
  · exact ⟨_, _, _, h.host, .inr ⟨hSize, rfl⟩, rfl⟩
  · refine ⟨_, _, _, ?_, .inl rfl, rfl⟩
    rintro j hSome
    cases hSome
    exact
      (points_skipBlanks hEnds
        (CString.strncaseEq_length hHost (by decide))).2
  · exact ⟨_, _, _, h.host, .inl rfl, rfl⟩

theorem framed_parseHeaders
    {c : HttpParser}
    {text : Nat}
    (h : c.Framed)
    (hEnds : CString.Ends c.readBuffer text c.readIdx) :
    (c.parseHeaders text).2.Framed := by
  rcases parseHeaders_cases h hEnds with
    ⟨_, _, hCall⟩ | ⟨_, _, hCall⟩ |
      ⟨_, linger, n, host, hHost, _, hCall⟩ <;>
    rw [hCall]
  · exact { h with }
  · exact h
  · exact { h with host := hHost }

/- `do_request` returns where there is a URL. -/
theorem doRequest_cases
    (c : HttpParser)
    (fs : FileSystem) :
    (c.url = none ∧
        c.doRequest fs = .error .nullDereference) ∨
      ∃ code realFile fileStat fileAddress,
        c.doRequest fs =
          .ok
            (code,
              { c with
                realFile := realFile
                fileStat := fileStat
                fileAddress := fileAddress }) := by
  unfold doRequest
  cases hUrl : c.url with
  | none => exact .inl ⟨rfl, rfl⟩
  | some url =>
      right
      simp only
      split
      · exact ⟨_, _, _, _, rfl⟩
      · split_ifs <;> exact ⟨_, _, _, _, rfl⟩

theorem doRequest_receive
    {c : HttpParser}
    (h : c.Framed)
    (fs : FileSystem)
    (bytes : Bytes) :
    (c.receive bytes).doRequest fs =
      (c.doRequest fs).map fun r =>
        (r.1, r.2.receive bytes) := by
  have hSame : (c.receive bytes).url = c.url := rfl
  unfold doRequest
  rw [hSame]
  cases hUrl : c.url with
  | none => rfl
  | some url =>
      have hString :=
        stringAt_receive h.readIdx_le (h.url url hUrl) bytes
      simp only [hString]
      split
      · rfl
      · split_ifs <;> rfl

end HttpParser

/- The connection of a turn receives more bytes. -/
def Turn.receive
    (bytes : Bytes) :
    Turn → Turn
| .returns code c => .returns code (c.receive bytes)
| .again status c => .again status (c.receive bytes)

namespace HttpParser

theorem Framed.startNextLine
    {c : HttpParser}
    (h : c.Framed) :
    c.startNextLine.Framed :=
  { h with startLine_le := Nat.le_refl _ }

/- A line is handled alike whatever follows it. -/
theorem handleLine_receive
    {c : HttpParser}
    (h : c.Framed)
    (hEnds :
      CString.Ends c.readBuffer c.startLine c.checkedIdx)
    (fs : FileSystem)
    (status : LineStatus)
    (bytes : Bytes) :
    (c.receive bytes).handleLine fs status =
      (c.handleLine fs status).map (Turn.receive bytes) := by
  have hFramed := h.startNextLine
  have hLine :=
    parseRequestLine_receive hFramed
      (show CString.Ends c.startNextLine.readBuffer c.getLine
        c.startNextLine.checkedIdx from hEnds) bytes
  have hHeader :=
    parseHeaders_receive hFramed.readIdx_le
      (show CString.Ends c.startNextLine.readBuffer c.getLine
          c.startNextLine.readIdx from
        hEnds.mono h.checkedIdx_le) bytes
  have hText : (c.receive bytes).getLine = c.getLine := rfl
  have hNext :
      (c.receive bytes).startNextLine =
        c.startNextLine.receive bytes :=
    rfl
  have hState :
      (c.startNextLine.receive bytes).checkState =
        c.startNextLine.checkState :=
    rfl
  unfold handleLine
  simp only [hText, hNext, hState]
  cases c.startNextLine.checkState with
  | requestLine =>
      simp only [hLine]
      cases c.startNextLine.parseRequestLine c.getLine with
      | error f => rfl
      | ok r =>
          simp only [Except.map, bind, Except.bind]
          split_ifs <;> rfl
  | header =>
      have hAfter :=
        framed_parseHeaders hFramed
          (show CString.Ends c.startNextLine.readBuffer
              c.getLine c.startNextLine.readIdx from
            hEnds.mono h.checkedIdx_le)
      have hRequest := doRequest_receive hAfter fs bytes
      simp only [hHeader]
      split_ifs
      · rfl
      · rw [hRequest]
        cases HttpParser.doRequest fs
            (c.startNextLine.parseHeaders c.getLine).2 with
        | error f => rfl
        | ok r => rfl
      · rfl
  | content => rfl

end HttpParser

end V2

end WebServer

------------------------------------------------------------
-- Outcomes Of A Turn
------------------------------------------------------------

namespace WebServer

namespace V2

namespace HttpParser

/- A complete line lies before `m_checked_idx`. -/
structure LineReady
    (c : HttpParser) : Prop where
  framed : c.Framed
  ends : CString.Ends c.readBuffer c.startLine c.checkedIdx

theorem byteAt_lineEnded
    {c : HttpParser}
    {k : Nat}
    (i : Nat) :
    (c.lineEnded k).byteAt i = c.byteAt i ∨
      (i = k ∨ i = k + 1) ∧ (c.lineEnded k).byteAt i = 0 := by
  unfold byteAt lineEnded cutAt
  simp only [List.getD_eq_getElem?_getD, List.getElem?_set,
    List.length_set]
  split_ifs with hSecond hIn hFirst hIn
  · exact .inr ⟨.inr hSecond.symm, rfl⟩
  · exact .inr ⟨.inr hSecond.symm, rfl⟩
  · exact .inr ⟨.inl hFirst.symm, rfl⟩
  · exact .inr ⟨.inl hFirst.symm, rfl⟩
  · exact .inl rfl

/- The string of a complete line ends before the next one. -/
theorem Framed.lineEnded
    {c : HttpParser}
    {k : Nat}
    (h : c.Framed)
    (hLine : c.EndsLine k) :
    (c.lineEnded k).LineReady := by
  have hFrom := hLine.from_le
  have hMore := hLine.more
  have hStart := h.startLine_le
  have hIn := h.readIdx_le
  have hNul : ∀ i, i = k ∨ i = k + 1 →
      (c.lineEnded k).readBuffer[i]? = some 0 := by
    intro i hSame
    unfold HttpParser.lineEnded cutAt
    simp only [List.getElem?_set, List.length_set]
    rcases hSame with rfl | rfl
    · rw [if_neg (by omega), if_pos rfl, if_pos (by omega)]
    · rw [if_pos rfl, if_pos (by omega)]
  have hText : c.startLine ≤ k := by omega
  refine ⟨?_, ⟨k, hText, ?_, hNul k (.inl rfl)⟩⟩
  · exact
      { startLine_le := show c.startLine ≤ k + 2 by omega
        checkedIdx_le := show k + 2 ≤ c.readIdx by omega
        readIdx_le := by
          show c.readIdx ≤ (c.lineEnded k).readBuffer.length
          unfold HttpParser.lineEnded cutAt
          simp only [List.length_set]
          exact hIn
        before := by
          intro _
          show (c.lineEnded k).byteAt (k + 1) ≠ 13
          unfold byteAt
          rw [List.getD_eq_getElem?_getD,
            hNul (k + 1) (.inr rfl)]
          decide
        url := (h.url.cutAt k).cutAt (k + 1)
        version := (h.version.cutAt k).cutAt (k + 1)
        host := (h.host.cutAt k).cutAt (k + 1) }
  · show k < k + 2
    omega

theorem LineReady.parseLine
    {c c' : HttpParser}
    (h : c.Framed)
    (hLine : c.parseLine = (.lineOk, c')) :
    c'.LineReady ∧ c.checkedIdx < c'.checkedIdx ∧
      c'.readIdx = c.readIdx ∧
        c'.checkState = c.checkState := by
  rcases parseLine_ok h hLine with ⟨k, hEnds, rfl⟩
  refine ⟨h.lineEnded hEnds, ?_, rfl, rfl⟩
  have hFrom := hEnds.from_le
  show c.checkedIdx < k + 2
  omega

/- The turn of a request line. -/
theorem handleLine_requestLine
    {c : HttpParser}
    (h : c.LineReady)
    (hState : c.checkState = .requestLine)
    (fs : FileSystem)
    (status : LineStatus) :
    (CString.strpbrk c.readBuffer c.startLine blanks = none ∧
        c.handleLine fs status = .error .nullDereference) ∨
      ∃ c',
        c.startNextLine.Marks c' ∧ c'.Framed ∧
          (c.handleLine fs status =
              .ok (.returns .badRequest c') ∨
            c'.checkState = .header ∧ c'.url ≠ none ∧
              c'.contentLength = c.contentLength ∧
                c.handleLine fs status =
                  .ok (.again status c')) := by
  have hState' : c.startNextLine.checkState = .requestLine :=
    hState
  unfold handleLine
  simp only [hState']
  rcases
    parseRequestLine_cases h.framed.startNextLine
      (show CString.Ends c.startNextLine.readBuffer c.getLine
        c.startNextLine.checkedIdx from h.ends) with
    ⟨hNone, hCall⟩ | ⟨r, hCall, hParsed⟩
  · left
    rw [hCall]
    exact ⟨hNone, rfl⟩
  · right
    rw [hCall]
    refine ⟨r.2, hParsed.marks, hParsed.framed, ?_⟩
    simp only [bind, Except.bind]
    rcases hParsed.ends with hBad | ⟨hNo, hHeader, hUrl⟩
    · left
      rw [if_pos hBad]
    · right
      have hNot : r.1 ≠ .badRequest := by
        rw [hNo]
        exact HttpCode.noConfusion
      rw [if_neg hNot]
      exact ⟨hHeader, hUrl, hParsed.contentLength, rfl⟩

/- The turn of `CHECK_STATE_HEADER`. -/
theorem handleLine_of_header
    {c : HttpParser}
    (hState : c.checkState = .header)
    (fs : FileSystem)
    (status : LineStatus) :
    c.handleLine fs status =
      let r := c.startNextLine.parseHeaders c.getLine
      if r.1 = .badRequest then
        .ok (.returns .badRequest r.2)
      else if r.1 = .getRequest then do
        let (code, c) ← r.2.doRequest fs
        .ok (.returns code c)
      else
        .ok (.again status r.2) := by
  have hState' : c.startNextLine.checkState = .header :=
    hState
  unfold handleLine
  simp only [hState']

/- The turn of a header line or of the empty line. -/
theorem handleLine_header
    {c : HttpParser}
    (h : c.LineReady)
    (hState : c.checkState = .header)
    (fs : FileSystem)
    (status : LineStatus) :
    (c.byteAt c.startLine = 0 ∧ c.contentLength ≠ 0 ∧
        c.handleLine fs status =
          .ok
            (.again status
              { c.startNextLine with
                checkState := .content })) ∨
      (c.byteAt c.startLine = 0 ∧ c.contentLength = 0 ∧
        (c.url = none ∧
            c.handleLine fs status =
              .error .nullDereference ∨
          ∃ code realFile fileStat fileAddress,
            c.handleLine fs status =
              .ok
                (.returns code
                  { c.startNextLine with
                    realFile := realFile
                    fileStat := fileStat
                    fileAddress := fileAddress }))) ∨
      (c.byteAt c.startLine ≠ 0 ∧
        ∃ linger n host,
          c.Points host ∧
            (n = c.contentLength ∨
              CString.strncaseEq (c.stringAt c.startLine)
                  (utf8 "Content-Length:") 15 = true ∧
                n =
                  toInt32
                    (CString.atol
                      (c.stringAt
                        (c.skipBlanks
                          (c.startLine + 15))))) ∧
            c.handleLine fs status =
              .ok
                (.again status
                  { c.startNextLine with
                    linger := linger
                    contentLength := n
                    host := host })) := by
  have hEnds :
      CString.Ends c.startNextLine.readBuffer c.getLine
        c.startNextLine.readIdx :=
    h.ends.mono h.framed.checkedIdx_le
  rw [handleLine_of_header hState]
  rcases parseHeaders_cases h.framed.startNextLine hEnds with
    ⟨hEmpty, hBody, hCall⟩ | ⟨hEmpty, hBody, hCall⟩ |
      ⟨hEmpty, linger, n, host, hHost, hN, hCall⟩
  · left
    rw [hCall]
    exact ⟨hEmpty, hBody, rfl⟩
  · right
    left
    refine ⟨hEmpty, hBody, ?_⟩
    rw [hCall]
    rcases c.startNextLine.doRequest_cases fs with
      ⟨hUrl, hRequest⟩ |
        ⟨code, realFile, fileStat, fileAddress, hRequest⟩
    · left
      refine ⟨hUrl, ?_⟩
      simp only [hRequest]
      rfl
    · right
      refine ⟨code, realFile, fileStat, fileAddress, ?_⟩
      simp only [hRequest]
      rfl
  · right
    right
    refine ⟨hEmpty, linger, n, host, hHost, hN, ?_⟩
    rw [hCall]
    rfl

end HttpParser

end V2

end WebServer
