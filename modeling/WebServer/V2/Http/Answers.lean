import WebServer.V2.Http.Incomplete
import WebServer.V2.Http.ReadBuffer

/-
  The answer of version 2.0 to a request, read off its text.

  The request line names a path, a header line may ask to
  keep the connection, and the file system says what is
  there. What `process_read` answers, and what it leaves in
  `m_linger`, `m_file_stat` and `m_file_address`, is the
  answer to the text.

  Key definitions include:
    * `AsksToStay`
    * `answer`
    * `HttpCode.Serves`
    * `HttpParser.Lingering`

  Key theorems include:
    * `AsksToStay.line`
    * `HttpParser.Lingering.turn`
    * `readsTo_serves`
-/

------------------------------------------------------------
-- Answers
------------------------------------------------------------

namespace WebServer

namespace V2

/- `Connection: keep-alive`. -/
def keepsAlive
    (line : Bytes) : Bool :=
  CString.strncaseEq line (utf8 "Connection:") 11 &&
    CString.strcaseEq
      ((line.drop 11).dropWhile (blanks.contains ·))
      (utf8 "keep-alive")

/-
  A line that begins in front of `n`, and is not the first
  one, asks to keep the connection.
-/
def AsksToStay
    (s : Bytes)
    (n : Nat) : Prop :=
  ∃ i < n, i + 2 < n ∧ [13, 10] <+: s.drop i ∧
    ∃ line ∈ frontLine (s.drop (i + 2)),
      keepsAlive line = true

/-
  The header ends with the last byte, and its lines are well
  formed.
-/
structure Complete
    (s : Bytes) : Prop where
  ends : ∃ j < s.length, HeaderEndsAt s j
  last : ∀ j < s.length, HeaderEndsAt s j → j + 4 = s.length
  wellFormed : ∀ i < s.length, ¬MalformedAt s i

instance
    (s : Bytes)
    (n : Nat) :
    Decidable (AsksToStay s n) := by
  unfold AsksToStay
  infer_instance

instance
    (s : Bytes) :
    Decidable (Complete s) :=
  decidable_of_iff
    ((∃ j < s.length, HeaderEndsAt s j) ∧
      (∀ j < s.length, HeaderEndsAt s j → j + 4 = s.length) ∧
        ∀ i < s.length, ¬MalformedAt s i)
    ⟨fun ⟨hEnds, hLast, hFormed⟩ => ⟨hEnds, hLast, hFormed⟩,
      fun h => ⟨h.ends, h.last, h.wellFormed⟩⟩

/- The file behind a path, as it is mapped. -/
def FileSystem.content
    (fs : FileSystem)
    (path : Bytes) : Option Bytes := do
  let st ← fs.stat (realPath path)
  if fs.openRdonly (realPath path) then
    fs.mmap (realPath path) st.stSize
  else
    none

/-
  What is sent for a request: the header, with the form of
  an error behind it, and a file.
-/
structure Answer where
  head : Bytes
  file : Bytes
  keepAlive : Bool
deriving DecidableEq, Repr

def Answer.bytes
    (a : Answer) : Bytes :=
  a.head ++ a.file

/- The answer to a request for `path`. -/
def pathAnswer
    (fs : FileSystem)
    (keepAlive : Bool)
    (path : Bytes) : Option Answer :=
  match fileCode fs path with
  | .noRequest => none
  | .fileRequest =>
      (fs.content path).map fun file =>
        ⟨HttpCode.fileRequest.response keepAlive file.length,
          file, keepAlive⟩
  | code => some ⟨code.response keepAlive 0, [], keepAlive⟩

/-
  The answer to a complete request. There is none for a path
  that is not found, or whose file cannot be mapped.
-/
def answer
    (fs : FileSystem)
    (s : Bytes) : Option Answer :=
  if Complete s then
    match asked s with
    | none => none
    | some none =>
        some ⟨HttpCode.badRequest.response false 0, [], false⟩
    | some (some path) =>
        pathAnswer fs (decide (AsksToStay s s.length)) path
  else
    none

/- `mmap` maps as many bytes as it is asked for. -/
def FileSystem.Maps
    (fs : FileSystem) : Prop :=
  ∀ path n bytes,
    fs.mmap path n = some bytes → bytes.length = n

/-
  What a call that answers a request leaves behind is what
  the answer is made of.
-/
structure HttpCode.Serves
    (code : HttpCode)
    (a : Answer)
    (c : HttpParser) : Prop where
  answers : code ≠ .noRequest
  stays : code ≠ .closedConnection
  head : code.response a.keepAlive a.file.length = a.head
  linger : c.linger = a.keepAlive
  file :
    code = .fileRequest →
      c.fileAddress = .mapped a.file ∧
        ∃ st, c.fileStat = some st ∧ st.stSize = a.file.length
  noFile : code ≠ .fileRequest → a.file = []

end V2

end WebServer

------------------------------------------------------------
-- Who Sets `m_linger`
------------------------------------------------------------

namespace WebServer

namespace V2

namespace HttpParser

theorem parsePath_linger
    (c : HttpParser)
    (url : Nat) :
    (c.parsePath url).2.linger = c.linger := by
  unfold parsePath
  simp only
  split
  · split_ifs <;> rfl
  · split_ifs <;> rfl

theorem parseVersion_linger
    (c : HttpParser)
    (url : Nat) :
    (c.parseVersion url).2.linger = c.linger := by
  unfold parseVersion
  split
  · rfl
  · dsimp only
    split_ifs
    · exact parsePath_linger _ url
    · rfl

theorem parseRequestLine_linger
    {c c' : HttpParser}
    {text : Nat}
    {code : HttpCode}
    (hCall : c.parseRequestLine text = .ok (code, c')) :
    c'.linger = c.linger := by
  unfold parseRequestLine at hCall
  split at hCall
  · cases hCall
  · dsimp only at hCall
    split_ifs at hCall
    · have hSame :=
        congrArg (fun r => r.2.linger) (Except.ok.inj hCall)
      exact hSame.symm.trans (parseVersion_linger _ _)
    · cases hCall
      rfl

/- What `parse_headers` takes for `keep-alive`. -/
theorem keepsAlive_eq
    {c : HttpParser}
    {text n : Nat}
    (hEnds : CString.Ends c.readBuffer text n)
    (hName :
      CString.strncaseEq (c.stringAt text)
        (utf8 "Connection:") 11 = true) :
    CString.strcaseEq
        (c.stringAt (c.skipBlanks (text + 11)))
        (utf8 "keep-alive") =
      keepsAlive (c.stringAt text) := by
  have hLong := CString.strncaseEq_length hName (by decide)
  have hRest : CString.Ends c.readBuffer (text + 11) n :=
    hEnds.of_le (Nat.add_le_add_left hLong _)
  have hDrop :
      c.stringAt (text + 11) = (c.stringAt text).drop 11 :=
    CString.string_add hEnds hLong
  have hValue :
      c.stringAt (c.skipBlanks (text + 11)) =
        (c.stringAt (text + 11)).dropWhile
          (blanks.contains ·) :=
    CString.string_strspn hRest blanks
  unfold keepsAlive
  rw [hName, hValue, hDrop, Bool.true_and]

/- A header line that asks to stay sets it. -/
theorem parseHeaders_linger
    {c : HttpParser}
    {text n : Nat}
    (hEnds : CString.Ends c.readBuffer text n)
    (hMore : c.byteAt text ≠ 0) :
    (c.parseHeaders text).2.linger =
      (c.linger || keepsAlive (c.stringAt text)) := by
  unfold parseHeaders
  rw [if_neg hMore]
  by_cases hName :
      CString.strncaseEq (c.stringAt text)
        (utf8 "Connection:") 11 = true
  · have hValue := keepsAlive_eq hEnds hName
    simp only [if_pos hName, hValue]
    by_cases hKeeps : keepsAlive (c.stringAt text) = true
    · rw [if_pos hKeeps, hKeeps, Bool.or_true]
    · rw [if_neg hKeeps, (Bool.not_eq_true _).mp hKeeps,
        Bool.or_false]
  · have hNot : keepsAlive (c.stringAt text) = false := by
      unfold keepsAlive
      rw [(Bool.not_eq_true _).mp hName, Bool.false_and]
    rw [if_neg hName, hNot, Bool.or_false]
    split_ifs <;> rfl

/- A request line leaves it, and the next line begins. -/
theorem handleLine_requestLine_linger
    {fs : FileSystem}
    {c : HttpParser}
    {turn : Turn}
    (hState : c.checkState = .requestLine)
    (hTurn : c.handleLine fs .lineOk = .ok turn) :
    turn.conn.linger = c.linger := by
  have hNext : c.startNextLine.checkState = .requestLine :=
    hState
  unfold handleLine at hTurn
  simp only [hNext] at hTurn
  cases hCall : c.startNextLine.parseRequestLine c.getLine with
  | error f =>
      rw [hCall] at hTurn
      cases hTurn
  | ok r =>
      rcases r with ⟨ret, c'⟩
      have hSame := parseRequestLine_linger hCall
      rw [hCall] at hTurn
      change
        (if ret = .badRequest then
          Except.ok (Turn.returns .badRequest c')
        else
          Except.ok (Turn.again .lineOk c')) =
          Except.ok turn at hTurn
      split_ifs at hTurn
      · cases hTurn
        exact hSame
      · cases hTurn
        exact hSame

/- A header line, with what it says. -/
theorem handleLine_header_linger
    {fs : FileSystem}
    {c c' : HttpParser}
    {status : LineStatus}
    (h : c.LineReady)
    (hState : c.checkState = .header)
    (hMore : c.byteAt c.startLine ≠ 0)
    (hTurn :
      c.handleLine fs .lineOk = .ok (.again status c')) :
    c'.linger =
      (c.linger || keepsAlive (c.stringAt c.startLine)) := by
  have hLinger :
      (c.startNextLine.parseHeaders c.getLine).2.linger =
        (c.linger || keepsAlive (c.stringAt c.startLine)) :=
    parseHeaders_linger (c := c.startNextLine) h.ends hMore
  rw [handleLine_of_header hState] at hTurn
  generalize
    c.startNextLine.parseHeaders c.getLine = r
      at hTurn hLinger
  simp only at hTurn
  split_ifs at hTurn
  · cases hTurn
  · cases hCall : r.2.doRequest fs with
    | error f =>
        rw [hCall] at hTurn
        cases hTurn
    | ok r' =>
        rw [hCall] at hTurn
        cases hTurn
  · cases hTurn
    exact hLinger

/- What `do_request` leaves for the file behind a path. -/
theorem doRequest_content
    {c : HttpParser}
    {path file : Bytes}
    (hUrl : c.PointsAt c.url path)
    {fs : FileSystem}
    (hCode : fileCode fs path = .fileRequest)
    (hFile : fs.content path = some file)
    {code : HttpCode}
    {c' : HttpParser}
    (hCall : c.doRequest fs = .ok (code, c')) :
    c'.fileAddress = .mapped file ∧
      ∃ st,
        c'.fileStat = some st ∧
          fs.mmap (realPath path) st.stSize = some file := by
  rcases hUrl with ⟨k, hUrl, hString, _⟩
  unfold FileSystem.content at hFile
  rcases Option.bind_eq_some_iff.mp hFile with
    ⟨st, hStat, hMapped⟩
  rw [Option.ite_none_right_eq_some] at hMapped
  have hStat' :
      fs.stat
          (docRoot ++
            path.take (filenameLen - docRoot.length - 1)) =
        some st :=
    hStat
  have hOpens :
      fs.openRdonly
          (docRoot ++
            path.take (filenameLen - docRoot.length - 1)) =
        true :=
    hMapped.1
  have hMmap :
      fs.mmap
          (docRoot ++
            path.take (filenameLen - docRoot.length - 1))
          st.stSize =
        some file :=
    hMapped.2
  unfold fileCode realPath at hCode
  unfold doRequest at hCall
  simp only [hUrl, hString, hStat', hOpens, hMmap,
    if_true] at hCode hCall
  split_ifs at hCode hCall
  cases hCall
  exact ⟨rfl, st, rfl, hMmap⟩

/- And to `m_linger` it leaves nothing. -/
theorem doRequest_linger
    {fs : FileSystem}
    {c c' : HttpParser}
    {code : HttpCode}
    (hCall : c.doRequest fs = .ok (code, c')) :
    c'.linger = c.linger := by
  rcases c.doRequest_cases fs with
    ⟨_, hError⟩ | ⟨_, _, _, _, hDone⟩
  · rw [hError] at hCall
    cases hCall
  · rw [hDone] at hCall
    cases hCall
    rfl

end HttpParser

end V2

end WebServer

------------------------------------------------------------
-- Lines That Ask To Stay
------------------------------------------------------------

namespace WebServer

namespace V2

variable {s : Bytes}

/- A complete first line, and what is behind it. -/
theorem frontLine_split
    {line : Bytes}
    (h : frontLine s = some line) :
    ∃ rest,
      s = line ++ 13 :: 10 :: rest ∧ 13 ∉ line := by
  unfold frontLine at h
  simp only [Option.ite_none_right_eq_some,
    Option.some.injEq] at h
  rcases h with ⟨⟨rest, hRest⟩, rfl⟩
  refine ⟨rest, ?_, ?_⟩
  · have hAll :=
      List.takeWhile_prefix
        (p := fun b : Byte => b != 13 && b != 10) (l := s)
    rcases hAll with ⟨tail, hTail⟩
    generalize
      (s.takeWhile fun b => b != 13 && b != 10) = text
        at hRest hTail
    subst hTail
    rw [List.drop_left] at hRest
    rw [← hRest]
    rfl
  · intro hMem
    have hNot := List.mem_takeWhile_imp hMem
    cases hNot

/- The first line does not count. -/
theorem not_asksToStay_first
    {k : Nat}
    (hPlain : Plain s 0 k) :
    ¬AsksToStay s (k + 2) := by
  rintro ⟨i, _, hBefore, hEnd, _⟩
  have hCr : s[i]? = some 13 := by
    rcases hEnd with ⟨rest, hRest⟩
    rw [← Nat.add_zero i, ← List.getElem?_drop, ← hRest]
    rfl
  exact (hPlain i (Nat.zero_le _) (by omega)).1 hCr

/-
  One more line: it asks to stay, or one in front of it did.
  No other line begins between its ends.
-/
theorem AsksToStay.line
    {n k : Nat}
    {line : Bytes}
    (hClean : Clean s n)
    (hSecond : n ≠ 0)
    (hFrom : n ≤ k)
    (hPlain : Plain s n k)
    (hLine : frontLine (s.drop n) = some line) :
    AsksToStay s (k + 2) ↔
      AsksToStay s n ∨ keepsAlive line = true := by
  rcases hClean.start with hZero | ⟨hTwo, hCr, hLf⟩
  · exact absurd hZero hSecond
  have hBack : n - 2 + 2 = n := by omega
  constructor
  · rintro ⟨i, _, hBefore, hEnd, other, hOther, hKeeps⟩
    have hHere : s[i]? = some 13 := by
      rcases hEnd with ⟨rest, hRest⟩
      rw [← Nat.add_zero i, ← List.getElem?_drop, ← hRest]
      rfl
    rcases Nat.lt_trichotomy (i + 2) n with
      hOld | hSame | hNew
    · left
      exact
        ⟨i, by omega, hOld, hEnd, other, hOther, hKeeps⟩
    · right
      rw [hSame, hLine] at hOther
      rcases Option.some.inj hOther with rfl
      exact hKeeps
    · exfalso
      by_cases hEdge : i + 1 = n
      · have hPlace : n - 1 = i := by omega
        rw [hPlace, hHere] at hLf
        cases hLf
      · exact (hPlain i (by omega) (by omega)).1 hHere
  · rintro (hOld | hKeeps)
    · rcases hOld with
        ⟨i, _, hBefore, hEnd, other, hOther, hKeeps⟩
      exact
        ⟨i, by omega, by omega, hEnd, other, hOther, hKeeps⟩
    · refine
        ⟨n - 2, by omega, by omega, lineEnd_prefix hCr ?_,
          line, ?_, hKeeps⟩
      · have hPlace : n - 2 + 1 = n - 1 := by omega
        rw [hPlace]
        exact hLf
      · rw [hBack]
        exact hLine

/- Only a file's size is read for an answer. -/
theorem HttpCode.response_size
    {code : HttpCode}
    (hCode : code ≠ .fileRequest)
    (linger : Bool)
    (n : Nat) :
    code.response linger n = code.response linger 0 := by
  cases code with
  | fileRequest => exact absurd rfl hCode
  | _ => rfl

/- What serves a request for a path. -/
theorem pathAnswer_serves
    {fs : FileSystem}
    {keepAlive : Bool}
    {path : Bytes}
    {a : Answer}
    {c : HttpParser}
    (hMaps : fs.Maps)
    (hAnswer : pathAnswer fs keepAlive path = some a)
    (hLinger : c.linger = keepAlive)
    (hFile :
      ∀ file,
        fileCode fs path = .fileRequest →
          fs.content path = some file →
            c.fileAddress = .mapped file ∧
              ∃ st,
                c.fileStat = some st ∧
                  fs.mmap (realPath path) st.stSize =
                    some file) :
    (fileCode fs path).Serves a c := by
  have hStays := fileCode_ne_closedConnection fs path
  unfold pathAnswer at hAnswer
  generalize fileCode fs path = code
    at hAnswer hFile hStays ⊢
  by_cases hCode : code = .fileRequest
  · subst hCode
    rcases Option.map_eq_some_iff.mp hAnswer with
      ⟨file, hContent, rfl⟩
    rcases hFile file rfl hContent with
      ⟨hAddress, st, hStat, hMmap⟩
    exact
      { answers := HttpCode.noConfusion
        stays := HttpCode.noConfusion
        head := rfl
        linger := hLinger
        file := fun _ =>
          ⟨hAddress, st, hStat, (hMaps _ _ _ hMmap).symm⟩
        noFile := fun hNot => absurd rfl hNot }
  · have hSome :
        code ≠ .noRequest ∧
          a = ⟨code.response keepAlive 0, [], keepAlive⟩ := by
      cases code with
      | noRequest => cases hAnswer
      | fileRequest => exact absurd rfl hCode
      | getRequest =>
          exact
            ⟨HttpCode.noConfusion,
              (Option.some.inj hAnswer).symm⟩
      | badRequest =>
          exact
            ⟨HttpCode.noConfusion,
              (Option.some.inj hAnswer).symm⟩
      | noResource =>
          exact
            ⟨HttpCode.noConfusion,
              (Option.some.inj hAnswer).symm⟩
      | forbiddenRequest =>
          exact
            ⟨HttpCode.noConfusion,
              (Option.some.inj hAnswer).symm⟩
      | internalError =>
          exact
            ⟨HttpCode.noConfusion,
              (Option.some.inj hAnswer).symm⟩
      | closedConnection =>
          exact
            ⟨HttpCode.noConfusion,
              (Option.some.inj hAnswer).symm⟩
    rcases hSome with ⟨hAnswers, rfl⟩
    exact
      { answers := hAnswers
        stays := hStays
        head := by
          simp only [List.length_nil]
        linger := hLinger
        file := fun hSame => absurd hSame hCode
        noFile := fun _ => rfl }

/- What is answered is not taken for incomplete. -/
theorem Traced.answers
    {fs : FileSystem}
    {code : HttpCode}
    {a : Answer}
    (h : Traced fs s code)
    (hAnswer : answer fs s = some a) :
    code ≠ .noRequest := by
  unfold answer at hAnswer
  rw [Option.ite_none_right_eq_some] at hAnswer
  rcases hAnswer with ⟨hComplete, hAnswer⟩
  cases h with
  | refused hAsked => exact HttpCode.noConfusion
  | malformed hAsked hMalformed hFirst =>
      exact
        absurd hMalformed
          (hComplete.wellFormed _ hMalformed.lt)
  | incomplete hNone =>
      rcases hComplete.ends with ⟨j, _, hEnds⟩
      exact absurd hEnds (hNone j).2
  | served hAsked hEnds hFirst =>
      intro hCode
      rw [hAsked] at hAnswer
      simp only [pathAnswer, hCode] at hAnswer
      cases hAnswer

end V2

end WebServer

------------------------------------------------------------
-- The Call On A Whole Request
------------------------------------------------------------

namespace WebServer

namespace V2

namespace HttpParser

/- The lines read so far say what `m_linger` is. -/
structure Lingering
    (s : Bytes)
    (c : HttpParser) : Prop where
  reading : c.Reading s
  linger : c.linger = true ↔ AsksToStay s c.startLine

end HttpParser

/- What a turn does for a request with an answer. -/
def Turn.Serves
    (s : Bytes)
    (a : Answer) :
    Turn → Prop
| .returns code c => code.Serves a c
| .again status c => status = .lineOk ∧ c.Lingering s

namespace HttpParser

variable {s : Bytes}
variable {c : HttpParser}
variable {k : Nat}
variable {fs : FileSystem}
variable {a : Answer}

/- The first line, as the string that is handled. -/
theorem Reading.asked_line
    (h : c.Reading s)
    (hReceived : Received s)
    (hState : c.checkState = .requestLine)
    (hLine : c.LineAt s k) :
    asked s =
      some
        (requestPath
          ((c.lineEnded k).stringAt c.startLine)) := by
  have hFirstLine := hLine.line
  rw [h.tracks.startLine_eq hState, List.drop_zero]
    at hFirstLine
  rw [h.tracks.stringAt_lineEnded hReceived.noNul hLine.ends]
  unfold asked
  rw [hFirstLine]
  rfl

/- Before the second line nothing asks to stay. -/
theorem Lingering.first
    (h : c.Lingering s)
    (hState : c.checkState = .requestLine) :
    c.linger = false := by
  rw [← Bool.not_eq_true, h.linger,
    h.reading.tracks.startLine_eq hState]
  rintro ⟨i, hBefore, _⟩
  exact Nat.not_lt_zero i hBefore

theorem Lingering.requestLine_turn
    (h : c.Lingering s)
    (hReceived : Received s)
    (hAnswer : answer fs s = some a)
    (hState : c.checkState = .requestLine)
    (hLine : c.LineAt s k) :
    ∃ turn,
      (c.lineEnded k).handleLine fs .lineOk = .ok turn ∧
        turn.Serves s a := by
  have hReady := h.reading.tracks.framed.lineEnded hLine.ends
  have hAsked := h.reading.asked_line hReceived hState hLine
  rcases
    h.reading.requestLine_turn hReceived hState hLine fs with
    ⟨turn, hCall, hReads⟩
  have hAsks := handleLine_asks hReady hState hCall
  have hLinger : turn.conn.linger = false :=
    (handleLine_requestLine_linger (c := c.lineEnded k) hState
      hCall).trans (h.first hState)
  refine ⟨turn, hCall, ?_⟩
  cases turn with
  | returns code c' =>
      rcases hAsks with ⟨rfl, hRefused⟩
      have hRefused' :
          requestPath ((c.lineEnded k).stringAt c.startLine) =
            none :=
        hRefused
      unfold answer at hAnswer
      rw [Option.ite_none_right_eq_some, hAsked, hRefused']
        at hAnswer
      rcases Option.some.inj hAnswer.2 with rfl
      exact
        { answers := HttpCode.noConfusion
          stays := HttpCode.noConfusion
          head := rfl
          linger := hLinger
          file := HttpCode.noConfusion
          noFile := fun _ => rfl }
  | again status c' =>
      refine ⟨hReads.1, hReads.2, ?_⟩
      have hStart : c'.startLine = k + 2 := by
        rcases handleLine_requestLine hReady hState fs .lineOk
          with
          ⟨_, hError⟩ |
            ⟨c'', hMarks, _, hBad | ⟨_, _, _, hAgain⟩⟩
        · rw [hCall] at hError
          cases hError
        · rw [hCall] at hBad
          cases hBad
        · rw [hCall] at hAgain
          cases hAgain
          exact hMarks.startLine
      have hPlain := hLine.plain
      rw [h.reading.tracks.startLine_eq hState] at hPlain
      have hNone : c'.linger = false := hLinger
      rw [hStart, hNone]
      exact
        iff_of_false Bool.false_ne_true
          (not_asksToStay_first hPlain)

/- The empty line is answered by `do_request`. -/
theorem handleLine_empty_eq
    {turn : Turn}
    (hState : c.checkState = .header)
    (hEmpty : c.byteAt c.startLine = 0)
    (hNoBody : c.contentLength = 0)
    (hTurn : c.handleLine fs .lineOk = .ok turn) :
    ∃ code c',
      turn = .returns code c' ∧
        c.startNextLine.doRequest fs = .ok (code, c') := by
  have hHeader :
      c.startNextLine.parseHeaders c.getLine =
        (.getRequest, c.startNextLine) := by
    have hEmpty' : c.startNextLine.byteAt c.getLine = 0 :=
      hEmpty
    have hNoBody' : ¬c.startNextLine.contentLength ≠ 0 :=
      not_not.mpr hNoBody
    unfold parseHeaders
    rw [if_pos hEmpty', if_neg hNoBody']
  rw [handleLine_of_header hState, hHeader] at hTurn
  cases hRequest : c.startNextLine.doRequest fs with
  | error f =>
      simp only [hRequest] at hTurn
      cases hTurn
  | ok r =>
      simp only [hRequest] at hTurn
      cases hTurn
      exact ⟨r.1, r.2, rfl, rfl⟩

/- Where the header ends all its lines were read. -/
theorem Lingering.empty_turn
    (h : c.Lingering s)
    (hReceived : Received s)
    (hMaps : fs.Maps)
    (hAnswer : answer fs s = some a)
    (hState : c.checkState = .header)
    (hLine : c.LineAt s k)
    (hEmpty : (c.lineEnded k).byteAt c.startLine = 0)
    {turn : Turn}
    (hCall :
      (c.lineEnded k).handleLine fs .lineOk = .ok turn) :
    turn.Serves s a := by
  have hTracks := h.reading.tracks
  have hAtStart : k = c.startLine :=
    hTracks.emptyLine hReceived.noNul hLine.ends hEmpty
  rcases h.reading.names hState with ⟨path, hAsked, hPoints⟩
  rcases h.reading.ended hState with
    ⟨j, hJ, hCrBefore, hLfBefore⟩
  rcases
    handleLine_empty_eq (c := c.lineEnded k) hState hEmpty
      hTracks.contentLength hCall with
    ⟨code, c', rfl, hRequest⟩
  unfold answer at hAnswer
  rw [Option.ite_none_right_eq_some, hAsked] at hAnswer
  rcases hAnswer with ⟨hComplete, hAnswer⟩
  have hEnds : HeaderEndsAt s j := by
    have hCr := hLine.cr
    have hLf := hLine.lf
    rw [hAtStart, hJ] at hCr hLf
    exact headerEndsAt_of_bytes hCrBefore hLfBefore hCr hLf
  have hLast : s.length = k + 2 := by
    have hBefore :=
      (List.getElem?_eq_some_iff.mp hCrBefore).1
    have hEnd := hComplete.last j hBefore hEnds
    omega
  have hStays :
      AsksToStay s s.length ↔ AsksToStay s c.startLine := by
    have hNothing : c.lineOf s k = [] := by
      unfold lineOf
      rw [hAtStart, Nat.sub_self, List.take_zero]
    rw [hLast,
      AsksToStay.line h.reading.clean (by omega) (by omega)
        hLine.plain hLine.line, hNothing]
    exact or_iff_left (by decide)
  have hLinger :
      c'.linger = decide (AsksToStay s s.length) := by
    have hSame :
        c'.linger = (c.lineEnded k).startNextLine.linger :=
      doRequest_linger hRequest
    have hSame' : c'.linger = c.linger := hSame
    rw [hSame', Bool.eq_iff_iff, h.linger, decide_eq_true_iff,
      hStays]
  have hPoints' :
      (c.lineEnded k).startNextLine.PointsAt
        (c.lineEnded k).startNextLine.url path :=
    hPoints.lineEnded hLine.ends.from_le
  have hCode : code = fileCode fs path := by
    rcases doRequest_code hPoints' fs with ⟨_, hSame, _⟩
    rw [hRequest] at hSame
    cases hSame
    rfl
  show code.Serves a c'
  rw [hCode]
  apply pathAnswer_serves hMaps hAnswer hLinger
  intro file hFile hContent
  exact doRequest_content hPoints' hFile hContent hRequest

theorem Lingering.header_turn
    (h : c.Lingering s)
    (hReceived : Received s)
    (hMaps : fs.Maps)
    (hAnswer : answer fs s = some a)
    (hState : c.checkState = .header)
    (hLine : c.LineAt s k) :
    ∃ turn,
      (c.lineEnded k).handleLine fs .lineOk = .ok turn ∧
        turn.Serves s a := by
  have hTracks := h.reading.tracks
  have hReady := hTracks.framed.lineEnded hLine.ends
  rcases h.reading.header_turn hReceived hState hLine fs with
    ⟨turn, hCall, hReads⟩
  refine ⟨turn, hCall, ?_⟩
  by_cases hEmpty : (c.lineEnded k).byteAt c.startLine = 0
  · exact
      h.empty_turn hReceived hMaps hAnswer hState hLine hEmpty
        hCall
  rcases handleLine_header hReady hState fs .lineOk with
    ⟨hNot, _⟩ | ⟨hNot, _⟩ | ⟨_, linger, n, host, _, _, hMore⟩
  · exact absurd hNot hEmpty
  · exact absurd hNot hEmpty
  have hAgain := hMore
  rw [hCall] at hAgain
  rcases Except.ok.inj hAgain with rfl
  have hLinger :=
    handleLine_header_linger hReady hState hEmpty hMore
  have hString :
      (c.lineEnded k).stringAt (c.lineEnded k).startLine =
        c.lineOf s k :=
    hTracks.stringAt_lineEnded hReceived.noNul hLine.ends
  have hStart := hTracks.framed.startLine_le
  have hFrom := hLine.ends.from_le
  have hSecond : c.startLine ≠ 0 := by
    rcases h.reading.ended hState with ⟨j, hJ, _⟩
    omega
  refine ⟨rfl, hReads.2, ?_⟩
  show linger = true ↔ AsksToStay s (k + 2)
  have hLinger' :
      linger = (c.linger || keepsAlive (c.lineOf s k)) := by
    rw [← hString]
    exact hLinger
  rw [hLinger', Bool.or_eq_true, h.linger,
    AsksToStay.line h.reading.clean hSecond (by omega)
      hLine.plain hLine.line]

theorem Lingering.turn
    {c' : HttpParser}
    (h : c.Lingering s)
    (hReceived : Received s)
    (hMaps : fs.Maps)
    (hAnswer : answer fs s = some a)
    (hLine : c.parseLine = (.lineOk, c')) :
    ∃ turn,
      c'.handleLine fs .lineOk = .ok turn ∧
        turn.Serves s a := by
  rcases h.reading.lineAt hLine with ⟨k, hAt, rfl⟩
  rcases h.reading.tracks.place with
    ⟨hState, _⟩ | ⟨hState, _⟩
  · exact h.requestLine_turn hReceived hAnswer hState hAt
  · exact h.header_turn hReceived hMaps hAnswer hState hAt

/- The call that ends answers, by induction on its turns. -/
theorem Lingering.readsTo
    {o : ReadOutcome}
    (hReads : ReadsTo fs c o)
    (h : c.Lingering s)
    (hReceived : Received s)
    (hMaps : fs.Maps)
    (hAnswer : answer fs s = some a) :
    ∃ code c', o = .returned code c' ∧ code.Serves a c' := by
  induction hReads with
  | waits hState hLine hStatus =>
      have hTraced := h.reading.waits hLine hStatus fs
      exact absurd rfl (hTraced.answers hAnswer)
  | fault hState hLine hTurn =>
      rcases h.turn hReceived hMaps hAnswer hLine with
        ⟨turn, hCall, _⟩
      rw [hTurn] at hCall
      cases hCall
  | returned hState hLine hTurn =>
      rcases h.turn hReceived hMaps hAnswer hLine with
        ⟨turn, hCall, hServes⟩
      rw [hTurn] at hCall
      cases hCall
      exact ⟨_, _, rfl, hServes⟩
  | again hState hLine hTurn hRest ih =>
      rcases h.turn hReceived hMaps hAnswer hLine with
        ⟨turn, hCall, hServes⟩
      rw [hTurn] at hCall
      cases hCall
      exact ih hServes.2
  | content hState =>
      exact absurd hState h.reading.tracks.not_content

end HttpParser

/-
  A request with an answer, received as a whole: what the
  call leaves is what the answer is made of.
-/
theorem readsTo_serves
    {fs : FileSystem}
    {s : Bytes}
    {a : Answer}
    {o : ReadOutcome}
    (hMaps : fs.Maps)
    (hReceived : Received s)
    (hAnswer : answer fs s = some a)
    (conn : HttpParser)
    (hReads :
      HttpParser.ReadsTo fs (conn.init.receive s) o) :
    ∃ code c', o = .returned code c' ∧ code.Serves a c' := by
  refine
    HttpParser.Lingering.readsTo hReads
      ⟨HttpParser.reading_init s conn, ?_⟩ hReceived hMaps
      hAnswer
  refine iff_of_false Bool.false_ne_true ?_
  rintro ⟨i, hBefore, _⟩
  exact Nat.not_lt_zero i hBefore

end V2

end WebServer
