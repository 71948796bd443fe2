import WebServer.V2.Http.Lines

/-
  Requests that arrive in chunks in version 2.0.

  `process_read` runs after each chunk and keeps its place
  in `m_checked_idx`, `m_start_line` and `m_check_state`.
  This file shows that it does not matter where the bytes of
  a request are cut.

  Two facts carry the proof. What a call does with complete
  lines depends on nothing behind them, so it is the same
  with more bytes received. And a call that runs out of
  lines leaves both machines where a call on all the bytes
  passes.

  Key definitions include:
    * `HttpParser.feed`
    * `HttpParser.ReadsTo`
    * `HttpParser.Tracks`
    * `HttpParser.SameRequest`

  Key theorems include:
    * `HttpParser.ReadsTo.receive`
    * `HttpParser.ReadsTo.resume`
    * `HttpParser.Tracks.readsTo`
    * `chunks_read_as_whole`
-/

------------------------------------------------------------
-- Requests In Chunks
------------------------------------------------------------

namespace WebServer

namespace V2

/-
  The value that a header line gives to `m_content_length`;
  0 for a line of another name.
-/
def declaredLength
    (line : Bytes) : Int :=
  if CString.strncaseEq line (utf8 "Content-Length:") 15 then
    toInt32
      (CString.atol
        ((line.drop 15).dropWhile (blanks.contains ·)))
  else
    0

/-
  The requests the parser is asked to take in pieces. A
  complete first line has a blank, no line but the last is
  empty, and no body is declared.
-/
structure Cuttable
    (s : Bytes) : Prop where
  noNul : 0 ∉ s
  short : s.length < readBufferSize
  firstLine :
    ∀ line rest, s = line ++ 13 :: 10 :: rest →
      13 ∉ line → ∃ b ∈ line, b ∈ blanks
  emptyLast :
    ∀ before rest, s = before ++ 13 :: 10 :: 13 :: 10 :: rest →
      rest = []
  noBody :
    ∀ before line rest,
      s = before ++ 13 :: 10 :: (line ++ 13 :: 10 :: rest) →
        13 ∉ line → declaredLength line = 0

/- A property of every way to split `s` around `mid`. -/
theorem forall_split_iff
    {s mid : Bytes}
    {P : Bytes → Bytes → Prop} :
    (∀ before rest, s = before ++ (mid ++ rest) →
        P before rest) ↔
      ∀ n ≤ s.length, mid <+: s.drop n →
        P (s.take n) (s.drop (n + mid.length)) := by
  constructor
  · intro h n _ hMid
    rcases hMid with ⟨rest, hRest⟩
    have hTail : s.drop (n + mid.length) = rest := by
      rw [← List.drop_drop, ← hRest, List.drop_left]
    rw [hTail]
    apply h
    rw [hRest, List.take_append_drop]
  · intro h before rest hSplit
    have hAt := h before.length
    rw [hSplit, List.drop_left, List.take_left,
      ← List.drop_drop, List.drop_left, List.drop_left]
      at hAt
    refine hAt ?_ ⟨rest, rfl⟩
    rw [List.length_append]
    omega

instance
    (s mid : Bytes)
    (P : Bytes → Bytes → Prop)
    [∀ before rest, Decidable (P before rest)] :
    Decidable
      (∀ before rest, s = before ++ (mid ++ rest) →
        P before rest) :=
  decidable_of_iff _ forall_split_iff.symm

instance
    (s : Bytes) :
    Decidable (Cuttable s) :=
  decidable_of_iff
    (0 ∉ s ∧ s.length < readBufferSize ∧
      (∀ line rest, s = line ++ ([13, 10] ++ rest) →
        13 ∉ line → ∃ b ∈ line, b ∈ blanks) ∧
      (∀ before rest,
        s = before ++ ([13, 10, 13, 10] ++ rest) →
          rest = []) ∧
      ∀ before tail, s = before ++ ([13, 10] ++ tail) →
        ∀ line rest, tail = line ++ ([13, 10] ++ rest) →
          13 ∉ line → declaredLength line = 0)
    ⟨fun ⟨hNul, hShort, hFirst, hEmpty, hBody⟩ =>
      ⟨hNul, hShort, hFirst, hEmpty,
        fun before line rest hSplit =>
          hBody before _ hSplit line rest rfl⟩,
    fun h =>
      ⟨h.noNul, h.short, h.firstLine, h.emptyLast,
        fun before _ hSplit line rest hTail =>
          h.noBody before line rest (hTail ▸ hSplit)⟩⟩

namespace HttpParser

/- `process_read` runs after each chunk, until it answers. -/
def feed
    (fs : FileSystem) :
    HttpParser → List Bytes →
      Except ParseFault (HttpCode × HttpParser)
| c, [] => .ok (.noRequest, c)
| c, chunk :: chunks =>
    match (c.receive chunk).processRead fs with
    | .error f => .error f
    | .ok (.noRequest, c) => feed fs c chunks
    | .ok (code, c) => .ok (code, c)

/- Two pointers that are null or point at equal strings. -/
def SameString
    (c c' : HttpParser)
    (p p' : Option Nat) : Prop :=
  p = p' ∧ p.map c.stringAt = p'.map c'.stringAt

/- What was read of the request is the same. -/
structure SameRequest
    (c c' : HttpParser) : Prop where
  checkState : c.checkState = c'.checkState
  linger : c.linger = c'.linger
  url : c.SameString c' c.url c'.url
  version : c.SameString c' c.version c'.version
  host : c.SameString c' c.host c'.host

end HttpParser

end V2

end WebServer

------------------------------------------------------------
-- Calls As Relations
------------------------------------------------------------

namespace WebServer

namespace V2

/- How a call of `process_read` ends. -/
inductive ReadOutcome
| fault (f : ParseFault)
| returned (code : HttpCode) (c : HttpParser)
| waits (c : HttpParser)

/- What the caller gets. -/
def ReadOutcome.result :
    ReadOutcome →
      Except ParseFault (HttpCode × HttpParser)
| .fault f => .error f
| .returned code c => .ok (code, c)
| .waits c => .ok (.noRequest, c)

namespace HttpParser

/-
  A call of `process_read`, line by line. It waits where no
  complete line is left.
-/
inductive ReadsTo
    (fs : FileSystem) :
    HttpParser → ReadOutcome → Prop
| waits
    {c c' : HttpParser}
    {status : LineStatus}
    (hState : c.checkState ≠ .content)
    (hLine : c.parseLine = (status, c'))
    (hStatus : status ≠ .lineOk) :
    ReadsTo fs c (.waits c')
| fault
    {c c' : HttpParser}
    {f : ParseFault}
    (hState : c.checkState ≠ .content)
    (hLine : c.parseLine = (.lineOk, c'))
    (hTurn : c'.handleLine fs .lineOk = .error f) :
    ReadsTo fs c (.fault f)
| returned
    {c c' c'' : HttpParser}
    {code : HttpCode}
    (hState : c.checkState ≠ .content)
    (hLine : c.parseLine = (.lineOk, c'))
    (hTurn :
      c'.handleLine fs .lineOk = .ok (.returns code c'')) :
    ReadsTo fs c (.returned code c'')
| again
    {c c' c'' : HttpParser}
    {o : ReadOutcome}
    (hState : c.checkState ≠ .content)
    (hLine : c.parseLine = (.lineOk, c'))
    (hTurn :
      c'.handleLine fs .lineOk = .ok (.again .lineOk c''))
    (hRest : ReadsTo fs c'' o) :
    ReadsTo fs c o
| content
    {c : HttpParser}
    (hState : c.checkState = .content) :
    ReadsTo fs c (.fault .noReturnValue)

/-
  A turn leaves the bytes received; one that goes on leaves
  the scan, too.
-/
def Settles
    (c : HttpParser) :
    Turn → Prop
| .returns _ c' => c'.Framed ∧ c'.readIdx = c.readIdx
| .again status c' =>
    status = .lineOk ∧ c'.Framed ∧
      c'.checkedIdx = c.checkedIdx ∧
        c'.readIdx = c.readIdx

theorem LineReady.settles
    {c : HttpParser}
    {fs : FileSystem}
    {turn : Turn}
    (h : c.LineReady)
    (hState : c.checkState ≠ .content)
    (hTurn : c.handleLine fs .lineOk = .ok turn) :
    c.Settles turn := by
  have hNext := h.framed.startNextLine
  cases hCase : c.checkState with
  | content => exact absurd hCase hState
  | requestLine =>
      rcases handleLine_requestLine h hCase fs .lineOk with
        ⟨_, hCall⟩ |
          ⟨c₁, hMarks, hFramed, hCall | ⟨_, _, _, hCall⟩⟩ <;>
        rw [hCall] at hTurn <;> cases hTurn
      · exact ⟨hFramed, hMarks.readIdx⟩
      · exact
          ⟨rfl, hFramed, hMarks.checkedIdx, hMarks.readIdx⟩
  | header =>
      rcases handleLine_header h hCase fs .lineOk with
        ⟨_, _, hCall⟩ |
          ⟨_, _, ⟨_, hCall⟩ | ⟨_, _, _, _, hCall⟩⟩ |
          ⟨_, linger, n, host, hHost, _, hCall⟩ <;>
        rw [hCall] at hTurn <;> cases hTurn
      · exact ⟨rfl, { hNext with }, rfl, rfl⟩
      · exact ⟨{ hNext with }, rfl⟩
      · exact ⟨rfl, { hNext with host := hHost }, rfl, rfl⟩

theorem LineReady.again
    {c c' : HttpParser}
    {fs : FileSystem}
    {status : LineStatus}
    (h : c.LineReady)
    (hState : c.checkState ≠ .content)
    (hTurn :
      c.handleLine fs .lineOk = .ok (.again status c')) :
    status = .lineOk ∧ c'.Framed ∧
      c'.checkedIdx = c.checkedIdx ∧
        c'.readIdx = c.readIdx :=
  h.settles hState hTurn

/- Every call ends. -/
theorem exists_readsTo
    (fs : FileSystem)
    {c : HttpParser}
    (h : c.Framed) :
    ∃ o, ReadsTo fs c o := by
  induction hLeft : c.readIdx - c.checkedIdx
      using Nat.strongRecOn generalizing c with
  | ind left ih =>
      by_cases hState : c.checkState = .content
      · exact ⟨_, .content hState⟩
      rcases hLine : c.parseLine with ⟨status, c'⟩
      by_cases hStatus : status = .lineOk
      · subst hStatus
        rcases LineReady.parseLine h hLine with
          ⟨hReady, hMore, hRead, hSame⟩
        have hState' : c'.checkState ≠ .content := by
          rw [hSame]
          exact hState
        cases hTurn : c'.handleLine fs .lineOk with
        | error f => exact ⟨_, .fault hState hLine hTurn⟩
        | ok turn =>
            cases turn with
            | returns code c'' =>
                exact ⟨_, .returned hState hLine hTurn⟩
            | again status c'' =>
                rcases hReady.again hState' hTurn with
                  ⟨rfl, hFramed, hChecked, hRead'⟩
                have hLe := hReady.framed.checkedIdx_le
                rcases
                  ih (c''.readIdx - c''.checkedIdx)
                    (by omega) hFramed rfl with
                  ⟨o, hRest⟩
                exact ⟨o, .again hState hLine hTurn hRest⟩
      · exact ⟨_, .waits hState hLine hStatus⟩

/- The loop computes the relation, given enough turns. -/
theorem ReadsTo.loop
    {fs : FileSystem}
    {c : HttpParser}
    {o : ReadOutcome}
    (hReads : ReadsTo fs c o)
    (h : c.Framed)
    {turns : Nat}
    (hTurns : c.readIdx - c.checkedIdx < turns) :
    processReadLoop fs turns .lineOk c = o.result := by
  induction hReads generalizing turns with
  | waits hState hLine hStatus =>
      cases turns with
      | zero => omega
      | succ turns =>
          unfold processReadLoop
          rw [if_neg (fun hBoth => hState hBoth.1), hLine]
          exact if_neg hStatus
  | fault hState hLine hTurn =>
      cases turns with
      | zero => omega
      | succ turns =>
          unfold processReadLoop
          rw [if_neg (fun hBoth => hState hBoth.1), hLine]
          simp only [if_true, hTurn]
          rfl
  | returned hState hLine hTurn =>
      cases turns with
      | zero => omega
      | succ turns =>
          unfold processReadLoop
          rw [if_neg (fun hBoth => hState hBoth.1), hLine]
          simp only [if_true, hTurn]
          rfl
  | again hState hLine hTurn hRest ih =>
      cases turns with
      | zero => omega
      | succ turns =>
          rcases LineReady.parseLine h hLine with
            ⟨hReady, hMore, hRead, hSame⟩
          have hLe := hReady.framed.checkedIdx_le
          rcases hReady.again (hSame ▸ hState) hTurn with
            ⟨_, hFramed, hChecked, hRead'⟩
          unfold processReadLoop
          rw [if_neg (fun hBoth => hState hBoth.1), hLine]
          simp only [if_true, hTurn]
          exact ih hFramed (by omega)
  | content hState =>
      rename_i c
      cases turns with
      | zero => omega
      | succ turns =>
          have hTurn :
              c.handleLine fs .lineOk =
                .error .noReturnValue := by
            have hState' :
                c.startNextLine.checkState = .content :=
              hState
            unfold handleLine
            simp only [hState']
            rfl
          unfold processReadLoop
          rw [if_pos ⟨hState, rfl⟩]
          simp only [if_true, hTurn]
          rfl

theorem ReadsTo.processRead
    {fs : FileSystem}
    {c : HttpParser}
    {o : ReadOutcome}
    (hReads : ReadsTo fs c o)
    (h : c.Framed) :
    c.processRead fs = o.result :=
  hReads.loop h (Nat.lt_succ_self _)

end HttpParser

end V2

end WebServer

------------------------------------------------------------
-- Calls With More Bytes
------------------------------------------------------------

namespace WebServer

namespace V2

namespace ReadOutcome

/- The call came to an end other than waiting. -/
def Ended :
    ReadOutcome → Prop
| .waits _ => False
| _ => True

def receive
    (bytes : Bytes) :
    ReadOutcome → ReadOutcome
| .fault f => .fault f
| .returned code c => .returned code (c.receive bytes)
| .waits c => .waits (c.receive bytes)

end ReadOutcome

namespace HttpParser

/- What a scan without a complete line leaves alone. -/
theorem parseLine_not_ok
    {c c' : HttpParser}
    {status : LineStatus}
    (h : c.Framed)
    (hLine : c.parseLine = (status, c'))
    (hStatus : status ≠ .lineOk) :
    ∃ k,
      c.checkedIdx ≤ k ∧ k ≤ c.readIdx ∧
        c.PlainFrom c.checkedIdx k ∧ c.StopsAt k ∧
          c' = c.scanned k := by
  rcases parseLine_cases h.checkedIdx_le h.before with
    ⟨k, hFrom, hTo, hPlain,
      ⟨status', _, hStop, hCall⟩ | ⟨_, _, _, hCall⟩⟩
  · rw [hCall] at hLine
    cases hLine
    exact ⟨k, hFrom, hTo, hPlain, hStop, rfl⟩
  · rw [hCall] at hLine
    cases hLine
    exact absurd rfl hStatus

theorem Framed.scanned
    {c : HttpParser}
    {k : Nat}
    (h : c.Framed)
    (hFrom : c.checkedIdx ≤ k)
    (hTo : k ≤ c.readIdx)
    (hPlain : c.PlainFrom c.checkedIdx k) :
    (c.scanned k).Framed where
  startLine_le := Nat.le_trans h.startLine_le hFrom
  checkedIdx_le := hTo
  readIdx_le := h.readIdx_le
  before := by
    intro hInside
    have hInside' : 1 < k := hInside
    show c.byteAt (k - 1) ≠ 13
    by_cases hFirst : k = c.checkedIdx
    · rw [hFirst] at hInside' ⊢
      exact h.before hInside'
    · exact (hPlain (k - 1) (by omega) (by omega)).1
  url := h.url
  version := h.version
  host := h.host

/- A turn is the same turn with more bytes. -/
theorem turn_receive
    {c c' : HttpParser}
    (h : c.Framed)
    (hLine : c.parseLine = (.lineOk, c'))
    (fs : FileSystem)
    (bytes : Bytes) :
    (c.receive bytes).parseLine =
        (.lineOk, c'.receive bytes) ∧
      (c'.receive bytes).handleLine fs .lineOk =
        (c'.handleLine fs .lineOk).map
          (Turn.receive bytes) := by
  have hReady := (LineReady.parseLine h hLine).1
  exact
    ⟨parseLine_receive h hLine bytes,
      handleLine_receive hReady.framed hReady.ends fs .lineOk
        bytes⟩

/- The turn after one that goes on is framed, too. -/
theorem turn_framed
    {fs : FileSystem}
    {c c' d : HttpParser}
    (h : c.Framed)
    (hState : c.checkState ≠ .content)
    (hLine : c.parseLine = (.lineOk, c'))
    (hTurn : c'.handleLine fs .lineOk =
      .ok (.again .lineOk d)) :
    d.Framed := by
  rcases LineReady.parseLine h hLine with
    ⟨hReady, _, _, hState'⟩
  exact (hReady.again (hState' ▸ hState) hTurn).2.1

/- What ends a call ends it with more bytes, too. -/
theorem ReadsTo.receive
    {fs : FileSystem}
    {c : HttpParser}
    {o : ReadOutcome}
    (hReads : ReadsTo fs c o)
    (h : c.Framed)
    (hEnded : o.Ended)
    (bytes : Bytes) :
    ReadsTo fs (c.receive bytes) (o.receive bytes) := by
  induction hReads with
  | waits hState hLine hStatus => exact hEnded.elim
  | fault hState hLine hTurn =>
      rcases turn_receive h hLine fs bytes with
        ⟨hLine', hSame⟩
      rw [hTurn] at hSame
      exact .fault hState hLine' hSame
  | returned hState hLine hTurn =>
      rcases turn_receive h hLine fs bytes with
        ⟨hLine', hSame⟩
      rw [hTurn] at hSame
      exact .returned hState hLine' hSame
  | again hState hLine hTurn hRest ih =>
      rcases turn_receive h hLine fs bytes with
        ⟨hLine', hSame⟩
      have hFramed := turn_framed h hState hLine hTurn
      rw [hTurn] at hSame
      exact .again hState hLine' hSame (ih hFramed hEnded)
  | content hState => exact .content hState

/-
  A call that waits can be taken up: with more bytes, what
  follows it is what a call on all the bytes does.
-/
theorem ReadsTo.resume
    {fs : FileSystem}
    {c c' : HttpParser}
    {o : ReadOutcome}
    {bytes : Bytes}
    (hReads : ReadsTo fs c (.waits c'))
    (h : c.Framed)
    (hNext : ReadsTo fs (c'.receive bytes) o) :
    ReadsTo fs (c.receive bytes) o := by
  generalize hWaits : ReadOutcome.waits c' = o' at hReads
  induction hReads with
  | waits hState hLine hStatus =>
      cases hWaits
      have hSame := parseLine_resume h hLine hStatus bytes
      rcases parseLine_not_ok h hLine hStatus with
        ⟨k, _, _, _, _, rfl⟩
      cases hNext with
      | waits hState' hLine' hStatus' =>
          exact .waits hState (hSame ▸ hLine') hStatus'
      | fault hState' hLine' hTurn' =>
          exact .fault hState (hSame ▸ hLine') hTurn'
      | returned hState' hLine' hTurn' =>
          exact .returned hState (hSame ▸ hLine') hTurn'
      | again hState' hLine' hTurn' hRest' =>
          exact .again hState (hSame ▸ hLine') hTurn' hRest'
      | content hState' => exact absurd hState' hState
  | fault hState hLine hTurn => cases hWaits
  | returned hState hLine hTurn => cases hWaits
  | again hState hLine hTurn hRest ih =>
      rcases turn_receive h hLine fs bytes with
        ⟨hLine', hSame⟩
      have hFramed := turn_framed h hState hLine hTurn
      rw [hTurn] at hSame
      exact .again hState hLine' hSame (ih hFramed hWaits)
  | content hState => cases hWaits

/- A call that waited would wait again. -/
structure Waiting
    (c : HttpParser) : Prop where
  framed : c.Framed
  state : c.checkState ≠ .content
  line :
    ∃ status, status ≠ .lineOk ∧ c.parseLine = (status, c)

theorem waiting_of_end
    {c : HttpParser}
    (h : c.Framed)
    (hState : c.checkState ≠ .content)
    (hEnd : c.readIdx ≤ c.checkedIdx) :
    c.Waiting :=
  ⟨h, hState, .lineOpen, LineStatus.noConfusion,
    parseLine_at_end hEnd⟩

theorem Waiting.readsTo
    {c : HttpParser}
    (h : c.Waiting)
    (fs : FileSystem) :
    ReadsTo fs c (.waits c) := by
  rcases h.line with ⟨status, hStatus, hLine⟩
  exact .waits h.state hLine hStatus

theorem ReadsTo.waiting
    {fs : FileSystem}
    {c c' : HttpParser}
    (hReads : ReadsTo fs c (.waits c'))
    (h : c.Framed) :
    c'.Waiting := by
  generalize hWaits : ReadOutcome.waits c' = o at hReads
  induction hReads with
  | waits hState hLine hStatus =>
      cases hWaits
      have hSame := parseLine_resume h hLine hStatus []
      rw [receive_nil, receive_nil, hLine] at hSame
      rcases parseLine_not_ok h hLine hStatus with
        ⟨k, hFrom, hTo, hPlain, _, rfl⟩
      exact
        ⟨h.scanned hFrom hTo hPlain, hState, _, hStatus,
          hSame⟩
  | fault hState hLine hTurn => cases hWaits
  | returned hState hLine hTurn => cases hWaits
  | again hState hLine hTurn hRest ih =>
      exact ih (turn_framed h hState hLine hTurn) hWaits
  | content hState => cases hWaits

end HttpParser

end V2

end WebServer

------------------------------------------------------------
-- The Bytes Behind The State
------------------------------------------------------------

namespace WebServer

namespace V2

namespace HttpParser

/-
  The bytes received are the first of `s`, and the state is
  where the lines of `s` put it: at the first line, or after
  a line that ended with CR LF.
-/
structure Tracks
    (s : Bytes)
    (c : HttpParser) : Prop where
  framed : c.Framed
  readIdx_le : c.readIdx ≤ s.length
  bytes :
    ∀ i, c.startLine ≤ i → i < c.readIdx →
      c.byteAt i = s.getD i 0
  plain : c.PlainFrom c.startLine c.checkedIdx
  contentLength : c.contentLength = 0
  place :
    c.checkState = .requestLine ∧ c.startLine = 0 ∨
      c.checkState = .header ∧ c.url ≠ none ∧
        2 ≤ c.startLine ∧
          s.getD (c.startLine - 2) 0 = 13 ∧
            s.getD (c.startLine - 1) 0 = 10

theorem tracks_init
    (s : Bytes)
    (c : HttpParser) :
    c.init.Tracks s where
  framed := framed_init c
  readIdx_le := Nat.zero_le _
  bytes := by
    intro i _ hIn
    cases hIn
  plain := by
    intro m _ hLt
    cases hLt
  contentLength := rfl
  place := .inl ⟨rfl, rfl⟩

theorem Tracks.not_content
    {s : Bytes}
    {c : HttpParser}
    (h : c.Tracks s) :
    c.checkState ≠ .content := by
  rcases h.place with ⟨hState, _⟩ | ⟨hState, _⟩ <;>
    rw [hState] <;> exact CheckState.noConfusion

/- The next chunk is the next part of the bytes. -/
theorem Tracks.receive
    {s rest chunk : Bytes}
    {c : HttpParser}
    (h : c.Tracks s)
    (hNext : s.drop c.readIdx = chunk ++ rest) :
    (c.receive chunk).Tracks s := by
  have hIn := h.framed.readIdx_le
  have hLong : c.readIdx + chunk.length ≤ s.length := by
    have hLength := congrArg List.length hNext
    rw [List.length_drop, List.length_append] at hLength
    have hLe := h.readIdx_le
    omega
  exact
    { framed := h.framed.receive chunk
      readIdx_le := hLong
      bytes := by
        intro i hFrom hTo
        by_cases hOld : i < c.readIdx
        · rw [byteAt_receive hIn hOld]
          exact h.bytes i hFrom hOld
        · have hTo' : i < c.readIdx + chunk.length := hTo
          have hAt :
              (c.receive chunk).readBuffer[c.readIdx +
                  (i - c.readIdx)]? =
                chunk[i - c.readIdx]? :=
            CString.getElem?_store hIn (by omega)
          have hByte :
              s[c.readIdx + (i - c.readIdx)]? =
                chunk[i - c.readIdx]? := by
            rw [← List.getElem?_drop, hNext,
              List.getElem?_append_left (by omega)]
          have hSame : c.readIdx + (i - c.readIdx) = i := by
            omega
          rw [hSame] at hAt hByte
          unfold byteAt
          rw [List.getD_eq_getElem?_getD,
            List.getD_eq_getElem?_getD, hAt, hByte]
      plain :=
        h.plain.receive hIn h.framed.checkedIdx_le chunk
      contentLength := h.contentLength
      place := h.place }

theorem Tracks.scanned
    {s : Bytes}
    {c : HttpParser}
    {k : Nat}
    (h : c.Tracks s)
    (hFrom : c.checkedIdx ≤ k)
    (hTo : k ≤ c.readIdx)
    (hPlain : c.PlainFrom c.checkedIdx k) :
    (c.scanned k).Tracks s where
  framed := h.framed.scanned hFrom hTo hPlain
  readIdx_le := h.readIdx_le
  bytes := h.bytes
  plain := by
    intro m hLe hLt
    by_cases hOld : m < c.checkedIdx
    · exact h.plain m hLe hOld
    · exact hPlain m (by omega) hLt
  contentLength := h.contentLength
  place := h.place

/- The bytes of a complete line. -/
def lineOf
    (c : HttpParser)
    (s : Bytes)
    (k : Nat) : Bytes :=
  (s.drop c.startLine).take (k - c.startLine)

/- The bytes from a place on begin with the byte there. -/
theorem drop_of_byte
    {s : Bytes}
    {i : Nat}
    {b : Byte}
    (hIn : i < s.length)
    (hByte : s.getD i 0 = b) :
    s.drop i = b :: s.drop (i + 1) := by
  rw [List.getD_eq_getElem?_getD,
    List.getElem?_eq_getElem hIn] at hByte
  rw [List.drop_eq_getElem_cons hIn]
  exact congrArg (· :: s.drop (i + 1)) hByte

/- A complete line holds neither CR nor LF. -/
theorem Tracks.plain_lineOf
    {s : Bytes}
    {c : HttpParser}
    {k : Nat}
    {b : Byte}
    (h : c.Tracks s)
    (hLine : c.EndsLine k)
    (hMem : b ∈ c.lineOf s k) :
    b ≠ 13 ∧ b ≠ 10 := by
  have hMore := hLine.more
  have hStart := h.framed.startLine_le
  rcases List.mem_iff_getElem?.mp hMem with ⟨i, hAt⟩
  unfold lineOf at hAt
  have hIn : i < k - c.startLine := by
    have hLong := (List.getElem?_eq_some_iff.mp hAt).1
    rw [List.length_take] at hLong
    omega
  have hByte : c.byteAt (c.startLine + i) = b := by
    rw [h.bytes _ (Nat.le_add_right _ _) (by omega),
      List.getD_eq_getElem?_getD, ← List.getElem?_drop,
      ← List.getElem?_take_of_lt hIn, hAt]
    rfl
  rw [← hByte]
  by_cases hOld : c.startLine + i < c.checkedIdx
  · exact h.plain _ (Nat.le_add_right _ _) hOld
  · exact hLine.plain _ (by omega) (by omega)

/- Where a complete line lies in the bytes. -/
theorem Tracks.split
    {s : Bytes}
    {c : HttpParser}
    {k : Nat}
    (h : c.Tracks s)
    (hLine : c.EndsLine k) :
    s.drop c.startLine =
        c.lineOf s k ++ 13 :: 10 :: s.drop (k + 2) ∧
      13 ∉ c.lineOf s k := by
  have hFrom := hLine.from_le
  have hMore := hLine.more
  have hStart := h.framed.startLine_le
  have hRead := h.readIdx_le
  have hTail :
      s.drop k = 13 :: 10 :: s.drop (k + 2) := by
    have hFirst := h.bytes k (by omega) (by omega)
    have hSecond := h.bytes (k + 1) (by omega) hMore
    rw [drop_of_byte (by omega) (hFirst.symm.trans hLine.cr),
      drop_of_byte (by omega) (hSecond.symm.trans hLine.lf)]
  constructor
  · have hAll :=
      (List.take_append_drop (k - c.startLine)
        (s.drop c.startLine)).symm
    rw [List.drop_drop, Nat.add_sub_cancel' (by omega), hTail]
      at hAll
    exact hAll
  · intro hMem
    exact (h.plain_lineOf hLine hMem).1 rfl

/- No byte received is a NUL. -/
theorem Tracks.byteAt_ne
    {s : Bytes}
    {c : HttpParser}
    (h : c.Tracks s)
    (hNoNul : 0 ∉ s)
    {i : Nat}
    (hFrom : c.startLine ≤ i)
    (hTo : i < c.readIdx) :
    c.byteAt i ≠ 0 := by
  have hRead := h.readIdx_le
  rw [h.bytes i hFrom hTo, List.getD_eq_getElem?_getD,
    List.getElem?_eq_getElem (by omega)]
  intro hNul
  exact hNoNul (hNul ▸ List.getElem_mem _)

/- The string of a complete line is its bytes. -/
theorem Tracks.stringAt_lineEnded
    {s : Bytes}
    {c : HttpParser}
    {k : Nat}
    (h : c.Tracks s)
    (hNoNul : 0 ∉ s)
    (hLine : c.EndsLine k) :
    (c.lineEnded k).stringAt c.startLine =
      c.lineOf s k := by
  have hFrom := hLine.from_le
  have hMore := hLine.more
  have hStart := h.framed.startLine_le
  have hIn := h.framed.readIdx_le
  have hRead := h.readIdx_le
  have hLater : c.startLine + (k - c.startLine) = k := by
    omega
  have hKept : ∀ i, i < k - c.startLine →
      (c.lineEnded k).readBuffer[c.startLine + i]? =
        some (c.byteAt (c.startLine + i)) := by
    intro i hLt
    unfold lineEnded cutAt byteAt
    simp only [List.getElem?_set, List.length_set]
    rw [if_neg (by omega), if_neg (by omega),
      List.getD_eq_getElem?_getD,
      List.getElem?_eq_getElem (by omega)]
    rfl
  have hString :
      (c.lineEnded k).stringAt c.startLine =
        ((c.lineEnded k).readBuffer.drop c.startLine).take
          (k - c.startLine) := by
    apply CString.string_eq_take
    · rw [hLater]
      unfold lineEnded cutAt
      simp only [List.getElem?_set, List.length_set, if_true]
      rw [if_neg (by omega), if_pos (by omega)]
    · intro i hLt hNul
      rw [hKept i hLt] at hNul
      exact
        h.byteAt_ne hNoNul (Nat.le_add_right _ _) (by omega)
          (Option.some.inj hNul)
  rw [hString]
  unfold lineOf
  apply List.ext_getElem?
  intro i
  by_cases hLt : i < k - c.startLine
  · rw [List.getElem?_take_of_lt hLt,
      List.getElem?_take_of_lt hLt, List.getElem?_drop,
      List.getElem?_drop, hKept i hLt,
      h.bytes _ (Nat.le_add_right _ _) (by omega),
      List.getD_eq_getElem?_getD,
      List.getElem?_eq_getElem (by omega)]
    rfl
  · rw [List.getElem?_take_eq_none (by omega),
      List.getElem?_take_eq_none (by omega)]

/- The value that `parse_headers` stores is the declared one. -/
theorem declaredLength_eq
    {c : HttpParser}
    {text n : Nat}
    (hEnds : CString.Ends c.readBuffer text n)
    (hName :
      CString.strncaseEq (c.stringAt text)
        (utf8 "Content-Length:") 15 = true) :
    toInt32
        (CString.atol
          (c.stringAt (c.skipBlanks (text + 15)))) =
      declaredLength (c.stringAt text) := by
  have hLong := CString.strncaseEq_length hName (by decide)
  have hRest : CString.Ends c.readBuffer (text + 15) n :=
    hEnds.of_le (Nat.add_le_add_left hLong _)
  have hDrop :
      c.stringAt (text + 15) = (c.stringAt text).drop 15 :=
    CString.string_add hEnds hLong
  have hValue :
      c.stringAt (c.skipBlanks (text + 15)) =
        (c.stringAt (text + 15)).dropWhile
          (blanks.contains ·) :=
    CString.string_strspn hRest blanks
  unfold declaredLength
  rw [if_pos hName, hValue, hDrop]

/- A line whose string is empty has no bytes. -/
theorem Tracks.emptyLine
    {s : Bytes}
    {c : HttpParser}
    {k : Nat}
    (h : c.Tracks s)
    (hNoNul : 0 ∉ s)
    (hLine : c.EndsLine k)
    (hEmpty : (c.lineEnded k).byteAt c.startLine = 0) :
    k = c.startLine := by
  have hFrom := hLine.from_le
  have hMore := hLine.more
  have hStart := h.framed.startLine_le
  by_contra hLater
  rcases c.byteAt_lineEnded (k := k) c.startLine with
    hSame | ⟨hCutAt, _⟩
  · rw [hSame] at hEmpty
    exact
      h.byteAt_ne hNoNul (Nat.le_refl _) (by omega) hEmpty
  · omega

/- What a header line makes of `m_content_length`. -/
theorem Tracks.headerLength
    {s : Bytes}
    {c : HttpParser}
    {k : Nat}
    {n : Int}
    (h : c.Tracks s)
    (hNoNul : 0 ∉ s)
    (hLine : c.EndsLine k)
    (hN :
      n = (c.lineEnded k).contentLength ∨
        CString.strncaseEq
            ((c.lineEnded k).stringAt
              (c.lineEnded k).startLine)
            (utf8 "Content-Length:") 15 = true ∧
          n =
            toInt32
              (CString.atol
                ((c.lineEnded k).stringAt
                  ((c.lineEnded k).skipBlanks
                    ((c.lineEnded k).startLine + 15)))))
    (hNoBody : declaredLength (c.lineOf s k) = 0) :
    n = 0 := by
  rcases hN with hSame | ⟨hName, hSame⟩
  · exact hSame.trans h.contentLength
  · have hReady := h.framed.lineEnded hLine
    have hDeclared := declaredLength_eq hReady.ends hName
    have hString :
        (c.lineEnded k).stringAt (c.lineEnded k).startLine =
          c.lineOf s k :=
      h.stringAt_lineEnded hNoNul hLine
    rw [hString] at hDeclared
    rw [hSame, hDeclared]
    exact hNoBody

/- What precedes a header line in the bytes. -/
theorem Tracks.before
    {s : Bytes}
    {c : HttpParser}
    (h : c.Tracks s)
    (hState : c.checkState = .header) :
    ∃ before,
      s = before ++ 13 :: 10 :: s.drop c.startLine := by
  have hStart := h.framed.startLine_le
  have hChecked := h.framed.checkedIdx_le
  have hRead := h.readIdx_le
  rcases h.place with
    ⟨hFirst, _⟩ | ⟨_, _, hTwo, hCr, hLf⟩
  · rw [hState] at hFirst
    cases hFirst
  · refine ⟨s.take (c.startLine - 2), ?_⟩
    have hSecond : c.startLine - 2 + 1 = c.startLine - 1 := by
      omega
    have hThird : c.startLine - 1 + 1 = c.startLine := by
      omega
    have hTail :
        s.drop (c.startLine - 2) =
          13 :: 10 :: s.drop c.startLine := by
      rw [drop_of_byte (by omega) hCr, hSecond,
        drop_of_byte (by omega) hLf, hThird]
    rw [← hTail, List.take_append_drop]

/- After a line the next one is where it should be. -/
theorem Tracks.next
    {s : Bytes}
    {c c' : HttpParser}
    {k : Nat}
    (h : c.Tracks s)
    (hLine : c.EndsLine k)
    (hMarks : (c.lineEnded k).startNextLine.Marks c')
    (hFramed : c'.Framed)
    (hState : c'.checkState = .header)
    (hUrl : c'.url ≠ none)
    (hLength : c'.contentLength = 0) :
    c'.Tracks s := by
  have hFrom := hLine.from_le
  have hMore := hLine.more
  have hStart := h.framed.startLine_le
  have hStart' : c'.startLine = k + 2 := hMarks.startLine
  have hChecked' : c'.checkedIdx = k + 2 := hMarks.checkedIdx
  have hRead' : c'.readIdx = c.readIdx := hMarks.readIdx
  exact
    { framed := hFramed
      readIdx_le := hRead' ▸ h.readIdx_le
      bytes := by
        intro i hLe hLt
        rw [hStart'] at hLe
        rw [hRead'] at hLt
        have hKept : c'.byteAt i = (c.lineEnded k).byteAt i :=
          hMarks.byteAt_of_le hLe
        rcases c.byteAt_lineEnded (k := k) i with
          hSame | ⟨hCut, _⟩
        · rw [hKept, hSame]
          exact h.bytes i (by omega) hLt
        · omega
      plain := by
        intro m hLe hLt
        omega
      contentLength := hLength
      place := by
        right
        refine ⟨hState, hUrl, ?_⟩
        rw [hStart']
        have hFirst := h.bytes k (by omega) (by omega)
        have hSecond := h.bytes (k + 1) (by omega) hMore
        exact
          ⟨by omega, hFirst.symm.trans hLine.cr,
            hSecond.symm.trans hLine.lf⟩ }

end HttpParser

/- What a turn leaves behind. -/
def Turn.Keeps
    (s : Bytes) :
    Turn → Prop
| .again status c => status = .lineOk ∧ c.Tracks s
| .returns code c =>
    c.Framed ∧
      (code = .noRequest →
        c.Waiting ∧ c.readIdx = s.length)

namespace HttpParser

theorem Tracks.startLine_eq
    {s : Bytes}
    {c : HttpParser}
    (h : c.Tracks s)
    (hState : c.checkState = .requestLine) :
    c.startLine = 0 := by
  rcases h.place with ⟨_, hZero⟩ | ⟨hOther, _⟩
  · exact hZero
  · rw [hState] at hOther
    cases hOther

/- `strpbrk` finds the blank of a line that has one. -/
theorem Tracks.strpbrk_ne_none
    {s : Bytes}
    {c : HttpParser}
    {k : Nat}
    (h : c.Tracks s)
    (hNoNul : 0 ∉ s)
    (hLine : c.EndsLine k)
    (hBlank : ∃ b ∈ c.lineOf s k, b ∈ blanks) :
    CString.strpbrk (c.lineEnded k).readBuffer
      (c.lineEnded k).startLine blanks ≠ none := by
  rcases hBlank with ⟨b, hMem, hBlank⟩
  rw [← h.stringAt_lineEnded hNoNul hLine] at hMem
  rcases CString.strpbrk_isSome hMem hBlank with ⟨j, hFind⟩
  show CString.strpbrk (c.lineEnded k).readBuffer
    c.startLine blanks ≠ none
  rw [hFind]
  exact Option.some_ne_none j

theorem Tracks.requestLine_turn
    {s : Bytes}
    {c : HttpParser}
    {k : Nat}
    (h : c.Tracks s)
    (hCut : Cuttable s)
    (hState : c.checkState = .requestLine)
    (hLine : c.EndsLine k)
    (fs : FileSystem) :
    ∃ turn,
      (c.lineEnded k).handleLine fs .lineOk = .ok turn ∧
        turn.Keeps s := by
  have hReady := h.framed.lineEnded hLine
  rcases handleLine_requestLine hReady hState fs .lineOk with
    ⟨hNone, _⟩ |
      ⟨c', hMarks, hFramed,
        hCall | ⟨hHeader, hUrl, hLength, hCall⟩⟩
  · rcases h.split hLine with ⟨hSplit, hNoCr⟩
    rw [h.startLine_eq hState, List.drop_zero] at hSplit
    exact
      absurd hNone
        (h.strpbrk_ne_none hCut.noNul hLine
          (hCut.firstLine _ _ hSplit hNoCr))
  · refine ⟨_, hCall, hFramed, ?_⟩
    intro hNo
    cases hNo
  · exact
      ⟨_, hCall, rfl,
        h.next hLine hMarks hFramed hHeader hUrl
          (hLength.trans h.contentLength)⟩

theorem Tracks.header_turn
    {s : Bytes}
    {c : HttpParser}
    {k : Nat}
    (h : c.Tracks s)
    (hCut : Cuttable s)
    (hState : c.checkState = .header)
    (hLine : c.EndsLine k)
    (fs : FileSystem) :
    ∃ turn,
      (c.lineEnded k).handleLine fs .lineOk = .ok turn ∧
        turn.Keeps s := by
  have hReady := h.framed.lineEnded hLine
  have hNext := hReady.framed.startNextLine
  have hMore := hLine.more
  have hRead := h.readIdx_le
  have hUrl : c.url ≠ none := by
    rcases h.place with ⟨hOther, _⟩ | ⟨_, hUrl, _⟩
    · rw [hState] at hOther
      cases hOther
    · exact hUrl
  rcases h.before hState with ⟨before, hBefore⟩
  rcases h.split hLine with ⟨hSplit, hNoCr⟩
  rw [hSplit] at hBefore
  rcases handleLine_header hReady hState fs .lineOk with
    ⟨_, hBody, _⟩ | ⟨hEmpty, _, hRequest⟩ |
      ⟨_, linger, n, host, hHost, hN, hCall⟩
  · exact absurd h.contentLength hBody
  · have hAtStart : k = c.startLine :=
      h.emptyLine hCut.noNul hLine hEmpty
    have hLast : c.lineOf s k = [] := by
      unfold lineOf
      rw [hAtStart, Nat.sub_self, List.take_zero]
    rw [hLast, List.nil_append] at hBefore
    have hEnd := hCut.emptyLast _ _ hBefore
    have hLong : s.length ≤ k + 2 :=
      List.drop_eq_nil_iff.mp hEnd
    rcases hRequest with
      ⟨hNone, _⟩ |
        ⟨code, realFile, fileStat, fileAddress, hCall⟩
    · exact absurd hNone hUrl
    · refine ⟨_, hCall, { hNext with }, ?_⟩
      intro _
      refine ⟨waiting_of_end { hNext with } ?_ ?_, ?_⟩
      · show c.checkState ≠ .content
        exact h.not_content
      · show c.readIdx ≤ k + 2
        omega
      · show c.readIdx = s.length
        omega
  · have hLength : n = 0 :=
      h.headerLength hCut.noNul hLine hN
        (hCut.noBody _ _ _ hBefore hNoCr)
    refine ⟨_, hCall, rfl, ?_⟩
    refine
      h.next hLine ?_ ?_ hState hUrl hLength
    · exact { Marks.refl (c.lineEnded k).startNextLine with }
    · exact { hNext with host := hHost }

end HttpParser

/-
  A call waits in step with the bytes, or returns; where it
  returns that nothing was requested, it has read them all.
-/
def ReadOutcome.Keeps
    (s : Bytes) :
    ReadOutcome → Prop
| .fault _ => False
| .returned code c =>
    c.Framed ∧
      (code = .noRequest →
        c.Waiting ∧ c.readIdx = s.length)
| .waits c => c.Tracks s

namespace HttpParser

/- Nothing goes wrong on bytes that may be cut. -/
theorem Tracks.readsTo
    {s : Bytes}
    {c : HttpParser}
    {fs : FileSystem}
    {o : ReadOutcome}
    (hReads : ReadsTo fs c o)
    (h : c.Tracks s)
    (hCut : Cuttable s) :
    o.Keeps s := by
  have hTurnKeeps : ∀ {c c' : HttpParser},
      c.Tracks s → c.parseLine = (.lineOk, c') →
        ∃ turn,
          c'.handleLine fs .lineOk = .ok turn ∧
            turn.Keeps s := by
    intro c c' h hLine
    rcases parseLine_ok h.framed hLine with ⟨k, hEnds, rfl⟩
    rcases h.place with ⟨hState, _⟩ | ⟨hState, _⟩
    · exact h.requestLine_turn hCut hState hEnds fs
    · exact h.header_turn hCut hState hEnds fs
  induction hReads with
  | waits hState hLine hStatus =>
      rcases parseLine_not_ok h.framed hLine hStatus with
        ⟨k, hFrom, hTo, hPlain, _, rfl⟩
      exact h.scanned hFrom hTo hPlain
  | fault hState hLine hTurn =>
      rcases hTurnKeeps h hLine with ⟨turn, hCall, _⟩
      rw [hTurn] at hCall
      cases hCall
  | returned hState hLine hTurn =>
      rcases hTurnKeeps h hLine with ⟨turn, hCall, hKeeps⟩
      rw [hTurn] at hCall
      cases hCall
      exact hKeeps
  | again hState hLine hTurn hRest ih =>
      rcases hTurnKeeps h hLine with ⟨turn, hCall, hKeeps⟩
      rw [hTurn] at hCall
      cases hCall
      exact ih hKeeps.2
  | content hState => exact h.not_content hState

end HttpParser

end V2

end WebServer

------------------------------------------------------------
-- Every Way To Cut The Bytes
------------------------------------------------------------

namespace WebServer

namespace V2

/- The call that ended left `m_read_idx` alone. -/
def ReadOutcome.Leaves
    (readIdx : Nat) :
    ReadOutcome → Prop
| .fault _ => True
| .returned _ c => c.readIdx = readIdx
| .waits c => c.readIdx = readIdx

namespace HttpParser

theorem ReadsTo.leaves
    {fs : FileSystem}
    {c : HttpParser}
    {o : ReadOutcome}
    (hReads : ReadsTo fs c o)
    (h : c.Framed) :
    o.Leaves c.readIdx := by
  induction hReads with
  | waits hState hLine hStatus =>
      rcases parseLine_not_ok h hLine hStatus with
        ⟨k, _, _, _, _, rfl⟩
      exact rfl
  | fault hState hLine hTurn => trivial
  | returned hState hLine hTurn =>
      rcases LineReady.parseLine h hLine with
        ⟨hReady, _, hRead, hState'⟩
      exact
        (hReady.settles (hState' ▸ hState) hTurn).2.trans
          hRead
  | again hState hLine hTurn hRest ih =>
      rcases LineReady.parseLine h hLine with
        ⟨hReady, _, hRead, hState'⟩
      rcases hReady.again (hState' ▸ hState) hTurn with
        ⟨_, hFramed, _, hRead'⟩
      have hSame := hRead'.trans hRead
      exact hSame ▸ ih hFramed
  | content hState => trivial

theorem SameString.refl
    (c : HttpParser)
    (p : Option Nat) :
    c.SameString c p p :=
  ⟨rfl, rfl⟩

theorem SameRequest.refl
    (c : HttpParser) :
    c.SameRequest c where
  checkState := rfl
  linger := rfl
  url := .refl c c.url
  version := .refl c c.version
  host := .refl c c.host

/- What was read of a request does not change behind it. -/
theorem Points.sameString
    {c : HttpParser}
    {p : Option Nat}
    (h : c.Points p)
    (hIn : c.readIdx ≤ c.readBuffer.length)
    (bytes : Bytes) :
    c.SameString (c.receive bytes) p p := by
  refine ⟨rfl, ?_⟩
  cases p with
  | none => rfl
  | some k =>
      exact
        congrArg some
          (stringAt_receive hIn (h k rfl) bytes).symm

theorem Framed.sameRequest
    {c : HttpParser}
    (h : c.Framed)
    (bytes : Bytes) :
    c.SameRequest (c.receive bytes) where
  checkState := rfl
  linger := rfl
  url := h.url.sameString h.readIdx_le bytes
  version := h.version.sameString h.readIdx_le bytes
  host := h.host.sameString h.readIdx_le bytes

/- Empty chunks change nothing. -/
theorem Waiting.feed
    {c : HttpParser}
    {chunks : List Bytes}
    (h : c.Waiting)
    (hNothing : chunks.flatten = [])
    (fs : FileSystem) :
    HttpParser.feed fs c chunks = .ok (.noRequest, c) := by
  have hCall : c.processRead fs = .ok (.noRequest, c) :=
    (h.readsTo fs).processRead h.framed
  induction chunks with
  | nil => rfl
  | cons chunk chunks ih =>
      rw [List.flatten_cons, List.append_eq_nil_iff]
        at hNothing
      unfold HttpParser.feed
      rw [hNothing.1, receive_nil, hCall]
      exact ih hNothing.2

/- What the chunks after a call make of its result. -/
def feedAfter
    (fs : FileSystem)
    (chunks : List Bytes) :
    ReadOutcome →
      Except ParseFault (HttpCode × HttpParser)
| .fault f => .error f
| .waits c => HttpParser.feed fs c chunks
| .returned code c =>
    if code = .noRequest then
      HttpParser.feed fs c chunks
    else
      .ok (code, c)

theorem feed_cons
    {c : HttpParser}
    {chunk : Bytes}
    {fs : FileSystem}
    {o : ReadOutcome}
    (h : (c.receive chunk).Framed)
    (hReads : ReadsTo fs (c.receive chunk) o)
    (chunks : List Bytes) :
    HttpParser.feed fs c (chunk :: chunks) =
      feedAfter fs chunks o := by
  have hCall := hReads.processRead h
  unfold HttpParser.feed
  rw [hCall]
  cases o with
  | fault f => rfl
  | waits c' => rfl
  | returned code c' => cases code <;> rfl

/- The chunks that are left give what their bytes give. -/
theorem Tracks.feed
    {s : Bytes}
    {c : HttpParser}
    {chunks : List Bytes}
    (h : c.Tracks s)
    (hCut : Cuttable s)
    (hWaiting : c.Waiting)
    (hRest : s.drop c.readIdx = chunks.flatten)
    (fs : FileSystem) :
    ∃ code c₁ c₂,
      (c.receive chunks.flatten).processRead fs =
          .ok (code, c₁) ∧
        HttpParser.feed fs c chunks = .ok (code, c₂) ∧
          c₂.SameRequest c₁ := by
  induction chunks generalizing c with
  | nil =>
      refine ⟨.noRequest, c, c, ?_, rfl, .refl c⟩
      rw [List.flatten_nil, receive_nil]
      exact (hWaiting.readsTo fs).processRead hWaiting.framed
  | cons chunk chunks ih =>
      rw [List.flatten_cons] at hRest ⊢
      have hChunk := h.receive hRest
      have hRest' :
          s.drop (c.receive chunk).readIdx =
            chunks.flatten := by
        show s.drop (c.readIdx + chunk.length) = chunks.flatten
        rw [← List.drop_drop, hRest, List.drop_left]
      rw [← receive_receive h.framed.readIdx_le]
      rcases exists_readsTo fs hChunk.framed with ⟨o, hReads⟩
      have hKeeps := hChunk.readsTo hReads hCut
      have hLeaves := hReads.leaves hChunk.framed
      rw [feed_cons hChunk.framed hReads]
      cases o with
      | fault f => exact hKeeps.elim
      | returned code d =>
          have hWhole :=
            (hReads.receive hChunk.framed trivial
              chunks.flatten).processRead
              (hChunk.framed.receive chunks.flatten)
          by_cases hCode : code = .noRequest
          · rcases hKeeps.2 hCode with ⟨hWaits, hAll⟩
            have hRead :
              d.readIdx = (c.receive chunk).readIdx :=
              hLeaves
            have hNothing : chunks.flatten = [] := by
              rw [← hRest', ← hRead, hAll, List.drop_length]
            subst hCode
            rw [hNothing] at hWhole ⊢
            refine
              ⟨_, _, d, hWhole, hWaits.feed hNothing fs, ?_⟩
            rw [receive_nil]
            exact .refl d
          · refine ⟨_, _, d, hWhole, if_neg hCode, ?_⟩
            exact hKeeps.1.sameRequest chunks.flatten
      | waits d =>
          have hDone : d.Tracks s := hKeeps
          have hRead :
              d.readIdx = (c.receive chunk).readIdx :=
            hLeaves
          rcases
            ih hDone (hReads.waiting hChunk.framed)
              (hRead ▸ hRest') with
            ⟨code, c₁, c₂, hCall, hFeed, hSame⟩
          have hMore := hDone.framed.receive chunks.flatten
          rcases exists_readsTo fs hMore with ⟨o, hNext⟩
          have hWhole :=
            (hReads.resume hChunk.framed hNext).processRead
              (hChunk.framed.receive chunks.flatten)
          refine ⟨code, c₁, c₂, ?_, hFeed, hSame⟩
          rw [hWhole, ← hNext.processRead hMore]
          exact hCall

end HttpParser

/-
  However the bytes of a request are cut into chunks, the
  first answer of `process_read` is the answer to all the
  bytes at once, and so is what was read of the request.
-/
theorem chunks_read_as_whole
    (fs : FileSystem)
    (conn : HttpParser)
    {s : Bytes}
    (hCut : Cuttable s)
    {chunks : List Bytes}
    (hChunks : chunks.flatten = s) :
    ∃ code whole pieces,
      (conn.init.receive s).processRead fs =
          .ok (code, whole) ∧
        HttpParser.feed fs conn.init chunks =
            .ok (code, pieces) ∧
          pieces.SameRequest whole := by
  have hInit := HttpParser.tracks_init s conn
  have hWaiting : conn.init.Waiting :=
    HttpParser.waiting_of_end hInit.framed hInit.not_content
      (Nat.le_refl _)
  subst hChunks
  exact hInit.feed hCut hWaiting rfl fs

/- A small request, cut within words and line ends. -/
def smallRequest : List Bytes :=
  [utf8 "GET /a HT", utf8 "TP/1.1\r", utf8 "\nHost: x\r\n\r",
    utf8 "\n"]

/- Every path names the same file. -/
def oneFile : FileSystem where
  stat _ := some ⟨5, true, false⟩
  openRdonly _ := true
  mmap _ _ := some (utf8 "hello")

/- An `http_conn` that was never used. -/
def unusedParser : HttpParser where
  readBuffer := []
  readIdx := 0
  checkedIdx := 0
  startLine := 0
  checkState := .requestLine
  url := none
  version := none
  method := .get
  host := none
  linger := false
  contentLength := 0
  realFile := []
  fileStat := none
  fileAddress := .null

theorem chunks_read_as_whole_small_request :
    ∃ code whole pieces,
      (unusedParser.init.receive
          smallRequest.flatten).processRead oneFile =
          .ok (code, whole) ∧
        HttpParser.feed oneFile unusedParser.init
            smallRequest =
            .ok (code, pieces) ∧
          pieces.SameRequest whole := by
  have hCut : Cuttable smallRequest.flatten := by
    decide +kernel
  exact chunks_read_as_whole oneFile unusedParser hCut rfl

end V2

end WebServer
