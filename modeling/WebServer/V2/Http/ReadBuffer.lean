import WebServer.Library.Machine
import WebServer.V2.Http.ReadInChunks

/-
  The read buffer of version 2.0 over whole runs
  (`http_conn::init`, `read` and `process_read`).

  A run is cut into steps: a `recv` inside `read`, a call of
  `parse_line` at the head of the loop of `process_read`,
  the body of that loop. What the peer sends, what `stat`
  and `open` answer, and what `parse_content`, which has no
  `return`, is taken to answer are data of the events. The
  positions that `parse_line` touches are recorded beside
  what it does.

  Key definitions include:
    * `HttpParser.parseLineRecorded`
    * `HttpParser.read`
    * `ReadRun`
    * `readMachine`
    * `ReadRun.InRange`

  Key theorems include:
    * `HttpParser.parseLineRecorded_snd`
    * `HttpParser.read_reaches`
    * `HttpParser.processRead_reaches`
    * `ReadRun.Sound.step`
    * `ReadRun.read_indices_in_range`
-/

------------------------------------------------------------
-- What `parse_line` Touches
------------------------------------------------------------

namespace WebServer

namespace V2

/-
  A byte of the buffer that `parse_line` reads or
  overwrites, and `m_checked_idx` behind that.
-/
structure LineAccess where
  position : Nat
  overwrites : Bool
  checkedIdx : Nat
deriving DecidableEq, Repr

namespace HttpParser

/- The loop of `parse_line`, with a record of its accesses. -/
def parseLineLoopRecorded :
    Nat → HttpParser →
      List LineAccess × LineStatus × HttpParser
| 0, c => ([], .lineOpen, c)
| n + 1, c =>
    let i := c.checkedIdx
    let here : LineAccess := ⟨i, false, i⟩
    if c.byteAt i = 13 then
      if i + 1 = c.readIdx then
        ([here], .lineOpen, c)
      else if c.byteAt (i + 1) = 10 then
        ([here, ⟨i + 1, false, i⟩, ⟨i, true, i + 1⟩,
            ⟨i + 1, true, i + 2⟩],
          .lineOk,
          { (c.cutAt i).cutAt (i + 1) with
            checkedIdx := i + 2 })
      else
        ([here, ⟨i + 1, false, i⟩], .lineBad, c)
    else if c.byteAt i = 10 then
      if 1 < i then
        if c.byteAt (i - 1) = 13 then
          ([here, ⟨i - 1, false, i⟩, ⟨i - 1, true, i⟩,
              ⟨i, true, i + 1⟩],
            .lineOk,
            { (c.cutAt (i - 1)).cutAt i with
              checkedIdx := i + 1 })
        else
          ([here, ⟨i - 1, false, i⟩], .lineBad, c)
      else
        ([here], .lineBad, c)
    else
      let rest :=
        parseLineLoopRecorded n { c with checkedIdx := i + 1 }
      (here :: rest.1, rest.2)

/- `parse_line()`, with a record of its accesses. -/
def parseLineRecorded
    (c : HttpParser) :
    List LineAccess × LineStatus × HttpParser :=
  parseLineLoopRecorded (c.readIdx - c.checkedIdx) c

/- What `parse_line()` touches. -/
def lineAccesses
    (c : HttpParser) : List LineAccess :=
  c.parseLineRecorded.1

theorem parseLineLoopRecorded_snd
    (n : Nat)
    (c : HttpParser) :
    (parseLineLoopRecorded n c).2 = parseLineLoop n c := by
  induction n generalizing c with
  | zero => rfl
  | succ n ih =>
      unfold parseLineLoopRecorded parseLineLoop
      by_cases hCr : c.byteAt c.checkedIdx = 13
      · simp only [if_pos hCr]
        split_ifs <;> rfl
      · simp only [if_neg hCr]
        by_cases hLf : c.byteAt c.checkedIdx = 10
        · simp only [if_pos hLf]
          split_ifs with hFar hBefore hBoth hBoth hBoth
          · rfl
          · exact absurd ⟨hFar, hBefore⟩ hBoth
          · exact absurd hBoth.2 hBefore
          · rfl
          · exact absurd hBoth.1 hFar
          · rfl
        · simp only [if_neg hLf]
          exact ih _

/- The record is of what `parse_line` does. -/
theorem parseLineRecorded_snd
    (c : HttpParser) :
    c.parseLineRecorded.2 = c.parseLine :=
  parseLineLoopRecorded_snd _ c

/-
  An access within the bytes received, made while
  `m_checked_idx` is between `low` and `m_read_idx`.
-/
structure InBuffer
    (c : HttpParser)
    (low : Nat)
    (a : LineAccess) : Prop where
  position_lt : a.position < c.readIdx
  low_le : low ≤ a.checkedIdx
  checkedIdx_le : a.checkedIdx ≤ c.readIdx

/-
  Every access of the loop is within the bytes received, by
  induction on the bytes still to scan.
-/
theorem parseLineLoopRecorded_inBuffer
    {n : Nat}
    {c : HttpParser}
    (hRest : c.checkedIdx + n = c.readIdx) :
    ∀ a ∈ (parseLineLoopRecorded n c).1,
      c.InBuffer c.checkedIdx a := by
  induction n generalizing c with
  | zero =>
      intro a hMem
      cases hMem
  | succ n ih =>
      have hTouch : ∀ position overwrites checkedIdx,
          position < c.readIdx → c.checkedIdx ≤ checkedIdx →
            checkedIdx ≤ c.readIdx →
            c.InBuffer c.checkedIdx
              ⟨position, overwrites, checkedIdx⟩ :=
        fun _ _ _ hLt hFrom hTo => ⟨hLt, hFrom, hTo⟩
      intro a hMem
      unfold parseLineLoopRecorded at hMem
      simp only at hMem
      split_ifs at hMem with hCr hLast hNext hLf hFar hBefore
      all_goals
        simp only [List.mem_cons, List.not_mem_nil, or_false]
          at hMem
      · subst hMem
        exact hTouch _ _ _ (by omega) (by omega) (by omega)
      · rcases hMem with rfl | rfl | rfl | rfl
        all_goals
          exact hTouch _ _ _ (by omega) (by omega) (by omega)
      · rcases hMem with rfl | rfl
        all_goals
          exact hTouch _ _ _ (by omega) (by omega) (by omega)
      · rcases hMem with rfl | rfl | rfl | rfl
        all_goals
          exact hTouch _ _ _ (by omega) (by omega) (by omega)
      · rcases hMem with rfl | rfl
        all_goals
          exact hTouch _ _ _ (by omega) (by omega) (by omega)
      · subst hMem
        exact hTouch _ _ _ (by omega) (by omega) (by omega)
      · rcases hMem with rfl | hMem
        · exact hTouch _ _ _ (by omega) (by omega) (by omega)
        · have hLater :=
            ih (c := { c with checkedIdx := c.checkedIdx + 1 })
              (show c.checkedIdx + 1 + n = c.readIdx by omega)
              a hMem
          exact
            ⟨hLater.position_lt,
              Nat.le_of_succ_le hLater.low_le,
              hLater.checkedIdx_le⟩

end HttpParser

end V2

end WebServer

------------------------------------------------------------
-- Calls
------------------------------------------------------------

namespace WebServer

namespace V2

/- What a `recv` call returns. -/
inductive RecvResult
| bytes (data : Bytes)
| eagain
| closed
| error
deriving DecidableEq, Repr

namespace HttpParser

/- A `recv` that is offered no room returns 0. -/
def hasRoom
    (c : HttpParser) : Bool :=
  decide (c.readIdx < readBufferSize)

/-
  The loop of `read()`, given what `recv` finds in turn. No
  more is taken than there is room for, and a `recv` that
  takes nothing returns 0. Where the list ends nothing is
  there yet, which a `recv` with room answers by `EAGAIN`.
-/
def readLoop :
    List RecvResult → HttpParser → Bool × HttpParser
| [], c => (c.hasRoom, c)
| .bytes data :: rest, c =>
    let taken := data.take (readBufferSize - c.readIdx)
    if taken = [] then
      (false, c)
    else
      readLoop rest (c.receive taken)
| .eagain :: _, c => (c.hasRoom, c)
| .closed :: _, c => (false, c)
| .error :: _, c => (false, c)

/- `read()`. -/
def read
    (c : HttpParser)
    (results : List RecvResult) : Bool × HttpParser :=
  if readBufferSize ≤ c.readIdx then
    (false, c)
  else
    readLoop results c

/-
  The body of the loop of `process_read`, where the missing
  `return` of `parse_content` answers `content`.
-/
def handleLineWith
    (content : HttpCode)
    (fs : FileSystem)
    (c : HttpParser)
    (status : LineStatus) : Except ParseFault Turn :=
  if c.checkState = .content then
    if content = .getRequest then do
      let (code, c) ← c.startNextLine.doRequest fs
      .ok (.returns code c)
    else
      .ok (.again .lineOpen c.startNextLine)
  else
    c.handleLine fs status

end HttpParser

/- The connection that a turn leaves. -/
def Turn.conn :
    Turn → HttpParser
| .returns _ c => c
| .again _ c => c

/- Where the thread that serves a connection is. -/
inductive ReadPhase
| idle
| receiving
| atLoop (status : LineStatus)
| atLine (status : LineStatus)
deriving DecidableEq, Repr

inductive ReadEvent
| init
| read
| recv (res : RecvResult)
| processRead
| parseLine
| handleLine (fs : FileSystem) (content : HttpCode)

structure ReadRun where
  conn : HttpParser
  phase : ReadPhase

namespace ReadRun

/- A connection that was set up. -/
def start
    (conn : HttpParser) : ReadRun where
  conn := conn.init
  phase := .idle

/- Entering `read()`. -/
def read
    (s : ReadRun) : ReadRun :=
  if readBufferSize ≤ s.conn.readIdx then
    s
  else
    { s with phase := .receiving }

/- One turn of its loop, given the result of `recv`. -/
def recv
    (s : ReadRun) :
    RecvResult → ReadRun
| .bytes data => { s with conn := s.conn.receive data }
| _ => { s with phase := .idle }

/- The condition of the loop of `process_read`. -/
def parseLine
    (s : ReadRun)
    (status : LineStatus) : ReadRun :=
  let (status, conn) :=
    if s.conn.checkState = .content ∧ status = .lineOk then
      (status, s.conn)
    else
      s.conn.parseLine
  if status = .lineOk then
    ⟨conn, .atLine status⟩
  else
    ⟨conn, .idle⟩

/- The body of that loop. -/
def handleLine
    (s : ReadRun)
    (fs : FileSystem)
    (content : HttpCode)
    (status : LineStatus) : Option ReadRun :=
  match s.conn.handleLineWith content fs status with
  | .error _ => none
  | .ok (.returns _ conn) => some ⟨conn, .idle⟩
  | .ok (.again status conn) => some ⟨conn, .atLoop status⟩

/- `recv` finds some bytes and has room for them, or none. -/
def enabled
    (s : ReadRun) :
    ReadEvent → Prop
| .init => s.phase = .idle
| .read => s.phase = .idle
| .recv (.bytes data) =>
    s.phase = .receiving ∧ data ≠ [] ∧
      s.conn.readIdx + data.length ≤ readBufferSize
| .recv _ => s.phase = .receiving
| .processRead => s.phase = .idle
| .parseLine => ∃ status, s.phase = .atLoop status
| .handleLine _ _ => ∃ status, s.phase = .atLine status

def step
    (s : ReadRun) :
    ReadEvent → Option ReadRun
| .init => some (.start s.conn)
| .read => some s.read
| .recv res => some (s.recv res)
| .processRead => some { s with phase := .atLoop .lineOk }
| .parseLine =>
    match s.phase with
    | .atLoop status => some (s.parseLine status)
    | _ => none
| .handleLine fs content =>
    match s.phase with
    | .atLine status => s.handleLine fs content status
    | _ => none

/- At the head of the loop a line is looked for, or not. -/
theorem parseLine_cases
    (s : ReadRun)
    (status : LineStatus) :
    (s.conn.checkState = .content ∧
        s.parseLine status =
          ⟨s.conn, .atLine status⟩) ∨
      ∃ found conn,
        s.conn.parseLine = (found, conn) ∧
          s.parseLine status =
            if found = .lineOk then
              ⟨conn, .atLine found⟩
            else
              ⟨conn, .idle⟩ := by
  unfold parseLine
  by_cases hContent :
      s.conn.checkState = .content ∧ status = .lineOk
  · left
    refine ⟨hContent.1, ?_⟩
    simp only [if_pos hContent, if_pos hContent.2]
  · right
    simp only [if_neg hContent]
    exact ⟨_, _, rfl, rfl⟩

/- The body of the loop goes well, or ends the run. -/
theorem handleLine_cases
    {s t : ReadRun}
    {fs : FileSystem}
    {content : HttpCode}
    {status : LineStatus}
    (hStep : s.handleLine fs content status = some t) :
    ∃ turn,
      s.conn.handleLineWith content fs status = .ok turn ∧
        t.conn = turn.conn ∧
        ∀ next, t.phase ≠ .atLine next := by
  unfold handleLine at hStep
  cases hTurn :
      s.conn.handleLineWith content fs status with
  | error f =>
      rw [hTurn] at hStep
      cases hStep
  | ok turn =>
      rw [hTurn] at hStep
      cases turn with
      | returns code conn =>
          cases hStep
          exact ⟨_, rfl, rfl, nofun⟩
      | again next conn =>
          cases hStep
          exact ⟨_, rfl, rfl, nofun⟩

/- Where the two steps of `process_read` are taken. -/
theorem step_parseLine
    {s t : ReadRun}
    (hStep : s.step .parseLine = some t) :
    ∃ status, s.parseLine status = t := by
  unfold step at hStep
  cases hPhase : s.phase with
  | atLoop status =>
      simp only [hPhase] at hStep
      exact ⟨status, Option.some.inj hStep⟩
  | idle =>
      simp only [hPhase] at hStep
      cases hStep
  | receiving =>
      simp only [hPhase] at hStep
      cases hStep
  | atLine status =>
      simp only [hPhase] at hStep
      cases hStep

theorem step_handleLine
    {s t : ReadRun}
    {fs : FileSystem}
    {content : HttpCode}
    (hStep : s.step (.handleLine fs content) = some t) :
    ∃ status,
      s.phase = .atLine status ∧
        s.handleLine fs content status = some t := by
  unfold step at hStep
  cases hPhase : s.phase with
  | atLine status =>
      simp only [hPhase] at hStep
      exact ⟨status, rfl, hStep⟩
  | idle =>
      simp only [hPhase] at hStep
      cases hStep
  | receiving =>
      simp only [hPhase] at hStep
      cases hStep
  | atLoop status =>
      simp only [hPhase] at hStep
      cases hStep

end ReadRun

/- Reading and parsing as a machine over such steps. -/
def readMachine : Machine ReadRun ReadEvent where
  enabled := ReadRun.enabled
  step := ReadRun.step

end V2

end WebServer

------------------------------------------------------------
-- Calls Are Runs
------------------------------------------------------------

namespace WebServer

namespace V2

namespace HttpParser

/- Where `recv` finds nothing, the loop of `read()` ends. -/
theorem reaches_of_no_bytes
    {res : RecvResult}
    (hNone : res = .eagain ∨ res = .closed ∨ res = .error)
    (c : HttpParser) :
    readMachine.Reaches ⟨c, .receiving⟩ [.recv res]
      ⟨c, .idle⟩ := by
  rcases hNone with rfl | rfl | rfl <;>
    exact .cons rfl rfl (.nil _)

theorem readLoop_reaches
    (results : List RecvResult)
    (c : HttpParser) :
    ∃ es,
      readMachine.Reaches ⟨c, .receiving⟩ es
        ⟨(readLoop results c).2, .idle⟩ := by
  induction results generalizing c with
  | nil => exact ⟨_, reaches_of_no_bytes (.inl rfl) c⟩
  | cons res rest ih =>
      cases res with
      | eagain => exact ⟨_, reaches_of_no_bytes (.inl rfl) c⟩
      | closed =>
          exact ⟨_, reaches_of_no_bytes (.inr (.inl rfl)) c⟩
      | error =>
          exact ⟨_, reaches_of_no_bytes (.inr (.inr rfl)) c⟩
      | bytes data =>
          unfold readLoop
          simp only
          split_ifs with hNone
          · exact
              ⟨_, reaches_of_no_bytes (.inr (.inl rfl)) c⟩
          · rcases
              ih (c.receive
                (data.take (readBufferSize - c.readIdx))) with
              ⟨es, hRest⟩
            refine ⟨.recv (.bytes _) :: es, .cons ?_ rfl hRest⟩
            refine ⟨rfl, hNone, ?_⟩
            have hSome := List.length_pos_of_ne_nil hNone
            rw [List.length_take] at hSome ⊢
            show c.readIdx +
              min (readBufferSize - c.readIdx) data.length ≤
                readBufferSize
            omega

/- A call of `read()` is a run. -/
theorem read_reaches
    (c : HttpParser)
    (results : List RecvResult) :
    ∃ es,
      readMachine.Reaches ⟨c, .idle⟩ es
        ⟨(c.read results).2, .idle⟩ := by
  unfold HttpParser.read
  split_ifs with hFull
  · exact ⟨[], .nil _⟩
  · rcases readLoop_reaches results c with ⟨es, hLoop⟩
    refine ⟨.read :: es, .cons rfl ?_ hLoop⟩
    show some (ReadRun.read ⟨c, .idle⟩) = _
    unfold ReadRun.read
    rw [if_neg hFull]

/- `parse_content` has no answer of its own. -/
theorem handleLine_of_content
    {c : HttpParser}
    (hState : c.checkState = .content)
    (fs : FileSystem)
    (status : LineStatus) :
    c.handleLine fs status = .error .noReturnValue := by
  have hState' : c.startNextLine.checkState = .content :=
    hState
  unfold handleLine
  simp only [hState']
  rfl

/- A turn that goes well never asked `parse_content`. -/
theorem handleLineWith_of_ok
    {c : HttpParser}
    {fs : FileSystem}
    {status : LineStatus}
    {turn : Turn}
    (hTurn : c.handleLine fs status = .ok turn)
    (content : HttpCode) :
    c.handleLineWith content fs status = .ok turn := by
  have hState : c.checkState ≠ .content := by
    intro hState
    rw [handleLine_of_content hState] at hTurn
    cases hTurn
  unfold handleLineWith
  rw [if_neg hState]
  exact hTurn

theorem processReadLoop_reaches
    {fs : FileSystem}
    {n : Nat}
    {status : LineStatus}
    {c c' : HttpParser}
    {code : HttpCode}
    (hCall :
      processReadLoop fs n status c = .ok (code, c')) :
    ∃ es,
      readMachine.Reaches ⟨c, .atLoop status⟩ es
        ⟨c', .idle⟩ := by
  induction n generalizing status c with
  | zero => cases hCall
  | succ n ih =>
      unfold processReadLoop at hCall
      have hEnter :
          readMachine.step ⟨c, .atLoop status⟩ .parseLine =
            some
              (ReadRun.parseLine ⟨c, .atLoop status⟩
                status) :=
        rfl
      unfold ReadRun.parseLine at hEnter
      generalize
        (if c.checkState = .content ∧ status = .lineOk then
          (status, c)
        else
          c.parseLine) = r at hCall hEnter
      rcases r with ⟨found, c₁⟩
      simp only at hCall hEnter
      split_ifs at hCall hEnter with hOk
      · cases hTurn : c₁.handleLine fs found with
        | error f =>
            rw [hTurn] at hCall
            cases hCall
        | ok turn =>
            rw [hTurn] at hCall
            have hBody :
                readMachine.step ⟨c₁, .atLine found⟩
                    (.handleLine fs .noRequest) =
                  ReadRun.handleLine ⟨c₁, .atLine found⟩ fs
                    .noRequest found :=
              rfl
            unfold ReadRun.handleLine at hBody
            rw [handleLineWith_of_ok hTurn .noRequest] at hBody
            cases turn with
            | returns code₁ c₂ =>
                cases hCall
                exact
                  ⟨[.parseLine, .handleLine fs .noRequest],
                    .cons ⟨status, rfl⟩ hEnter
                      (.cons ⟨found, rfl⟩ hBody (.nil _))⟩
            | again next c₂ =>
                rcases ih hCall with ⟨es, hRest⟩
                exact
                  ⟨.parseLine :: .handleLine fs .noRequest ::
                      es,
                    .cons ⟨status, rfl⟩ hEnter
                      (.cons ⟨found, rfl⟩ hBody hRest)⟩
      · cases hCall
        exact
          ⟨[.parseLine],
            .cons ⟨status, rfl⟩ hEnter (.nil _)⟩

/- A call of `process_read()` that returns is a run. -/
theorem processRead_reaches
    {fs : FileSystem}
    {c c' : HttpParser}
    {code : HttpCode}
    (hCall : c.processRead fs = .ok (code, c')) :
    ∃ es,
      readMachine.Reaches ⟨c, .idle⟩ es ⟨c', .idle⟩ := by
  rcases processReadLoop_reaches hCall with ⟨es, hLoop⟩
  exact ⟨.processRead :: es, .cons rfl rfl hLoop⟩

end HttpParser

end V2

end WebServer

------------------------------------------------------------
-- Sound Connections
------------------------------------------------------------

namespace WebServer

namespace V2

namespace HttpParser

/- A scan leaves the indices in order and the buffer whole. -/
theorem Framed.parseLine
    {c c' : HttpParser}
    {status : LineStatus}
    (h : c.Framed)
    (hLine : c.parseLine = (status, c')) :
    c'.Framed ∧
      c'.readBuffer.length = c.readBuffer.length := by
  by_cases hOk : status = .lineOk
  · subst hOk
    rcases parseLine_ok h hLine with ⟨k, hEnds, rfl⟩
    refine ⟨(h.lineEnded hEnds).framed, ?_⟩
    unfold HttpParser.lineEnded cutAt
    simp only [List.length_set]
  · rcases parseLine_not_ok h hLine hOk with
      ⟨k, hFrom, hTo, hPlain, _, rfl⟩
    exact ⟨h.scanned hFrom hTo hPlain, rfl⟩

/- So does `do_request`, which leaves them alone. -/
theorem Framed.doRequest
    {c : HttpParser}
    {r : HttpCode × HttpParser}
    (h : c.Framed)
    {fs : FileSystem}
    (hCall : c.doRequest fs = .ok r) :
    r.2.Framed ∧
      r.2.readBuffer.length = c.readBuffer.length := by
  rcases c.doRequest_cases fs with
    ⟨_, hFault⟩ |
      ⟨code, realFile, fileStat, fileAddress, hDone⟩
  · rw [hFault] at hCall
    cases hCall
  · rw [hDone] at hCall
    cases hCall
    exact ⟨{ h with }, rfl⟩

/- So does the body of the loop of `process_read`. -/
theorem Framed.handleLineWith
    {c : HttpParser}
    {content : HttpCode}
    {fs : FileSystem}
    {status : LineStatus}
    {turn : Turn}
    (h : c.Framed)
    (hLine : c.checkState ≠ .content → c.LineReady)
    (hTurn :
      c.handleLineWith content fs status = .ok turn) :
    turn.conn.Framed ∧
      turn.conn.readBuffer.length = c.readBuffer.length := by
  unfold HttpParser.handleLineWith at hTurn
  by_cases hContent : c.checkState = .content
  · rw [if_pos hContent] at hTurn
    split_ifs at hTurn with hGet
    · cases hCall : c.startNextLine.doRequest fs with
      | error f =>
          rw [hCall] at hTurn
          cases hTurn
      | ok r =>
          rw [hCall] at hTurn
          cases hTurn
          exact h.startNextLine.doRequest hCall
    · cases hTurn
      exact ⟨h.startNextLine, rfl⟩
  · rw [if_neg hContent] at hTurn
    have hReady := hLine hContent
    cases hState : c.checkState with
    | content => exact absurd hState hContent
    | requestLine =>
        rcases
          handleLine_requestLine hReady hState fs status with
          ⟨_, hFault⟩ | ⟨c', hMarks, hFramed, hEnd⟩
        · rw [hFault] at hTurn
          cases hTurn
        · rcases hEnd with hBad | ⟨_, _, _, hGoes⟩
          · rw [hBad] at hTurn
            cases hTurn
            exact ⟨hFramed, hMarks.length⟩
          · rw [hGoes] at hTurn
            cases hTurn
            exact ⟨hFramed, hMarks.length⟩
    | header =>
        have hNext := h.startNextLine
        rcases handleLine_header hReady hState fs status with
          ⟨_, _, hGoes⟩ |
            ⟨_, _, ⟨_, hFault⟩ |
              ⟨code, realFile, fileStat, fileAddress, hEnd⟩⟩ |
            ⟨_, linger, n, host, hHost, _, hGoes⟩
        · rw [hGoes] at hTurn
          cases hTurn
          exact ⟨{ hNext with }, rfl⟩
        · rw [hFault] at hTurn
          cases hTurn
        · rw [hEnd] at hTurn
          cases hTurn
          exact ⟨{ hNext with }, rfl⟩
        · rw [hGoes] at hTurn
          cases hTurn
          exact ⟨{ hNext with host := hHost }, rfl⟩

end HttpParser

namespace ReadRun

/-
  The indices are in order, the buffer has its size, and in
  front of the body of the loop a line was ended.
-/
structure Sound
    (s : ReadRun) : Prop where
  framed : s.conn.Framed
  size : s.conn.readBuffer.length = readBufferSize
  line :
    ∀ status, s.phase = .atLine status →
      s.conn.checkState ≠ .content → s.conn.LineReady

theorem sound_start
    (conn : HttpParser) :
    (start conn).Sound where
  framed := HttpParser.framed_init conn
  size := List.length_replicate
  line := by
    intro status hPhase
    cases hPhase

/- Received bytes stay in the buffer. -/
theorem Sound.recv
    {s : ReadRun}
    (h : s.Sound)
    {res : RecvResult}
    (hEnabled : s.enabled (.recv res)) :
    (s.recv res).Sound := by
  cases res with
  | bytes data =>
      rcases hEnabled with ⟨hPhase, _, hRoom⟩
      refine ⟨h.framed.receive data, ?_, ?_⟩
      · rw [← h.size] at hRoom
        exact (CString.length_store hRoom).trans h.size
      · intro status hLine
        have hLine' : s.phase = .atLine status := hLine
        rw [hPhase] at hLine'
        cases hLine'
  | eagain => exact ⟨h.framed, h.size, nofun⟩
  | closed => exact ⟨h.framed, h.size, nofun⟩
  | error => exact ⟨h.framed, h.size, nofun⟩

/- The head of the loop of `process_read`. -/
theorem Sound.parseLine
    {s : ReadRun}
    (h : s.Sound)
    (status : LineStatus) :
    (s.parseLine status).Sound := by
  rcases s.parseLine_cases status with
    ⟨hContent, hSame⟩ | ⟨found, conn, hLine, hScan⟩
  · rw [hSame]
    exact
      ⟨h.framed, h.size, fun _ _ hNot => absurd hContent hNot⟩
  · rcases h.framed.parseLine hLine with ⟨hFramed, hLength⟩
    have hSize := hLength.trans h.size
    rw [hScan]
    split_ifs with hOk
    · subst hOk
      exact
        ⟨hFramed, hSize,
          fun _ _ _ =>
            (HttpParser.LineReady.parseLine h.framed
              hLine).1⟩
    · exact ⟨hFramed, hSize, nofun⟩

/- The body of that loop. -/
theorem Sound.handleLine
    {s t : ReadRun}
    {fs : FileSystem}
    {content : HttpCode}
    {status : LineStatus}
    (h : s.Sound)
    (hPhase : s.phase = .atLine status)
    (hStep : s.handleLine fs content status = some t) :
    t.Sound := by
  rcases handleLine_cases hStep with
    ⟨turn, hTurn, hConn, hAway⟩
  rcases
    h.framed.handleLineWith (h.line status hPhase) hTurn with
    ⟨hFramed, hLength⟩
  rw [← hConn] at hFramed hLength
  exact
    ⟨hFramed, hLength.trans h.size,
      fun next hNext => absurd hNext (hAway next)⟩

/- What every step keeps. -/
theorem Sound.step
    {s t : ReadRun}
    {e : ReadEvent}
    (h : s.Sound)
    (hEnabled : readMachine.enabled s e)
    (hStep : readMachine.step s e = some t) :
    t.Sound := by
  cases e with
  | init =>
      cases hStep
      exact sound_start s.conn
  | read =>
      cases hStep
      unfold ReadRun.read
      split_ifs with hFull
      · exact h
      · exact ⟨h.framed, h.size, nofun⟩
  | recv res =>
      cases hStep
      exact h.recv hEnabled
  | processRead =>
      cases hStep
      exact ⟨h.framed, h.size, nofun⟩
  | parseLine =>
      rcases step_parseLine hStep with ⟨status, rfl⟩
      exact h.parseLine status
  | handleLine fs content =>
      rcases step_handleLine hStep with
        ⟨status, hPhase, hBody⟩
      exact h.handleLine hPhase hBody

/- And every run. -/
theorem sound_of_reaches
    {conn : HttpParser}
    {es : List ReadEvent}
    {s : ReadRun}
    (hRun : readMachine.Reaches (start conn) es s) :
    s.Sound :=
  hRun.invariant
    (fun _ _ _ h hEnabled hStep => h.step hEnabled hStep)
    (sound_start conn)

end ReadRun

end V2

end WebServer

------------------------------------------------------------
-- Indices In Range
------------------------------------------------------------

namespace WebServer

namespace V2

namespace ReadRun

/-
  The indices are in order and within the buffer, and stay
  so during a call of `parse_line`, which touches only bytes
  that were received.
-/
structure InRange
    (s : ReadRun) : Prop where
  startLine_le : s.conn.startLine ≤ s.conn.checkedIdx
  checkedIdx_le : s.conn.checkedIdx ≤ s.conn.readIdx
  readIdx_le : s.conn.readIdx ≤ readBufferSize
  accesses :
    ∀ a ∈ s.conn.lineAccesses,
      s.conn.InBuffer s.conn.startLine a

theorem Sound.inRange
    {s : ReadRun}
    (h : s.Sound) :
    s.InRange where
  startLine_le := h.framed.startLine_le
  checkedIdx_le := h.framed.checkedIdx_le
  readIdx_le := by
    rw [← h.size]
    exact h.framed.readIdx_le
  accesses := by
    intro a hMem
    have hTo := h.framed.checkedIdx_le
    have hAccess :=
      HttpParser.parseLineLoopRecorded_inBuffer
        (Nat.add_sub_cancel' hTo) a hMem
    exact
      { hAccess with
        low_le :=
          Nat.le_trans h.framed.startLine_le
            hAccess.low_le }

/-
  Over every run of a connection that was set up, whatever
  is received and however the calls follow each other, the
  indices are in range.
-/
theorem read_indices_in_range
    (conn : HttpParser)
    (es : List ReadEvent) :
    readMachine.Always InRange (start conn) es :=
  (Machine.always_of_preserved
    (fun _ _ _ h hEnabled hStep => h.step hEnabled hStep)
    (sound_start conn) es).mono
    fun _ h => h.inRange

end ReadRun

end V2

end WebServer
