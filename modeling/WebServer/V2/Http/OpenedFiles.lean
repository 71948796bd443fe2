import WebServer.Library.LexicalPath
import WebServer.V2.Http.Incomplete
import WebServer.V2.Http.RequestGrammar

/-
  The files that version 2.0 opens for its clients.

  `do_request` copies the URL behind `doc_root` into
  `m_real_file`. The copy stops where the buffer is full,
  and double dots are copied like names, so the file opened
  may be another one, and may lie outside of `doc_root`. A
  path may climb out of directories of `doc_root` and name
  them again, and then its file lies inside all the same.

  Key definitions include:
    * `requestMachine`
    * `HttpParser.Opens`
    * `ReadRun.Keeps`
    * `ReadRun.OpensOnly`
    * `ReturnsTo`

  Key theorems include:
    * `HttpParser.opens_iff`
    * `inside_docRoot_iff`
    * `ReadRun.Keeps.step`
    * `keeps_of_accepted`
    * `opens_named_file_iff`
-/

------------------------------------------------------------
-- The File That Is Opened
------------------------------------------------------------

namespace WebServer

namespace V2

open LexicalPath

namespace HttpParser

/- `do_request` opens the file at that path. -/
def Opens
    (c : HttpParser)
    (fs : FileSystem)
    (opened : Bytes) : Prop :=
  ∃ c',
    c.doRequest fs = .ok (.fileRequest, c') ∧
      c'.realFile = opened

/- It opens one file at most. -/
theorem opens_iff
    {c : HttpParser}
    {path opened : Bytes}
    (hUrl : c.PointsAt c.url path)
    (fs : FileSystem) :
    c.Opens fs opened ↔
      fileCode fs path = .fileRequest ∧
        opened = realPath path := by
  rcases doRequest_code hUrl fs with ⟨c', hCall, hFile⟩
  unfold Opens
  rw [hCall]
  constructor
  · rintro ⟨c'', hSame, rfl⟩
    rw [Except.ok.injEq, Prod.mk.injEq] at hSame
    rcases hSame with ⟨hCode, rfl⟩
    exact ⟨hCode, hFile⟩
  · rintro ⟨hCode, rfl⟩
    exact ⟨c', by rw [hCode], hFile⟩

end HttpParser

/- The name holds the whole path if that is short enough. -/
theorem realPath_eq_iff
    (path : Bytes) :
    realPath path = docRoot ++ path ↔
      path.length ≤ filenameLen - docRoot.length - 1 := by
  unfold realPath
  rw [List.append_cancel_left_eq]
  constructor
  · intro hWhole
    have hLength := congrArg List.length hWhole
    rw [List.length_take] at hLength
    omega
  · exact List.take_of_length_le

/-
  The directories of `doc_root` that the path climbs out of
  are the first that it names, and does not take back.
-/
def ReturnsTo
    (path : Bytes) : Prop :=
  (resolve (components docRoot)).drop
      ((resolve (components docRoot)).length -
        climb (components path)) <+:
    named (components path)

instance
    (path : Bytes) : Decidable (ReturnsTo path) :=
  inferInstanceAs (Decidable (_ <+: _))

/- A path behind `doc_root` begins with a slash. -/
theorem inside_docRoot_iff
    {path : Bytes}
    (hSlash : path.head? = some 47) :
    Inside docRoot (docRoot ++ path) ↔ ReturnsTo path := by
  cases path with
  | nil => cases hSlash
  | cons b rest =>
      cases hSlash
      have hSplit :
          components (47 :: rest) = [] :: components rest :=
        components_append_slash [] rest
      have hClimb :
          climb (components (47 :: rest)) =
            climb (components rest) := by
        rw [hSplit]
        exact climb_skip (by decide) (by decide) _
      have hNamed :
          named (components (47 :: rest)) =
            named (components rest) := by
        rw [hSplit]
        exact if_neg fun h => absurd h.1 (by decide)
      unfold ReturnsTo
      rw [hClimb, hNamed]
      exact inside_append_iff docRoot rest

/- Up one directory, and up again into it. -/
example :
    ¬ ReturnsTo (utf8 "/../a") ∧
      ReturnsTo (utf8 "/../resources/a") := by
  decide +kernel

end V2

end WebServer

------------------------------------------------------------
-- Within One Request
------------------------------------------------------------

namespace WebServer

namespace V2

/- The steps between two calls of `init`. -/
def requestMachine : Machine ReadRun ReadEvent where
  enabled s e := s.enabled e ∧ e ≠ .init
  step := ReadRun.step

namespace HttpParser

/- A string in front of the bytes received stays. -/
theorem PointsAt.receive
    {c : HttpParser}
    {p : Option Nat}
    {text : Bytes}
    (h : c.PointsAt p text)
    (hFramed : c.Framed)
    (bytes : Bytes) :
    (c.receive bytes).PointsAt p text := by
  rcases h with ⟨k, hP, hString, hEnds⟩
  have hIn := hFramed.readIdx_le
  have hEnds' := hEnds.mono hFramed.checkedIdx_le
  refine ⟨k, hP, ?_, ?_⟩
  · rw [stringAt_receive hIn hEnds' bytes]
    exact hString
  · rcases hEnds with ⟨e, hFrom, hTo, hNul⟩
    refine ⟨e, hFrom, hTo, ?_⟩
    have hOld := hFramed.checkedIdx_le
    rw [(agree_receive hIn bytes).getElem? (by omega)]
    exact hNul

/- A scan leaves the state, and the strings in front of it. -/
theorem checkState_parseLine
    {c c' : HttpParser}
    {status : LineStatus}
    (hFramed : c.Framed)
    (hLine : c.parseLine = (status, c')) :
    c'.checkState = c.checkState := by
  by_cases hOk : status = .lineOk
  · subst hOk
    exact (LineReady.parseLine hFramed hLine).2.2.2
  · rcases parseLine_not_ok hFramed hLine hOk with
      ⟨k, _, _, _, _, rfl⟩
    rfl

theorem PointsAt.parseLine
    {c c' : HttpParser}
    {status : LineStatus}
    {text : Bytes}
    (h : c.PointsAt c.url text)
    (hFramed : c.Framed)
    (hLine : c.parseLine = (status, c')) :
    c'.PointsAt c'.url text := by
  by_cases hOk : status = .lineOk
  · subst hOk
    rcases parseLine_ok hFramed hLine with ⟨k, hEnds, rfl⟩
    exact h.lineEnded hEnds.from_le
  · rcases parseLine_not_ok hFramed hLine hOk with
      ⟨k, hFrom, _, _, _, rfl⟩
    rcases h with ⟨j, hUrl, hString, hEnds⟩
    exact ⟨j, hUrl, hString, hEnds.mono hFrom⟩

/- Behind the request line, no turn moves the URL. -/
theorem PointsAt.handleLineWith
    {c : HttpParser}
    {content : HttpCode}
    {fs : FileSystem}
    {status : LineStatus}
    {turn : Turn}
    {text : Bytes}
    (h : c.PointsAt c.url text)
    (hBehind : c.checkState ≠ .requestLine)
    (hLine : c.checkState ≠ .content → c.LineReady)
    (hTurn :
      c.handleLineWith content fs status = .ok turn) :
    turn.conn.checkState ≠ .requestLine ∧
      turn.conn.PointsAt turn.conn.url text := by
  unfold HttpParser.handleLineWith at hTurn
  by_cases hContent : c.checkState = .content
  · rw [if_pos hContent] at hTurn
    split_ifs at hTurn with hGet
    · rcases c.startNextLine.doRequest_cases fs with
        ⟨_, hFault⟩ |
          ⟨code, realFile, fileStat, fileAddress, hDone⟩
      · rw [hFault] at hTurn
        cases hTurn
      · rw [hDone] at hTurn
        cases hTurn
        exact ⟨hBehind, h⟩
    · cases hTurn
      exact ⟨hBehind, h⟩
  · rw [if_neg hContent] at hTurn
    have hState : c.checkState = .header := by
      cases hState : c.checkState with
      | requestLine => exact absurd hState hBehind
      | header => rfl
      | content => exact absurd hState hContent
    rcases
      handleLine_header (hLine hContent) hState fs status with
      ⟨_, _, hGoes⟩ |
        ⟨_, _, ⟨_, hFault⟩ |
          ⟨code, realFile, fileStat, fileAddress, hEnd⟩⟩ |
        ⟨_, linger, n, host, _, _, hGoes⟩
    · rw [hGoes] at hTurn
      cases hTurn
      exact ⟨CheckState.noConfusion, h⟩
    · rw [hFault] at hTurn
      cases hTurn
    · rw [hEnd] at hTurn
      cases hTurn
      exact ⟨hBehind, h⟩
    · rw [hGoes] at hTurn
      cases hTurn
      exact ⟨hBehind, h⟩

end HttpParser

namespace ReadRun

/- The request line was read, and asked for that path. -/
structure Keeps
    (path : Bytes)
    (s : ReadRun) : Prop where
  sound : s.Sound
  behind : s.conn.checkState ≠ .requestLine
  url : s.conn.PointsAt s.conn.url path

/- What every step within a request keeps. -/
theorem Keeps.step
    {path : Bytes}
    {s t : ReadRun}
    {e : ReadEvent}
    (h : s.Keeps path)
    (hEnabled : requestMachine.enabled s e)
    (hStep : requestMachine.step s e = some t) :
    t.Keeps path := by
  suffices hKept :
      t.conn.checkState ≠ .requestLine ∧
        t.conn.PointsAt t.conn.url path from
    ⟨h.sound.step hEnabled.1 hStep, hKept.1, hKept.2⟩
  cases e with
  | init => exact absurd rfl hEnabled.2
  | read =>
      cases hStep
      unfold ReadRun.read
      split_ifs
      · exact ⟨h.behind, h.url⟩
      · exact ⟨h.behind, h.url⟩
  | recv res =>
      cases hStep
      cases res with
      | bytes data =>
          exact
            ⟨h.behind, h.url.receive h.sound.framed data⟩
      | eagain => exact ⟨h.behind, h.url⟩
      | closed => exact ⟨h.behind, h.url⟩
      | error => exact ⟨h.behind, h.url⟩
  | processRead =>
      cases hStep
      exact ⟨h.behind, h.url⟩
  | parseLine =>
      rcases step_parseLine hStep with ⟨status, rfl⟩
      rcases s.parseLine_cases status with
        ⟨_, hSame⟩ | ⟨found, conn, hLine, hScan⟩
      · rw [hSame]
        exact ⟨h.behind, h.url⟩
      · have hUrl := h.url.parseLine h.sound.framed hLine
        have hState : conn.checkState ≠ .requestLine := by
          rw [HttpParser.checkState_parseLine
            h.sound.framed hLine]
          exact h.behind
        rw [hScan]
        split_ifs
        · exact ⟨hState, hUrl⟩
        · exact ⟨hState, hUrl⟩
  | handleLine fs content =>
      rcases step_handleLine hStep with
        ⟨status, hPhase, hBody⟩
      rcases handleLine_cases hBody with ⟨turn, hTurn, hConn, _⟩
      rw [hConn]
      exact
        h.url.handleLineWith h.behind
          (h.sound.line status hPhase) hTurn

end ReadRun

end V2

end WebServer

------------------------------------------------------------
-- The File That The URL Names
------------------------------------------------------------

namespace WebServer

namespace V2

open LexicalPath HttpParser

/-
  Whatever the files are, `do_request` opens none but that
  at `doc_root` followed by the path, and its normal form
  lies in `doc_root`.
-/
def ReadRun.OpensOnly
    (path : Bytes)
    (s : ReadRun) : Prop :=
  ∀ fs opened,
    s.conn.Opens fs opened →
      opened = docRoot ++ path ∧ Inside docRoot opened

/- The URL that an accepted request line leaves. -/
theorem keeps_of_accepted
    {s : ReadRun}
    {status : LineStatus}
    {c : HttpParser}
    {url : Nat}
    (h : s.Sound)
    (hLine : s.phase = .atLine status)
    (hState : s.conn.checkState = .requestLine)
    (hAccepted :
      s.conn.startNextLine.parseRequestLine
          s.conn.getLine =
        .ok (.noRequest, c))
    (hUrl : c.url = some url) :
    (c.stringAt url).head? = some 47 ∧
      ReadRun.Keeps (c.stringAt url)
        ⟨c, .atLoop status⟩ := by
  have hReady : s.conn.LineReady := by
    apply h.line status hLine
    rw [hState]
    exact CheckState.noConfusion
  have hFramed := hReady.framed.startNextLine
  have hText :
      CString.Ends s.conn.startNextLine.readBuffer
        s.conn.getLine s.conn.startNextLine.checkedIdx :=
    hReady.ends
  have hAsks := parseRequestLine_asks hText hAccepted
  rcases parseRequestLine_cases hFramed hText with
    ⟨_, hFault⟩ | ⟨r, hCall, hParsed⟩
  · rw [hAccepted] at hFault
    cases hFault
  · rw [hAccepted] at hCall
    cases hCall
    have hHeader : c.checkState = .header := by
      rcases hParsed.ends with hBad | ⟨_, hHeader, _⟩
      · cases hBad
      · exact hHeader
    cases hPath :
        requestPath
          (s.conn.startNextLine.stringAt s.conn.getLine) with
    | none =>
        rw [hPath] at hAsks
        cases hAsks
    | some path =>
        rw [hPath] at hAsks
        rcases hAsks.2 with ⟨k, hSome, hString, hEnds⟩
        rw [hUrl] at hSome
        cases hSome
        rcases requestPath_eq_some_iff.mp hPath with
          ⟨_, _, _, _, hRest⟩
        rcases versionedPath_eq_some_iff.mp hRest with
          ⟨_, _, _, _, hTarget⟩
        rw [hString]
        refine ⟨(targetPath_eq_some_iff.mp hTarget).2, ?_⟩
        refine ⟨⟨hParsed.framed, ?_, nofun⟩, ?_, ?_⟩
        · exact hParsed.marks.length.trans h.size
        · rw [hHeader]
          exact CheckState.noConfusion
        · exact ⟨url, hUrl, hString, hEnds⟩

/-
  Where the path fits and its file lies in `doc_root`, no
  other file is opened.
-/
theorem opensOnly_of_keeps
    {path : Bytes}
    {s : ReadRun}
    (h : s.Keeps path)
    (hFits : path.length ≤ filenameLen - docRoot.length - 1)
    (hInside : Inside docRoot (docRoot ++ path)) :
    s.OpensOnly path := by
  intro fs opened hOpens
  have hName := ((opens_iff h.url fs).mp hOpens).2
  rw [hName, (realPath_eq_iff path).mpr hFits]
  exact ⟨rfl, hInside⟩

/-
  In every run, after every request line that is accepted
  and until `init` is called again, `do_request` opens only
  the file that the URL names, and that lies in `doc_root`,
  if and only if the path fits behind `doc_root` and returns
  to the directories of it that it climbs out of.
-/
theorem opens_named_file_iff
    {conn c : HttpParser}
    {es : List ReadEvent}
    {s : ReadRun}
    {status : LineStatus}
    {url : Nat}
    (hRun : readMachine.Reaches (.start conn) es s)
    (hLine : s.phase = .atLine status)
    (hState : s.conn.checkState = .requestLine)
    (hAccepted :
      s.conn.startNextLine.parseRequestLine
          s.conn.getLine =
        .ok (.noRequest, c))
    (hUrl : c.url = some url) :
    (∀ es',
        requestMachine.Always
          (ReadRun.OpensOnly (c.stringAt url))
          ⟨c, .atLoop status⟩ es') ↔
      (c.stringAt url).length ≤
          filenameLen - docRoot.length - 1 ∧
        ReturnsTo (c.stringAt url) := by
  rcases
    keeps_of_accepted (ReadRun.sound_of_reaches hRun) hLine
      hState hAccepted hUrl with
    ⟨hSlash, hKeeps⟩
  rw [← inside_docRoot_iff hSlash]
  constructor
  · intro hAll
    have hOpens :
        c.Opens oneFile (realPath (c.stringAt url)) :=
      (opens_iff hKeeps.url oneFile).mpr ⟨rfl, rfl⟩
    rcases (hAll []) oneFile _ hOpens with
      ⟨hName, hInside⟩
    rw [hName] at hInside
    exact ⟨(realPath_eq_iff _).mp hName, hInside⟩
  · rintro ⟨hFits, hInside⟩ es'
    have hAlways :=
      Machine.always_of_preserved
        (fun _ _ _ h hEnabled hStep =>
          ReadRun.Keeps.step h hEnabled hStep)
        hKeeps es'
    exact
      hAlways.mono fun s' h =>
        opensOnly_of_keeps h hFits hInside

/- The line of a page. -/
theorem opens_named_file_iff_page :
    ∃ c,
      pageLine.conn.startNextLine.parseRequestLine
          pageLine.conn.getLine =
          .ok (.noRequest, c) ∧
        ((∀ es',
            requestMachine.Always
              (ReadRun.OpensOnly (c.stringAt 4))
              ⟨c, .atLoop .lineOk⟩ es') ↔
          (c.stringAt 4).length ≤
              filenameLen - docRoot.length - 1 ∧
            ReturnsTo (c.stringAt 4)) := by
  obtain ⟨c, hCall, hUrl⟩ :
      ∃ c,
        pageLine.conn.startNextLine.parseRequestLine
            pageLine.conn.getLine =
            .ok (.noRequest, c) ∧
          c.url = some 4 := by
    have hRead :
        (pageLine.conn.startNextLine.parseRequestLine
            pageLine.conn.getLine).map
              (fun r => (r.1, r.2.url)) =
          .ok (.noRequest, some 4) := by
      decide +kernel
    cases hCall :
        pageLine.conn.startNextLine.parseRequestLine
          pageLine.conn.getLine with
    | error f =>
        rw [hCall] at hRead
        cases hRead
    | ok r =>
        rw [hCall] at hRead
        simp only [Except.map, Except.ok.injEq,
          Prod.mk.injEq] at hRead
        exact ⟨r.2, by rw [← hRead.1], hRead.2⟩
  exact
    ⟨c, hCall,
      opens_named_file_iff
        (lineRead_reaches (by decide) (by decide))
        (show pageLine.phase = .atLine .lineOk by
          decide +kernel)
        (by decide +kernel) hCall hUrl⟩

/- A request for a path. -/
def askFor
    (path : Bytes) : Bytes :=
  utf8 "GET " ++ path ++ utf8 " HTTP/1.1\r\n\r\n"

/- A path that is longer than there is room for. -/
def longPath : Bytes := 47 :: List.replicate 171 97

/- One file is outside of the root, one has another name. -/
theorem opens_other_files :
    ((unusedParser.init.receive
        (askFor (utf8 "/../a"))).processRead oneFile).map
          (fun r => (r.1, r.2.realFile)) =
        .ok (.fileRequest, docRoot ++ utf8 "/../a") ∧
      ¬ Inside docRoot (docRoot ++ utf8 "/../a") ∧
      ((unusedParser.init.receive
          (askFor longPath)).processRead oneFile).map
            (fun r => (r.1, r.2.realFile)) =
          .ok (.fileRequest, docRoot ++ longPath.dropLast) ∧
      docRoot ++ longPath.dropLast ≠ docRoot ++ longPath := by
  decide +kernel

end V2

end WebServer
