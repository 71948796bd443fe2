import WebServer.V2.Http.ReadBuffer
import WebServer.V2.Http.RequestPath

/-
  The request lines that version 2.0 accepts.

  The grammar is stated on the text of a line, without
  pointers: a method, a blank, a target, a blank, a version.
  `parse_request_line` follows it on every line that has a
  blank. On a line without one it writes through the null
  pointer that the first `strpbrk` returned.

  Key definitions include:
    * `TargetOf`
    * `InGrammar`
    * `HttpParser.FollowsGrammar`
    * `lineRead`

  Key theorems include:
    * `cutBlank_eq_some_iff`
    * `inGrammar_iff`
    * `HttpParser.followsGrammar_iff`
    * `request_line_grammar_iff`
-/

------------------------------------------------------------
-- The Grammar
------------------------------------------------------------

namespace WebServer

namespace V2

/- A target: a path, in front of which a host may stand. -/
def TargetOf
    (path target : Bytes) : Prop :=
  target = path ∨
    ∃ scheme host,
      target = scheme ++ (host ++ path) ∧
        CString.strcaseEq scheme (utf8 "http://") = true ∧
        47 ∉ host

/- `GET`, a target and `HTTP/1.1` with blanks in between. -/
def InGrammar
    (line : Bytes) : Prop :=
  ∃ m w u w' v path,
    line = m ++ w :: (u ++ w' :: v) ∧
      w ∈ blanks ∧ w' ∈ blanks ∧
      (∀ b ∈ m, b ∉ blanks) ∧ (∀ b ∈ u, b ∉ blanks) ∧
      CString.strcaseEq m (utf8 "GET") = true ∧
      CString.strcaseEq v (utf8 "HTTP/1.1") = true ∧
      TargetOf path u ∧ path.head? = some 47

/- The search for a blank, one byte at a time. -/
theorem cutBlank_cons
    (b : Byte)
    (s : Bytes) :
    cutBlank (b :: s) =
      if b ∈ blanks then
        some ([], s)
      else
        (cutBlank s).map fun r => (b :: r.1, r.2) := by
  unfold cutBlank
  rw [List.findIdx?_cons]
  by_cases hBlank : b ∈ blanks
  · have hFound : blanks.contains b = true := by
      simpa using hBlank
    rw [if_pos hFound, if_pos hBlank]
    rfl
  · have hOther : ¬ blanks.contains b = true := by
      simpa using hBlank
    rw [if_neg hOther, if_neg hBlank]
    cases s.findIdx? (blanks.contains ·) with
    | none => rfl
    | some j => rfl

/- A text is cut at its first blank. -/
theorem cutBlank_eq_some_iff
    {s front back : Bytes} :
    cutBlank s = some (front, back) ↔
      ∃ w ∈ blanks,
        s = front ++ w :: back ∧ ∀ b ∈ front, b ∉ blanks := by
  induction s generalizing front with
  | nil =>
      constructor
      · intro hCut
        cases hCut
      · rintro ⟨w, _, hNil, _⟩
        cases front with
        | nil => cases hNil
        | cons b front => cases hNil
  | cons b s ih =>
      rw [cutBlank_cons]
      split_ifs with hBlank
      · constructor
        · intro hCut
          cases hCut
          exact ⟨b, hBlank, rfl, by simp⟩
        · rintro ⟨w, hW, hSplit, hFront⟩
          cases front with
          | nil =>
              cases hSplit
              rfl
          | cons b' front =>
              cases hSplit
              exact
                absurd hBlank (hFront b List.mem_cons_self)
      · constructor
        · intro hCut
          rw [Option.map_eq_some_iff] at hCut
          rcases hCut with ⟨⟨front', back'⟩, hRest, hPair⟩
          cases hPair
          rcases ih.mp hRest with ⟨w, hW, hSplit, hFront⟩
          refine ⟨w, hW, by rw [hSplit]; rfl, ?_⟩
          intro b' hMem
          rcases List.mem_cons.mp hMem with rfl | hLater
          · exact hBlank
          · exact hFront b' hLater
        · rintro ⟨w, hW, hSplit, hFront⟩
          cases front with
          | nil =>
              cases hSplit
              exact absurd hW hBlank
          | cons b' front =>
              cases hSplit
              rw [ih.mpr ⟨w, hW, rfl, fun b' hMem =>
                hFront b' (List.mem_cons_of_mem _ hMem)⟩]
              rfl

theorem strcaseEq_length
    {s t : Bytes}
    (h : CString.strcaseEq s t = true) :
    s.length = t.length := by
  unfold CString.strcaseEq at h
  have hSame := congrArg List.length (beq_iff_eq.mp h)
  rwa [List.length_map, List.length_map] at hSame

/- A text that begins with a slash has no scheme. -/
theorem not_scheme_of_slash
    {target : Bytes}
    (hSlash : target.head? = some 47) :
    ¬ CString.strncaseEq target (utf8 "http://") 7 = true := by
  intro hScheme
  cases target with
  | nil => cases hSlash
  | cons b target =>
      cases hSlash
      unfold CString.strncaseEq CString.strcaseEq at hScheme
      have hSame := beq_iff_eq.mp hScheme
      have hFirst := (List.cons.inj hSame).1
      exact absurd hFirst (by decide)

/- The path that the code finds in a target. -/
theorem targetPath_eq_some_iff
    {target path : Bytes} :
    targetPath target = some path ↔
      TargetOf path target ∧ path.head? = some 47 := by
  unfold targetPath
  by_cases hScheme :
      CString.strncaseEq target (utf8 "http://") 7 = true
  · simp only [if_pos hScheme]
    constructor
    · intro hFound
      split_ifs at hFound with hSlash
      cases hFound
      refine
        ⟨.inr ⟨target.take 7,
          (target.drop 7).takeWhile (· != 47), ?_, hScheme,
          ?_⟩, hSlash⟩
      · rw [List.takeWhile_append_dropWhile,
          List.take_append_drop]
      · intro hMem
        have hNot := List.mem_takeWhile_imp hMem
        cases hNot
    · rintro ⟨rfl | ⟨scheme, host, rfl, hSame, hHost⟩, hSlash⟩
      · exact absurd hScheme (not_scheme_of_slash hSlash)
      · have hLength : scheme.length = 7 :=
          strcaseEq_length hSame
        have hBehind :
            ((scheme ++ (host ++ path)).drop 7).dropWhile
                (· != 47) =
              path := by
          rw [← hLength, List.drop_left,
            List.dropWhile_append_of_pos]
          · cases path with
            | nil => rfl
            | cons b path =>
                cases hSlash
                rfl
          · intro b hMem
            have hOther : b ≠ 47 := by
              rintro rfl
              exact hHost hMem
            simpa using hOther
        rw [hBehind, if_pos hSlash]
  · simp only [if_neg hScheme]
    constructor
    · intro hFound
      split_ifs at hFound with hSlash
      cases hFound
      exact ⟨.inl rfl, hSlash⟩
    · rintro ⟨rfl | ⟨scheme, host, rfl, hSame, hHost⟩, hSlash⟩
      · rw [if_pos hSlash]
      · exfalso
        apply hScheme
        have hLength : scheme.length = 7 :=
          strcaseEq_length hSame
        have hTake :
            (scheme ++ (host ++ path)).take 7 = scheme :=
          List.take_left' hLength
        unfold CString.strncaseEq
        rw [hTake]
        exact hSame

/- The second cut and the version. -/
theorem versionedPath_eq_some_iff
    {rest path : Bytes} :
    versionedPath rest = some path ↔
      ∃ u v,
        cutBlank rest = some (u, v) ∧
          CString.strcaseEq v (utf8 "HTTP/1.1") = true ∧
          targetPath u = some path := by
  unfold versionedPath
  cases cutBlank rest with
  | none =>
      constructor
      · intro hFound
        cases hFound
      · rintro ⟨_, _, hNone, _⟩
        cases hNone
  | some r =>
      rcases r with ⟨u, v⟩
      simp only [Option.bind_some, bind]
      constructor
      · intro hFound
        split_ifs at hFound with hHttp
        exact ⟨u, v, rfl, hHttp, hFound⟩
      · rintro ⟨u', v', hPair, hHttp, hTarget⟩
        cases hPair
        rw [if_pos hHttp]
        exact hTarget

/- The first cut and the method. -/
theorem requestPath_eq_some_iff
    {line path : Bytes} :
    requestPath line = some path ↔
      ∃ m rest,
        cutBlank line = some (m, rest) ∧
          CString.strcaseEq m (utf8 "GET") = true ∧
          versionedPath rest = some path := by
  unfold requestPath
  cases cutBlank line with
  | none =>
      constructor
      · intro hFound
        cases hFound
      · rintro ⟨_, _, hNone, _⟩
        cases hNone
  | some r =>
      rcases r with ⟨m, rest⟩
      simp only [Option.bind_some, bind]
      constructor
      · intro hFound
        split_ifs at hFound with hGet
        exact ⟨m, rest, rfl, hGet, hFound⟩
      · rintro ⟨m', rest', hPair, hGet, hRest⟩
        cases hPair
        rw [if_pos hGet]
        exact hRest

/- A line is in the grammar when it asks for a path. -/
theorem inGrammar_iff
    (line : Bytes) :
    InGrammar line ↔ ∃ path, requestPath line = some path := by
  simp only [requestPath_eq_some_iff,
    versionedPath_eq_some_iff, cutBlank_eq_some_iff,
    targetPath_eq_some_iff]
  constructor
  · rintro ⟨m, w, u, w', v, path, hLine, hW, hW', hM, hU, hGet,
      hHttp, hTarget, hSlash⟩
    exact
      ⟨path, m, u ++ w' :: v, ⟨w, hW, hLine, hM⟩, hGet, u, v,
        ⟨w', hW', rfl, hU⟩, hHttp, hTarget, hSlash⟩
  · rintro ⟨path, m, rest, ⟨w, hW, hLine, hM⟩, hGet, u, v,
      ⟨w', hW', rfl, hU⟩, hHttp, hTarget, hSlash⟩
    exact
      ⟨m, w, u, w', v, path, hLine, hW, hW', hM, hU, hGet,
        hHttp, hTarget, hSlash⟩

end V2

end WebServer

------------------------------------------------------------
-- What The Code Accepts
------------------------------------------------------------

namespace WebServer

namespace V2

namespace HttpParser

/-
  `parse_request_line` returns. It moves on to the header
  lines exactly when the line is in the grammar, and
  otherwise answers BAD_REQUEST.
-/
def FollowsGrammar
    (c : HttpParser)
    (text : Nat) : Prop :=
  ∃ code c',
    c.parseRequestLine text = .ok (code, c') ∧
      (code = .noRequest ∧ c'.checkState = .header ↔
        InGrammar (c.stringAt text)) ∧
      (¬ InGrammar (c.stringAt text) → code = .badRequest)

/- On a line that was ended, all it takes is a blank. -/
theorem followsGrammar_iff
    {c : HttpParser}
    {text : Nat}
    (h : c.Framed)
    (hEnds :
      CString.Ends c.readBuffer text c.checkedIdx) :
    c.FollowsGrammar text ↔
      ∃ b ∈ c.stringAt text, b ∈ blanks := by
  constructor
  · rintro ⟨code, c', hCall, _⟩
    unfold parseRequestLine at hCall
    cases hFind :
        CString.strpbrk c.readBuffer text blanks with
    | none =>
        rw [hFind] at hCall
        cases hCall
    | some k => exact CString.mem_of_strpbrk hFind
  · rintro ⟨b, hMem, hBlank⟩
    rcases CString.strpbrk_isSome hMem hBlank with ⟨k, hFind⟩
    rcases parseRequestLine_cases h hEnds with
      ⟨hNull, _⟩ | ⟨⟨code, c'⟩, hCall, hParsed⟩
    · rw [hFind] at hNull
      cases hNull
    · have hAsks := parseRequestLine_asks hEnds hCall
      have hEnd := hParsed.ends
      refine ⟨code, c', hCall, ?_⟩
      rw [inGrammar_iff]
      cases hPath : requestPath (c.stringAt text) with
      | none =>
          rw [hPath] at hAsks
          have hBad : code = .badRequest := hAsks
          subst hBad
          refine ⟨iff_of_false ?_ ?_, fun _ => rfl⟩
          · rintro ⟨hNo, _⟩
            cases hNo
          · rintro ⟨path, hSome⟩
            cases hSome
      | some path =>
          rw [hPath] at hAsks
          have hGood : code = .noRequest := hAsks.1
          subst hGood
          have hHeader : c'.checkState = .header := by
            rcases hEnd with hBad | ⟨_, hHeader, _⟩
            · cases hBad
            · exact hHeader
          exact
            ⟨iff_of_true ⟨rfl, hHeader⟩ ⟨path, rfl⟩,
              fun hNot => absurd ⟨path, rfl⟩ hNot⟩

end HttpParser

end V2

end WebServer

namespace WebServer

namespace V2

open HttpParser

/-
  In every run, on every line that `parse_line` delivers
  where a request line is due, `parse_request_line` follows
  the grammar if and only if the line has a blank.
-/
theorem request_line_grammar_iff
    {conn : HttpParser}
    {es : List ReadEvent}
    {s : ReadRun}
    {status : LineStatus}
    (hRun : readMachine.Reaches (.start conn) es s)
    (hLine : s.phase = .atLine status)
    (hState : s.conn.checkState = .requestLine) :
    s.conn.startNextLine.FollowsGrammar s.conn.getLine ↔
      ∃ b ∈ s.conn.stringAt s.conn.getLine, b ∈ blanks := by
  have hSound := ReadRun.sound_of_reaches hRun
  have hReady : s.conn.LineReady := by
    apply hSound.line status hLine
    rw [hState]
    exact CheckState.noConfusion
  exact
    followsGrammar_iff hReady.framed.startNextLine hReady.ends

/- The first line of the bytes was ended. -/
def lineRead
    (bytes : Bytes) : ReadRun :=
  ReadRun.parseLine
    ⟨unusedParser.init.receive bytes, .atLoop .lineOk⟩
    .lineOk

/- The calls of `read` and `process_read` that end it. -/
theorem lineRead_reaches
    {bytes : Bytes}
    (hSome : bytes ≠ [])
    (hRoom : bytes.length ≤ readBufferSize) :
    readMachine.Reaches (.start unusedParser)
      [.read, .recv (.bytes bytes), .recv .eagain,
        .processRead, .parseLine]
      (lineRead bytes) := by
  have hRoom' : 0 + bytes.length ≤ readBufferSize := by
    rwa [Nat.zero_add]
  exact
    .cons rfl rfl
      (.cons ⟨rfl, hSome, hRoom'⟩ rfl
        (.cons rfl rfl
          (.cons rfl rfl
            (.cons ⟨.lineOk, rfl⟩ rfl (.nil _)))))

/- A line that asks for a page, and one without a blank. -/
def pageLine : ReadRun := lineRead (utf8 "GET /a HTTP/1.1\r\n")

def bareLine : ReadRun := lineRead (utf8 "GET\r\n")

theorem request_line_grammar_iff_page :
    pageLine.conn.startNextLine.FollowsGrammar
        pageLine.conn.getLine ↔
      ∃ b ∈ pageLine.conn.stringAt pageLine.conn.getLine,
        b ∈ blanks :=
  request_line_grammar_iff
    (lineRead_reaches (by decide) (by decide))
    (show pageLine.phase = .atLine .lineOk by
      decide +kernel)
    (by decide +kernel)

/- A line without a blank is not answered. -/
theorem line_without_blank :
    (∃ es,
        readMachine.Reaches (.start unusedParser) es
          bareLine) ∧
      bareLine.phase = .atLine .lineOk ∧
        bareLine.conn.checkState = .requestLine ∧
          ¬ bareLine.conn.startNextLine.FollowsGrammar
              bareLine.conn.getLine := by
  refine
    ⟨⟨_, lineRead_reaches (by decide) (by decide)⟩,
      by decide +kernel, by decide +kernel, ?_⟩
  rintro ⟨code, c', hCall, _⟩
  have hFault :
      (bareLine.conn.startNextLine.parseRequestLine
          bareLine.conn.getLine).toOption.isNone =
        true := by
    decide +kernel
  rw [hCall] at hFault
  cases hFault

end V2

end WebServer
