import WebServer.Library.LexicalPath
import WebServer.V3.Net.LineGrammar
import WebServer.V3.Net.ResponseFraming
import WebServer.V3.Net.ResponseOrder

/-
  The names that version 3.0 looks up for its clients.

  `parseURI` takes the slash off the path of a request line
  and cuts it at a question mark, and `analysisRequest`
  gives the rest to `stat` and `open`. Nothing is done about
  a second slash or about double dots, so the name may lead
  out of the directory the server runs in.

  Key definitions include:
    * `HttpData.statPath`
    * `askedPath`
    * `Conn.LooksUp`

  Key theorems include:
    * `Conn.analysisRequest_congr`
    * `HttpData.targetName_asked`
    * `HttpData.statPath_confined_iff`
    * `Conn.looksUp_iff`
    * `Conn.lookups_confined_iff`
-/

------------------------------------------------------------
-- The Path That Is Looked Up
------------------------------------------------------------

namespace WebServer

namespace V3

open StdString LexicalPath

/- What `stat` and `open` are given. -/
def HttpData.statPath
    (d : HttpData) : Bytes :=
  cStr d.fileName

/- Two file systems answer alike for a path. -/
structure FileSystem.AgreeAt
    (fs fs' : FileSystem)
    (path : Bytes) : Prop where
  stat : fs.stat path = fs'.stat path
  opens : fs.openRdonly path = fs'.openRdonly path
  mapped : ∀ size, fs.mmap path size = fs'.mmap path size

/- No other path is looked up. -/
theorem Conn.analysisRequest_congr
    {c : Conn}
    {fs fs' : FileSystem}
    (h : fs.AgreeAt fs' c.http.statPath) :
    c.analysisRequest fs = c.analysisRequest fs' := by
  by_cases hPost : c.http.method = .post
  · simp only [analysisRequest, hPost, if_true]
  · rcases c.http.fileType_ok with ⟨mime, _, hType⟩
    rcases analysisRequest_of_type hPost hType with
      ⟨keepAlive, hCall⟩
    rw [hCall, hCall]
    unfold serveName
    have hName :
        (c.analysed.answered keepAlive
            c.http.outBuffer).http.fileName =
          c.http.fileName := rfl
    have hStat := h.stat
    have hOpens := h.opens
    have hMapped := h.mapped
    unfold HttpData.statPath at hStat hOpens hMapped
    simp only [serveFile, hName, hStat, hOpens, hMapped]

/- The bytes that end a path are blank, `?` and NUL. -/
def askedByte
    (b : Byte) : Bool :=
  b != 32 && b != 63 && b != 0

/-
  The path that a request line asks for: what is behind the
  first slash after the name of the method, up to a blank, a
  question mark or a NUL.
-/
def askedPath
    (line : Bytes) : Bytes :=
  match HttpData.findMethod line with
  | none => []
  | some (_, pos) =>
      (((line.drop pos).dropWhile (· != 47)).drop
        1).takeWhile askedByte

end V3

end WebServer

------------------------------------------------------------
-- The Name Of A Request Line
------------------------------------------------------------

namespace WebServer

namespace V3

open StdString LexicalPath

/- A front without stops, and a stop behind it. -/
theorem takeWhile_of_stop
    {p : Byte → Bool}
    {front : Bytes}
    {stop : Byte}
    (hStop : p stop = false)
    (after : Bytes) :
    (front ++ stop :: after).takeWhile p =
      front.takeWhile p := by
  induction front with
  | nil => simp [hStop]
  | cons b front ih =>
      simp only [List.cons_append, List.takeWhile_cons, ih]

/- In a text without blanks only the other stops count. -/
theorem cStr_takeWhile
    {text : Bytes}
    (hText : 32 ∉ text) :
    cStr (text.takeWhile (· != 63)) =
      text.takeWhile askedByte := by
  unfold cStr
  induction text with
  | nil => rfl
  | cons b text ih =>
      rw [List.mem_cons, not_or] at hText
      have hBlank : (b != 32) = true := by
        simpa using fun hEq => hText.1 hEq.symm
      by_cases hMark : b = 63
      · subst hMark
        rfl
      · have hKeep : (b != 63) = true := by simpa using hMark
        by_cases hNul : b = 0
        · subst hNul
          rfl
        · have hByte : (b != 0) = true := by simpa using hNul
          simp only [List.takeWhile_cons, askedByte, hBlank,
            hKeep, hByte, Bool.and_self, if_true, ih hText.2]

/- The path asked for is behind the slash found. -/
theorem askedPath_of_slash
    {line : Bytes}
    {method : HttpMethod}
    {pos slash : Nat}
    (hMethod :
      HttpData.findMethod line = some (method, pos))
    (hSlash : findChar line 47 pos = some slash) :
    askedPath line =
      (line.drop (slash + 1)).takeWhile askedByte := by
  unfold askedPath
  rw [hMethod]
  simp only
  rw [dropWhile_of_findChar hSlash]
  rfl

theorem askedPath_of_no_slash
    {line : Bytes}
    {method : HttpMethod}
    {pos : Nat}
    (hMethod :
      HttpData.findMethod line = some (method, pos))
    (hSlash : findChar line 47 pos = none) :
    askedPath line = [] := by
  unfold askedPath
  rw [hMethod]
  simp only
  rw [dropWhile_of_findChar_none hSlash]
  rfl

/-
  A blank found behind a slash: what is between the two, and
  the path that stops there.
-/
theorem exists_target_of_blank
    {line : Bytes}
    {slash blank : Nat}
    (hAt : line.drop slash = 47 :: line.drop (slash + 1))
    (hBlank : findChar line 32 slash = some blank) :
    ∃ target : Bytes,
      line.drop (slash + 1) =
          target ++ 32 :: line.drop (blank + 1) ∧
        32 ∉ target ∧
        blank = slash + (target.length + 1) ∧
        (line.drop (slash + 1)).takeWhile askedByte =
          target.takeWhile askedByte := by
  rcases findChar_split hBlank with
    ⟨target, hSplit, hTarget, hPlace⟩
  rw [hAt] at hSplit
  cases target with
  | nil => cases (List.cons.inj hSplit).1
  | cons b target =>
      have hRest :
          line.drop (slash + 1) =
            target ++ 32 :: line.drop (blank + 1) :=
        (List.cons.inj hSplit).2
      rw [List.mem_cons, not_or] at hTarget
      rw [List.length_cons] at hPlace
      have hStop : askedByte 32 = false := rfl
      refine ⟨target, hRest, hTarget.2, hPlace, ?_⟩
      rw [hRest, takeWhile_of_stop hStop]

namespace HttpData

/-
  The name kept of a line: the path that it asks for, up to
  a NUL, or `index.html` where it asks for none.
-/
theorem targetName_asked
    {line name : Bytes}
    {method : HttpMethod}
    {pos : Nat}
    (hMethod : findMethod line = some (method, pos))
    (hName :
      targetName line (findSlash line (some pos))
          (findBlank line (findSlash line (some pos))) =
        .ok name) :
    cStr name = askedPath line ∨
      name = utf8 "index.html" ∧ askedPath line = [] := by
  have hSlashFound :
      findSlash line (some pos) = findChar line 47 pos := rfl
  cases hSlash : findChar line 47 pos with
  | none =>
      rw [hSlashFound, hSlash] at hName
      cases hName
      exact .inr ⟨rfl, askedPath_of_no_slash hMethod hSlash⟩
  | some slash =>
      rw [hSlashFound, hSlash] at hName
      rw [askedPath_of_slash hMethod hSlash]
      have hSmall : slash + 1 ≤ line.length :=
        findChar_lt hSlash
      have hAt := drop_of_findChar hSlash
      have hBlankFound :
          findBlank line (some slash) =
            findChar line 32 slash := rfl
      rw [hBlankFound] at hName
      cases hBlank : findChar line 32 slash with
      | none =>
          left
          have hNone := not_mem_drop_of_findChar hBlank
          rw [hAt, List.mem_cons, not_or] at hNone
          rw [hBlank] at hName
          simp only [targetName, substr_suffix hSmall] at hName
          cases hName
          exact cStr_takeWhile hNone.2
      | some blank =>
          rcases exists_target_of_blank hAt hBlank with
            ⟨target, hRest, hTarget, hPlace, hAsked⟩
          rw [hAsked]
          rw [hBlank] at hName
          by_cases hLong : blank - slash > 1
          · left
            have hSize :
                blank - slash - 1 = target.length := by
              omega
            have hCut :
                substr line (slash + 1) target.length =
                  .ok target := by
              unfold substr
              rw [if_pos hSmall, hRest, List.take_left]
            simp only [targetName, if_pos hLong, hSize,
              hCut] at hName
            cases hName
            exact cStr_takeWhile hTarget
          · right
            have hNil : target = [] := by
              apply List.eq_nil_of_length_eq_zero
              omega
            simp only [targetName, if_neg hLong] at hName
            cases hName
            exact ⟨rfl, by rw [hNil]; rfl⟩

/- What an accepted line leaves in the members. -/
theorem members_of_success
    {d d₁ d' : HttpData}
    {line : Bytes}
    (hCut : d.cutLine = .ok (line, d₁))
    (hCall : d.parseURI = .ok (.success, d')) :
    ∃ pos,
      findMethod line = some (d'.method, pos) ∧
        targetName line (findSlash line (some pos))
            (findBlank line (findSlash line (some pos))) =
          .ok d'.fileName := by
  unfold parseURI at hCall
  rw [hCut] at hCall
  simp only [bind, Except.bind, parseRequestLine] at hCall
  cases hMethod : findMethod line with
  | none =>
      rw [hMethod] at hCall
      cases hCall
  | some found =>
      rcases found with ⟨method, pos⟩
      rw [hMethod] at hCall
      simp only at hCall
      rcases targetName_ok line pos with ⟨name, hName⟩
      rcases
        versionText_ok line
          (findBlank line (findSlash line (some pos))) with
        ⟨text, hText⟩
      simp only [parseTarget, hName, hText, bind,
        Except.bind] at hCall
      cases text with
      | none => cases hCall
      | some ver =>
          simp only at hCall
          split_ifs at hCall
          · cases hCall
            exact ⟨pos, rfl, hName⟩
          · cases hCall
            exact ⟨pos, rfl, hName⟩
          · cases hCall

/-
  The name that an accepted line leaves for `stat` and
  `open` is confined exactly when the path asked for never
  climbs above its start and does not begin with another
  slash.
-/
theorem statPath_confined_iff
    {d d₁ d' : HttpData}
    {line : Bytes}
    (hCut : d.cutLine = .ok (line, d₁))
    (hCall : d.parseURI = .ok (.success, d')) :
    Confined d'.statPath ↔ StaysInside (askedPath line) := by
  rcases members_of_success hCut hCall with
    ⟨pos, hMethod, hName⟩
  rw [← confined_iff_staysInside]
  unfold statPath
  rcases targetName_asked hMethod hName with
    hAsked | ⟨hIndex, hAsked⟩
  · rw [hAsked]
  · rw [hIndex, hAsked]
    decide +kernel

end HttpData

end V3

end WebServer

------------------------------------------------------------
-- Lookups
------------------------------------------------------------

namespace WebServer

namespace V3

open StdString LexicalPath

/- Two file systems differ at most at one path. -/
def FileSystem.AgreeElsewhere
    (fs fs' : FileSystem)
    (path : Bytes) : Prop :=
  ∀ other, other ≠ path → fs.AgreeAt fs' other

namespace Conn

/-
  `analysisRequest` looks the path up: what it does depends
  on what `stat`, `open` and `mmap` answer for that path.
-/
def LooksUp
    (c : Conn)
    (path : Bytes) : Prop :=
  ∃ fs fs' : FileSystem,
    fs.AgreeElsewhere fs' path ∧
      c.analysisRequest fs ≠ c.analysisRequest fs'

/- A file that is there is served. -/
theorem serveFile_oneFile
    {c : Conn}
    {name content : Bytes}
    (hName : c.http.statPath = name)
    (header mime : Bytes) :
    (c.serveFile (oneFile name content) header mime).1 =
      .success := by
  unfold HttpData.statPath at hName
  simp only [serveFile, oneFile, hName, if_true, true_and,
    decide_true]
  split_ifs <;> rfl

/-
  The only path that is ever looked up is the name of the
  request up to a NUL. It is looked up unless the method is
  `POST` or the name is built in.
-/
theorem looksUp_iff
    {c : Conn}
    {path : Bytes} :
    c.LooksUp path ↔
      path = c.http.statPath ∧
        c.http.method ≠ .post ∧
        c.http.fileName ≠ utf8 "hello" ∧
        c.http.fileName ≠ utf8 "favicon.ico" := by
  rcases c.http.fileType_ok with ⟨mime, _, hType⟩
  constructor
  · rintro ⟨fs, fs', hElse, hDiffer⟩
    refine ⟨?_, ?_, ?_, ?_⟩
    · by_contra hOther
      exact
        hDiffer
          (analysisRequest_congr
            (hElse c.http.statPath fun hEq =>
              hOther hEq.symm))
    · intro hPost
      apply hDiffer
      simp only [analysisRequest, hPost, if_true]
    · intro hHello
      apply hDiffer
      by_cases hPost : c.http.method = .post
      · simp only [analysisRequest, hPost, if_true]
      · rcases analysisRequest_of_type hPost hType with
          ⟨keepAlive, hCall⟩
        rw [hCall, hCall]
        simp only [serveName, hHello, if_true]
    · intro hIcon
      apply hDiffer
      by_cases hPost : c.http.method = .post
      · simp only [analysisRequest, hPost, if_true]
      · rcases analysisRequest_of_type hPost hType with
          ⟨keepAlive, hCall⟩
        rw [hCall, hCall]
        have hHello : utf8 "favicon.ico" ≠ utf8 "hello" := by
          decide
        simp only [serveName, hIcon, hHello, if_false,
          if_true]
  · rintro ⟨rfl, hPost, hHello, hIcon⟩
    refine ⟨noFiles, oneFile c.http.statPath [0], ?_, ?_⟩
    · intro other hOther
      refine ⟨?_, ?_, ?_⟩
      · simp only [noFiles, oneFile, hOther, if_false]
      · simp only [noFiles, oneFile, hOther, decide_false]
      · intro size
        simp only [noFiles, oneFile, hOther, false_and,
          if_false]
    · intro hSame
      rcases analysisRequest_of_type hPost hType with
        ⟨keepAlive, hCall⟩
      rw [hCall, hCall] at hSame
      simp only [serveName, hHello, hIcon, if_false,
        Except.ok.injEq] at hSame
      -- one answers that there is no such file
      have hFlag := congrArg Prod.fst hSame
      have hName :
          (c.analysed.answered keepAlive
              c.http.outBuffer).http.statPath =
            c.http.statPath := rfl
      rw [serveFile_oneFile hName] at hFlag
      cases hFlag

/-
  For a line that `parseURI` accepts, every path that is
  looked up for it is relative and does not lead out of the
  directory of the server, if and only if the method is
  `POST`, or the path asked for does not begin with another
  slash and never climbs above its start.
-/
theorem lookups_confined_iff
    {c : Conn}
    {d d₁ d' : HttpData}
    {line : Bytes}
    (hCut : d.cutLine = .ok (line, d₁))
    (hCall : d.parseURI = .ok (.success, d'))
    (hMethod : c.http.method = d'.method)
    (hName : c.http.fileName = d'.fileName) :
    (∀ path, c.LooksUp path → Confined path) ↔
      (∃ pos,
          HttpData.findMethod line = some (.post, pos)) ∨
        StaysInside (askedPath line) := by
  have hPath : c.http.statPath = d'.statPath := by
    unfold HttpData.statPath
    rw [hName]
  have hIff := HttpData.statPath_confined_iff hCut hCall
  rcases HttpData.members_of_success hCut hCall with
    ⟨pos, hFound, _⟩
  constructor
  · intro hAll
    by_cases hPost : c.http.method = .post
    · left
      rw [hMethod] at hPost
      exact ⟨pos, by rw [hFound, hPost]⟩
    · right
      apply hIff.mp
      rw [← hPath]
      by_cases hHello : c.http.fileName = utf8 "hello"
      · unfold HttpData.statPath
        rw [hHello]
        decide +kernel
      · by_cases hIcon : c.http.fileName = utf8 "favicon.ico"
        · unfold HttpData.statPath
          rw [hIcon]
          decide +kernel
        · exact
            hAll _
              (looksUp_iff.mpr ⟨rfl, hPost, hHello, hIcon⟩)
  · intro hCond path hLooks
    rcases looksUp_iff.mp hLooks with ⟨rfl, hPost, _⟩
    rcases hCond with ⟨pos', hFound'⟩ | hStays
    · rw [hFound, Option.some.injEq, Prod.mk.injEq] at hFound'
      rw [hMethod] at hPost
      exact absurd hFound'.1 hPost
    · rw [hPath]
      exact hIff.mpr hStays

/- A parser that has one line to read. -/
def lineToRead
    (line : Bytes) : HttpData :=
  { HttpData.new with
    inBuffer := line ++ utf8 "\r\n" }

/- A line for a page. -/
theorem lookups_confined_iff_page :
    (∀ path,
        (asking (utf8 "a")).LooksUp path → Confined path) ↔
      (∃ pos,
          HttpData.findMethod (utf8 "GET /a HTTP/1.1") =
            some (.post, pos)) ∨
        StaysInside
          (askedPath (utf8 "GET /a HTTP/1.1")) :=
  lookups_confined_iff
    (d := lineToRead (utf8 "GET /a HTTP/1.1"))
    (by rfl) (by rfl) (by rfl) (by rfl)

/- Both names lead out of the directory of the server. -/
theorem lookup_leaves_directory :
    ((lineToRead
        (utf8 "GET /../etc/passwd HTTP/1.1")).parseURI).map
          (fun r => (r.1, r.2.fileName)) =
        .ok (.success, utf8 "../etc/passwd") ∧
      (asking (utf8 "../etc/passwd")).LooksUp
        (utf8 "../etc/passwd") ∧
      ¬ Confined (utf8 "../etc/passwd") ∧
      ((lineToRead
          (utf8 "GET //etc/passwd HTTP/1.1")).parseURI).map
            (fun r => (r.1, r.2.fileName)) =
          .ok (.success, utf8 "/etc/passwd") ∧
      (asking (utf8 "/etc/passwd")).LooksUp
        (utf8 "/etc/passwd") ∧
      ¬ Confined (utf8 "/etc/passwd") :=
  ⟨by decide +kernel,
    looksUp_iff.mpr
      ⟨by decide +kernel, by decide, by decide, by decide⟩,
    by decide +kernel,
    by decide +kernel,
    looksUp_iff.mpr
      ⟨by decide +kernel, by decide, by decide, by decide⟩,
    by decide +kernel⟩

end Conn

end V3

end WebServer
