import WebServer.V3.Net.ResponseFraming
import WebServer.V3.Net.ResponseOrder

/-
  Which files version 3.0 serves.

  `analysisRequest` writes the header of a file from its
  size and then maps the file. `mmap` refuses a length of 0,
  so an empty file is answered like a missing one, and what
  waits to be sent is cleared.

  Key definitions include:
    * `FileSystem.HasFile`
    * `Conn.ServesFile`
    * `Conn.RepliesNotFound`

  Key theorems include:
    * `Conn.serveFile_of_hasFile`
    * `Conn.files_served_iff`
-/

------------------------------------------------------------
-- Files
------------------------------------------------------------

namespace WebServer

namespace V3

open StdString MessageFraming

/-
  The path is a readable regular file with this content, as
  `stat`, `open` and `mmap` tell: a mapping is refused only
  for the length 0.
-/
structure FileSystem.HasFile
    (fs : FileSystem)
    (path content : Bytes) : Prop where
  stat : fs.stat path = some content.length
  opens : fs.openRdonly path = true
  mapped :
    content ≠ [] →
      fs.mmap path content.length = some content
  empty : content = [] → fs.mmap path 0 = none

namespace Conn

/-
  The request succeeds and adds a header with status 200
  that gives the length of the content, and the content.
-/
def ServesFile
    (c : Conn)
    (fs : FileSystem)
    (content : Bytes) : Prop :=
  ∃ c' added lines,
    c.analysisRequest fs = .ok (.success, c') ∧
      c'.trace = c.analysed.trace ∧
      c'.http.outBuffer = c.http.outBuffer ++ added ∧
      readHead [] added = some (statusLine :: lines, content) ∧
      bodyLength false lines = some content.length

/- The request fails and is answered with one reply 404. -/
def RepliesNotFound
    (c : Conn)
    (fs : FileSystem) : Prop :=
  ∃ c',
    c.analysisRequest fs = .ok (.error, c') ∧
      c'.trace =
        c.analysed.trace ++
          [.handleError 404 (utf8 "Not Found!")]

/- A `GET` for a file that has bytes. -/
theorem serveFile_of_hasFile
    {c : Conn}
    {fs : FileSystem}
    {content : Bytes}
    (hGet : c.http.method = .get)
    (hFile : fs.HasFile (cStr c.http.fileName) content)
    (hBytes : content ≠ [])
    (header mime : Bytes) :
    c.serveFile fs header mime =
      (.success,
        c.appendOut
          (header ++ contentHeader mime content.length ++
            content)) := by
  have hHead : c.http.method ≠ .head := by
    rw [hGet]
    decide
  simp only [serveFile, hFile.stat, appendOut, hHead,
    if_false, hFile.opens, hFile.mapped hBytes, if_true,
    List.append_assoc]

/- A `GET` for an empty file clears what waits. -/
theorem serveFile_of_empty
    {c : Conn}
    {fs : FileSystem}
    (hGet : c.http.method = .get)
    (hFile : fs.HasFile (cStr c.http.fileName) [])
    (header mime : Bytes) :
    c.serveFile fs header mime =
      (.error,
        (c.setOut []).handleError 404
          (utf8 "Not Found!")) := by
  have hStat : fs.stat (cStr c.http.fileName) = some 0 :=
    hFile.stat
  have hHead : c.http.method ≠ .head := by
    rw [hGet]
    decide
  simp only [serveFile, hStat, appendOut, hHead, if_false,
    hFile.opens, hFile.empty rfl, if_true]
  rfl

/- A file that is not there. -/
theorem serveFile_of_missing
    {c : Conn}
    {fs : FileSystem}
    (hStat : fs.stat (cStr c.http.fileName) = none)
    (header mime : Bytes) :
    c.serveFile fs header mime =
      (.error, c.handleError 404 (utf8 "Not Found!")) := by
  simp only [serveFile, hStat]

/- What `GET` does for a name that is not built in. -/
theorem analysisRequest_of_file
    {c : Conn}
    (hGet : c.http.method = .get)
    (hHello : c.http.fileName ≠ utf8 "hello")
    (hIcon : c.http.fileName ≠ utf8 "favicon.ico")
    (fs : FileSystem) :
    ∃ keepAlive, ∃ mime ∈ mimeTable.map Prod.snd,
      c.analysisRequest fs =
        .ok
          ((c.analysed.answered keepAlive
            c.http.outBuffer).serveFile fs
              c.http.statusHeader mime) := by
  have hPost : c.http.method ≠ .post := by
    rw [hGet]
    decide
  rcases c.http.fileType_ok with ⟨mime, hMime, hType⟩
  rcases analysisRequest_of_type hPost hType with
    ⟨keepAlive, hCall⟩
  refine ⟨keepAlive, mime, hMime, ?_⟩
  rw [hCall]
  simp only [serveName, hHello, if_false, hIcon]

theorem servesFile_of_hasFile
    {c : Conn}
    {fs : FileSystem}
    {content : Bytes}
    (hGet : c.http.method = .get)
    (hHello : c.http.fileName ≠ utf8 "hello")
    (hIcon : c.http.fileName ≠ utf8 "favicon.ico")
    (hFile : fs.HasFile (cStr c.http.fileName) content)
    (hBytes : content ≠ []) :
    c.ServesFile fs content := by
  rcases analysisRequest_of_file hGet hHello hIcon fs with
    ⟨keepAlive, mime, hMime, hCall⟩
  have hServe :=
    serveFile_of_hasFile
      (c := c.analysed.answered keepAlive c.http.outBuffer)
      hGet hFile hBytes c.http.statusHeader mime
  rw [hServe] at hCall
  have hRead :
      readHead []
          (c.http.statusHeader ++
              contentHeader mime content.length ++
            content) =
        some
          (statusLine ::
              c.http.headLines mime content.length,
            content) := by
    rw [HttpData.header_eq, List.append_assoc]
    exact
      readHead_joinLines
        (HttpData.headLines_plain hMime content.length)
        content
  exact
    ⟨_, _, _, hCall, rfl, rfl, hRead,
      c.http.bodyLength_headLines hMime content.length false⟩

theorem not_servesFile_of_empty
    {c : Conn}
    {fs : FileSystem}
    (hGet : c.http.method = .get)
    (hHello : c.http.fileName ≠ utf8 "hello")
    (hIcon : c.http.fileName ≠ utf8 "favicon.ico")
    (hFile : fs.HasFile (cStr c.http.fileName) [])
    (content : Bytes) :
    ¬ c.ServesFile fs content := by
  rintro ⟨c', _, _, hServes, _⟩
  rcases analysisRequest_of_file hGet hHello hIcon fs with
    ⟨keepAlive, mime, _, hCall⟩
  have hServe :=
    serveFile_of_empty
      (c := c.analysed.answered keepAlive c.http.outBuffer)
      hGet hFile c.http.statusHeader mime
  rw [hServe, hServes] at hCall
  cases hCall

/-
  For a name that is not built in, a readable file is served
  with its bytes and a missing one is answered with 404, if
  and only if the name is not that of an empty file.
-/
theorem files_served_iff
    {c : Conn}
    (hGet : c.http.method = .get)
    (hHello : c.http.fileName ≠ utf8 "hello")
    (hIcon : c.http.fileName ≠ utf8 "favicon.ico")
    (fs : FileSystem) :
    ((∀ content,
        fs.HasFile (cStr c.http.fileName) content →
          c.ServesFile fs content) ∧
        (fs.stat (cStr c.http.fileName) = none →
          c.RepliesNotFound fs)) ↔
      ¬ fs.HasFile (cStr c.http.fileName) [] := by
  constructor
  · intro hServed hEmpty
    exact
      not_servesFile_of_empty hGet hHello hIcon hEmpty []
        (hServed.1 [] hEmpty)
  · intro hNot
    constructor
    · intro content hFile
      apply servesFile_of_hasFile hGet hHello hIcon hFile
      rintro rfl
      exact hNot hFile
    · intro hStat
      rcases
        analysisRequest_of_file hGet hHello hIcon fs with
        ⟨keepAlive, mime, _, hCall⟩
      have hServe :=
        serveFile_of_missing
          (c :=
            c.analysed.answered keepAlive c.http.outBuffer)
          hStat c.http.statusHeader mime
      rw [hServe] at hCall
      exact ⟨_, hCall, rfl⟩

/- One file of four bytes. -/
theorem files_served_iff_page :
    ((∀ content,
        (oneFile (utf8 "a") (utf8 "page")).HasFile
            (cStr (asking (utf8 "a")).http.fileName)
            content →
          (asking (utf8 "a")).ServesFile
            (oneFile (utf8 "a") (utf8 "page")) content) ∧
        ((oneFile (utf8 "a") (utf8 "page")).stat
            (cStr (asking (utf8 "a")).http.fileName) =
            none →
          (asking (utf8 "a")).RepliesNotFound
            (oneFile (utf8 "a") (utf8 "page")))) ↔
      ¬ (oneFile (utf8 "a") (utf8 "page")).HasFile
        (cStr (asking (utf8 "a")).http.fileName) [] :=
  files_served_iff rfl (by decide) (by decide) _

/- A directory with one file, and that is empty. -/
def oneEmptyFile
    (name : Bytes) : FileSystem where
  stat path := if path = name then some 0 else none
  openRdonly path := decide (path = name)
  mmap _ _ := none
  mmap_length := noFiles.mmap_length

/- An empty file is not served. -/
theorem empty_file_not_served :
    (oneEmptyFile (utf8 "a")).HasFile
        (cStr (asking (utf8 "a")).http.fileName) [] ∧
      ¬ (asking (utf8 "a")).ServesFile
        (oneEmptyFile (utf8 "a")) [] := by
  have hFile :
      (oneEmptyFile (utf8 "a")).HasFile
        (cStr (asking (utf8 "a")).http.fileName) [] :=
    ⟨by decide, by decide, fun hNot => absurd rfl hNot,
      fun _ => rfl⟩
  exact
    ⟨hFile,
      not_servesFile_of_empty rfl (by decide) (by decide)
        hFile []⟩

end Conn

end V3

end WebServer
