import WebServer.Library.MessageFraming
import WebServer.V3.Net.Passes

/-
  Where a client finds the end of a response of version 3.0.

  The header that `analysisRequest` writes for a file gives
  its size. The answer to `hello` has no length and takes
  the place of what waits to be sent, and the answer to
  `favicon.ico` has a body for `HEAD` as well.

  Key definitions include:
    * `Conn.AddsFramed`

  Key theorems include:
    * `HttpData.framed_header_iff`
    * `Conn.framed_response_iff`
-/

------------------------------------------------------------
-- Headers
------------------------------------------------------------

namespace WebServer

namespace V3

open StdString MessageFraming

/- The first line of every response. -/
def statusLine : Bytes :=
  utf8 "HTTP/1.1 200 OK"

namespace HttpData

/- The lines behind it. -/
def headLines
    (d : HttpData)
    (mime : Bytes)
    (size : Nat) : List Bytes :=
  (if d.asksKeepAlive then
    [utf8 "Connection: Keep-Alive",
      utf8 "Keep-Alive: timeout=300000"]
  else
    []) ++
    [utf8 "Content-Type: " ++ mime,
      utf8 "Content-Length: " ++ utf8 (toString size),
      utf8 "Server: LinYa's Web Server"]

theorem header_eq
    (d : HttpData)
    (mime : Bytes)
    (size : Nat) :
    d.statusHeader ++ contentHeader mime size =
      joinLines (statusLine :: d.headLines mime size) ++
        [13, 10] := by
  have hCrlf : utf8 "\r\n" = [13, 10] := by decide
  have hStatus :
      utf8 "HTTP/1.1 200 OK\r\n" = statusLine ++ [13, 10] := by
    decide +kernel
  have hServer :
      utf8 "Server: LinYa's Web Server\r\n" =
        utf8 "Server: LinYa's Web Server" ++ [13, 10] := by
    decide +kernel
  have hKeep :
      keepAliveHeader =
        joinLines
          [utf8 "Connection: Keep-Alive",
            utf8 "Keep-Alive: timeout=300000"] := by
    decide +kernel
  unfold statusHeader contentHeader headLines
  rw [hCrlf, hStatus, hServer]
  cases d.asksKeepAlive with
  | true => simp [hKeep, joinLines]
  | false => simp [joinLines]

end HttpData

/- A type is one of the table. -/
theorem getMime_mem
    (suffix : Bytes) :
    getMime suffix ∈ mimeTable.map Prod.snd := by
  unfold getMime
  cases hLookup : mimeTable.lookup suffix with
  | none =>
      simp only
      decide +kernel
  | some mime =>
      rcases List.lookup_eq_some_iff.mp hLookup with
        ⟨front, back, hTable, _⟩
      rw [hTable]
      simp

/- The lines of a header are lines. -/
theorem HttpData.headLines_plain
    {d : HttpData}
    {mime : Bytes}
    (hMime : mime ∈ mimeTable.map Prod.snd)
    (size : Nat) :
    ∀ line ∈ statusLine :: d.headLines mime size,
      line ≠ [] ∧ 13 ∉ line := by
  have hTypes : ∀ mime ∈ mimeTable.map Prod.snd,
      utf8 "Content-Type: " ++ mime ≠ [] ∧
        13 ∉ utf8 "Content-Type: " ++ mime := by
    decide +kernel
  have hDigits : 13 ∉ utf8 (toString size) := by
    intro hMem
    have hDigit := isDigit_of_mem_toString hMem
    exact absurd hDigit (by decide)
  have hLength :
      utf8 "Content-Length: " ++ utf8 (toString size) ≠ [] ∧
        13 ∉ utf8 "Content-Length: " ++
          utf8 (toString size) := by
    constructor
    · rw [ne_eq, List.append_eq_nil_iff, not_and_or]
      exact .inl (by decide)
    · rw [List.mem_append, not_or]
      exact ⟨by decide, hDigits⟩
  have hFixed : ∀ line ∈
      [statusLine, utf8 "Connection: Keep-Alive",
        utf8 "Keep-Alive: timeout=300000",
        utf8 "Server: LinYa's Web Server"],
      line ≠ [] ∧ 13 ∉ line := by
    decide +kernel
  simp only [List.forall_mem_cons] at hFixed
  rcases hFixed with ⟨hStatus, hKeep, hTimeout, hServer, _⟩
  have hRest : ∀ line ∈
      [utf8 "Content-Type: " ++ mime,
        utf8 "Content-Length: " ++ utf8 (toString size),
        utf8 "Server: LinYa's Web Server"],
      line ≠ [] ∧ 13 ∉ line := by
    simp only [List.forall_mem_cons]
    exact ⟨hTypes mime hMime, hLength, hServer, nofun⟩
  rw [List.forall_mem_cons]
  refine ⟨hStatus, ?_⟩
  unfold headLines
  rw [List.forall_mem_append]
  refine ⟨?_, hRest⟩
  split_ifs
  · rw [List.forall_mem_cons, List.forall_mem_cons]
    exact ⟨hKeep, hTimeout, nofun⟩
  · exact nofun

/- One line gives the length, and it gives the size. -/
theorem HttpData.bodyLength_headLines
    {mime : Bytes}
    (hMime : mime ∈ mimeTable.map Prod.snd)
    (d : HttpData)
    (size : Nat)
    (bodiless : Bool) :
    bodyLength bodiless (d.headLines mime size) =
      some (if bodiless then 0 else size) := by
  have hTypes : ∀ mime ∈ mimeTable.map Prod.snd,
      contentLength (utf8 "Content-Type: " ++ mime) =
        none := by
    decide +kernel
  have hKeep :
      [utf8 "Connection: Keep-Alive",
        utf8 "Keep-Alive: timeout=300000"].filterMap
          contentLength =
        [] := by
    decide +kernel
  have hServer :
      contentLength (utf8 "Server: LinYa's Web Server") =
        none := by
    decide +kernel
  have hLength :
      contentLength
          (utf8 "Content-Length: " ++ utf8 (toString size)) =
        some (utf8 (toString size)) := by
    have hName :
        utf8 "Content-Length: " =
          utf8 "Content-Length:" ++ [32] := by
      decide
    rw [hName, List.append_assoc]
    exact contentLength_field (by decide) size
  have hLines :
      (d.headLines mime size).filterMap contentLength =
        [utf8 (toString size)] := by
    unfold headLines
    rw [List.filterMap_append, List.filterMap_cons_none
      (hTypes mime hMime),
      List.filterMap_cons_some hLength,
      List.filterMap_cons_none hServer, List.filterMap_nil]
    split_ifs
    · rw [hKeep]
      rfl
    · rfl
  unfold bodyLength
  rw [hLines]
  simp only
  rw [show numeral (utf8 (toString size)) = some size from
    numeral_toString size]
  rfl

/-
  A header for a file and a body are framed when the body is
  as long as the file, or absent where it should be.
-/
theorem HttpData.framed_header_iff
    {mime : Bytes}
    (hMime : mime ∈ mimeTable.map Prod.snd)
    (d : HttpData)
    (size : Nat)
    (bodiless : Bool)
    (body : Bytes) :
    Framed bodiless statusLine
        (d.statusHeader ++ contentHeader mime size ++ body) ↔
      body.length = if bodiless then 0 else size := by
  have hRead :
      readHead []
          (d.statusHeader ++ contentHeader mime size ++
            body) =
        some (statusLine :: d.headLines mime size, body) := by
    rw [header_eq, List.append_assoc]
    exact readHead_joinLines (headLines_plain hMime size) body
  have hLength := d.bodyLength_headLines hMime size bodiless
  constructor
  · rintro ⟨lines, body', hRead', hLength'⟩
    rw [hRead] at hRead'
    cases hRead'
    rw [hLength] at hLength'
    exact (Option.some.inj hLength').symm
  · intro hBody
    exact ⟨_, body, hRead, by rw [hLength, hBody]⟩

/- No end of the answer to `hello` has a length. -/
theorem not_framed_hello
    {bodiless : Bool}
    {before response : Bytes}
    (hHello : helloResponse = before ++ response) :
    ¬ Framed bodiless statusLine response := by
  rintro ⟨lines, body, hRead, hLength⟩
  have hDrop : response = helloResponse.drop before.length :=
    by
    rw [hHello, List.drop_left]
  have hSmall :
      before.length < helloResponse.length + 1 := by
    rw [hHello, List.length_append]
    omega
  have hNone : ∀ k < helloResponse.length + 1,
      ((readHead [] (helloResponse.drop k)).map fun out =>
          out.1.tail.filterMap contentLength).getD [] =
        [] := by
    decide +kernel
  have hNo := hNone before.length hSmall
  rw [← hDrop, hRead, Option.map_some, Option.getD_some,
    List.tail_cons] at hNo
  rw [bodyLength, hNo] at hLength
  cases hLength

end V3

end WebServer

------------------------------------------------------------
-- Responses
------------------------------------------------------------

namespace WebServer

namespace V3

open StdString MessageFraming

/- Every type is one of the table. -/
theorem HttpData.fileType_mem
    {d : HttpData}
    {mime : Bytes}
    (hType : d.fileType = .ok mime) :
    mime ∈ mimeTable.map Prod.snd := by
  unfold fileType at hType
  split_ifs at hType
  · cases hType
    exact getMime_mem _
  · cases hCut :
        substr d.fileName d.dotPos.toNat
          d.fileName.length with
    | error f =>
        rw [hCut] at hType
        cases hType
    | ok suffix =>
        rw [hCut] at hType
        cases hType
        exact getMime_mem _

/- A type is always found. -/
theorem HttpData.fileType_ok
    (d : HttpData) :
    ∃ mime ∈ mimeTable.map Prod.snd,
      d.fileType = .ok mime := by
  rcases Conn.fileType_ok d with ⟨mime, hType⟩
  exact ⟨mime, fileType_mem hType, hType⟩

namespace Conn

/-
  What was added to the output is one response that a client
  finds the end of.
-/
def AddsFramed
    (c c' : Conn) : Prop :=
  ∃ response,
    c'.http.outBuffer = c.http.outBuffer ++ response ∧
      Framed (c.http.method = .head) statusLine response

/- A file that is answered: a header, and its bytes for `GET`. -/
theorem serveFile_success
    {c c' : Conn}
    {fs : FileSystem}
    {header mime : Bytes}
    (h : c.serveFile fs header mime = (.success, c')) :
    ∃ size body,
      c'.http.outBuffer =
          c.http.outBuffer ++
            (header ++ contentHeader mime size ++ body) ∧
        body.length =
          if c.http.method = .head then 0 else size := by
  cases hStat : fs.stat (cStr c.http.fileName) with
  | none =>
      simp only [serveFile, hStat] at h
      cases h
  | some size =>
      by_cases hHead : c.http.method = .head
      · have hServe :
            c.serveFile fs header mime =
              (.success,
                c.appendOut
                  (header ++ contentHeader mime size)) := by
          simp only [serveFile, hStat]
          exact if_pos hHead
        rw [hServe] at h
        cases h
        refine ⟨size, [], ?_, ?_⟩
        · rw [List.append_nil]
          rfl
        · rw [if_pos hHead]
          rfl
      · simp only [serveFile, hStat, appendOut, hHead,
          if_false] at h
        by_cases hOpen : fs.openRdonly (cStr c.http.fileName)
        · simp only [hOpen, if_true] at h
          cases hMap :
              fs.mmap (cStr c.http.fileName) size with
          | none =>
              rw [hMap] at h
              cases h
          | some bytes =>
              rw [hMap] at h
              cases h
              refine ⟨size, bytes, ?_, ?_⟩
              · simp only [List.append_assoc]
              · rw [if_neg hHead]
                exact fs.mmap_length _ _ _ hMap
        · simp only [hOpen] at h
          cases h

/- The type of a name is looked up with its dot as `int`. -/
theorem analysisRequest_of_type
    {c : Conn}
    {mime : Bytes}
    (hPost : c.http.method ≠ .post)
    (hType : c.http.fileType = .ok mime) :
    ∃ keepAlive, ∀ fs,
      c.analysisRequest fs =
        .ok (c.serveName keepAlive mime fs) := by
  unfold serveName
  cases hAsks : c.http.asksKeepAlive with
  | true =>
      refine ⟨true, fun fs => ?_⟩
      have hType' :
          { c.http with keepAlive := true }.fileType =
            .ok mime := hType
      simp only [analysisRequest, if_neg hPost, hAsks,
        if_true, hType', bind, Except.bind]
      split_ifs <;> rfl
  | false =>
      refine ⟨c.http.keepAlive, fun fs => ?_⟩
      simp only [analysisRequest, if_neg hPost, hAsks,
        Bool.false_eq_true, if_false, hType, bind,
        Except.bind]
      split_ifs <;> rfl

/-
  A request that succeeds adds a framed response, unless it
  is for `hello`, or a `HEAD` request for `favicon.ico`.
-/
theorem framed_response_iff
    {c c' : Conn}
    {fs : FileSystem}
    (h : c.analysisRequest fs = .ok (.success, c')) :
    c.AddsFramed c' ↔
      c.http.fileName ≠ utf8 "hello" ∧
        ¬ (c.http.method = .head ∧
          c.http.fileName = utf8 "favicon.ico") := by
  have hPost : c.http.method ≠ .post := by
    intro hPost
    simp only [analysisRequest, hPost, if_true] at h
    cases h
  rcases c.http.fileType_ok with ⟨mime, hMime, hType⟩
  rcases analysisRequest_of_type hPost hType with
    ⟨keepAlive, hCall⟩
  rw [hCall] at h
  unfold serveName at h
  by_cases hHello : c.http.fileName = utf8 "hello"
  · rw [if_pos hHello] at h
    cases h
    constructor
    · rintro ⟨response, hAdded, hFramed⟩
      exact absurd hFramed (not_framed_hello hAdded)
    · exact fun hNot => absurd hHello hNot.1
  · rw [if_neg hHello] at h
    by_cases hIcon : c.http.fileName = utf8 "favicon.ico"
    · rw [if_pos hIcon] at h
      cases h
      have hPng :
          utf8 "image/png" ∈ mimeTable.map Prod.snd := by
        decide +kernel
      constructor
      · rintro ⟨response, hAdded, hFramed⟩
        refine ⟨hHello, fun hHead => ?_⟩
        have hSame :
            response =
              c.http.statusHeader ++
                contentHeader (utf8 "image/png")
                  favicon.length ++
                favicon := by
          apply List.append_cancel_left
          exact hAdded.symm
        rw [hSame, HttpData.framed_header_iff hPng,
          hHead.1] at hFramed
        exact absurd hFramed (by decide +kernel)
      · rintro ⟨_, hNot⟩
        have hHead : c.http.method ≠ .head :=
          fun hHead => hNot ⟨hHead, hIcon⟩
        refine
          ⟨c.http.statusHeader ++
              contentHeader (utf8 "image/png")
                favicon.length ++
              favicon, rfl, ?_⟩
        rw [HttpData.framed_header_iff hPng]
        simp [hHead]
    · rw [if_neg hIcon] at h
      rcases serveFile_success (Except.ok.inj h) with
        ⟨size, body, hAdded, hBody⟩
      refine
        ⟨fun _ => ⟨hHello, fun hNot => hIcon hNot.2⟩,
          fun _ => ⟨_, hAdded, ?_⟩⟩
      rw [HttpData.framed_header_iff hMime, hBody]
      by_cases hHead : c.http.method = .head
      · simp [answered, analysed, hHead]
      · simp [answered, analysed, hHead]

/- A request for a file name, as far as it matters here. -/
def asking
    (fileName : Bytes) : Conn :=
  { Conn.new ⟨[], [], []⟩ with
    http := { HttpData.new with fileName := fileName } }

theorem framed_response_icon :
    ∃ c',
      (asking (utf8 "favicon.ico")).analysisRequest
          noFiles =
        .ok (.success, c') ∧
      (asking (utf8 "favicon.ico")).AddsFramed c' := by
  obtain ⟨c', hCall⟩ :
      ∃ c',
        (asking (utf8 "favicon.ico")).analysisRequest
            noFiles =
          .ok (.success, c') :=
    ⟨_, rfl⟩
  exact
    ⟨c', hCall,
      (framed_response_iff hCall).mpr (by decide +kernel)⟩

/- The answer to `hello` says no length. -/
theorem framed_response_counterexample :
    ∃ c',
      (asking (utf8 "hello")).analysisRequest noFiles =
        .ok (.success, c') ∧
      ¬ (asking (utf8 "hello")).AddsFramed c' := by
  refine ⟨_, rfl, ?_⟩
  rintro ⟨response, hAdded, hFramed⟩
  have hAll : helloResponse = [] ++ response := hAdded
  exact not_framed_hello hAll hFramed

end Conn

end V3

end WebServer
