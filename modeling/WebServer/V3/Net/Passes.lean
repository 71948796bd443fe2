import WebServer.V3.Net.HandleRead
import WebServer.V3.Net.RequestLine
import WebServer.V3.Net.Scanning

/-
  What one pass of `handleRead` does to a connection.

  For each stage there is one lemma that lists its outcomes.
  What every stage keeps (`Conn.Onward`) is derived from
  these lists, and so is the bound on the nested calls.

  Key definitions include:
    * `Conn.atHeaders`, `Conn.atBody`, `Conn.atAnalysis`
    * `Conn.Onward`
    * `Conn.NestedCall`
    * `Conn.CallAt`

  Key theorems include:
    * `Conn.uriStage_cases`
    * `Conn.headerStage_cases`
    * `Conn.bodyStage_cases`
    * `Conn.analysisStage_cases`
    * `Conn.onward_stages`
    * `Conn.later_pass`
    * `Conn.handleReadAt_not_tooDeep`
    * `Conn.handleRead_levels`
-/

------------------------------------------------------------
-- Reading
------------------------------------------------------------

namespace WebServer

namespace V3

/- The `read` calls of one event bring exactly these bytes. -/
def Brings
    (reads : List ReadResult)
    (bytes : Bytes) : Prop :=
  (∀ r ∈ reads,
    r = .eintr ∨
      ∃ piece,
        r = .data piece ∧
          piece ≠ [] ∧ piece.length ≤ maxBuff) ∧
    reads.flatMap ReadResult.bytes = bytes

theorem readnLoop_of_brings
    {reads : List ReadResult}
    {bytes : Bytes}
    (h : Brings reads bytes)
    (inBuffer : Bytes)
    (readSum : Nat) :
    readnLoop reads inBuffer readSum =
      ⟨(readSum + bytes.length : Nat), inBuffer ++ bytes,
        false, []⟩ := by
  rcases h with ⟨hPieces, rfl⟩
  induction reads generalizing inBuffer readSum with
  | nil => simp [readnLoop]
  | cons r reads ih =>
      have hRest := fun inBuffer readSum =>
        ih inBuffer readSum fun r hMem =>
          hPieces r (List.mem_cons_of_mem _ hMem)
      rcases hPieces r List.mem_cons_self with
        rfl | ⟨piece, rfl, hNonempty, _⟩
      · simp only [readnLoop, hRest, List.flatMap_cons,
          ReadResult.bytes, List.nil_append]
      · simp only [readnLoop, hNonempty, if_false, hRest,
          List.flatMap_cons, ReadResult.bytes,
          List.length_append, List.append_assoc,
          Nat.add_assoc]

/- `readn` moves bytes from the socket to the buffer. -/
theorem readnLoop_left
    (reads : List ReadResult)
    (inBuffer : Bytes)
    (readSum : Nat) :
    (readnLoop reads inBuffer readSum).inBuffer.length +
        ((readnLoop reads inBuffer readSum).reads.flatMap
          ReadResult.bytes).length ≤
      inBuffer.length +
        (reads.flatMap ReadResult.bytes).length := by
  induction reads generalizing inBuffer readSum with
  | nil => simp [readnLoop]
  | cons r reads ih =>
      cases r with
      | eintr =>
          simpa [readnLoop, ReadResult.bytes] using
            ih inBuffer readSum
      | eagain => simp [readnLoop, ReadResult.bytes]
      | error => simp [readnLoop, ReadResult.bytes]
      | data piece =>
          by_cases hEnd : piece = []
          · simp [readnLoop, ReadResult.bytes, hEnd]
          · have hRest :=
              ih (inBuffer ++ piece) (readSum + piece.length)
            simp only [readnLoop, hEnd, if_false,
              List.flatMap_cons, ReadResult.bytes,
              List.length_append] at hRest ⊢
            omega

end V3

end WebServer

------------------------------------------------------------
-- Outcomes Of The Stages
------------------------------------------------------------

namespace WebServer

namespace V3

open StdString

namespace Conn

/- A connection after `readn`. -/
def received
    (c : Conn) : Conn :=
  let result := c.socket.readn c.http.inBuffer
  { c with
    socket := { c.socket with reads := result.reads }
    http := { c.http with inBuffer := result.inBuffer } }

theorem readStage_cases
    (c : Conn) :
    c.readStage =
        .brk
          { c.received with
            http := { c.received.http with inBuffer := [] } } ∨
      c.readStage =
        .brk (c.received.failWith 400 (utf8 "Bad Request")) ∨
      c.readStage =
        .brk
          { c.received with
            http :=
              { c.received.http with
                connectionState := .disconnecting } } ∨
      c.readStage =
        .go
          { c.received with
            http :=
              { c.received.http with
                connectionState := .disconnecting } } ∨
      c.readStage = .go c.received := by
  unfold readStage received
  simp only
  split_ifs
  · exact .inl rfl
  · exact .inr (.inl rfl)
  · exact .inr (.inr (.inl rfl))
  · exact .inr (.inr (.inr (.inl rfl)))
  · exact .inr (.inr (.inr (.inr rfl)))

/-
  `parseURI` cuts a request line off the buffer, or takes
  all of a buffer without CR for one and cuts off nothing.
-/
def CutsLine
    (inBuffer line rest : Bytes) : Prop :=
  13 ∉ line ∧
    (inBuffer = line ++ 13 :: rest ∨
      inBuffer = line ∧ rest = line)

theorem exists_cutsLine
    (inBuffer : Bytes) :
    ∃ line rest, CutsLine inBuffer line rest := by
  by_cases hCr : 13 ∈ inBuffer
  · rcases List.eq_append_cons_of_mem hCr with
      ⟨line, rest, hBuffer, hLine⟩
    exact ⟨line, rest, hLine, .inl hBuffer⟩
  · exact ⟨inBuffer, inBuffer, hCr, .inr ⟨rfl, rfl⟩⟩

theorem parseURI_of_cutsLine
    {d : HttpData}
    {line rest : Bytes}
    (hPos : d.nowReadPos = 0)
    (hCut : CutsLine d.inBuffer line rest) :
    d.parseURI =
      { d with inBuffer := rest }.parseRequestLine line := by
  rcases hCut with ⟨hLine, hCr | ⟨hAll, hRest⟩⟩
  · exact HttpData.parseURI_of_cr hPos hCr hLine
  · rw [HttpData.parseURI_of_no_cr hPos (hAll ▸ hLine),
      hRest, ← hAll]

/- A line that is refused is answered with 400. -/
theorem uriStage_cases
    (c : Conn)
    (hPos : c.http.nowReadPos = 0) :
    (c.http.state ≠ .parseUri ∧ c.uriStage = .ok (.go c)) ∨
      (c.http.state = .parseUri ∧
        ∃ line rest,
          CutsLine c.http.inBuffer line rest ∧
            Refused line ∧
            ∃ method fileName,
              c.uriStage =
                .ok
                  (.brk
                    ({ c with
                        http :=
                          { c.http.setLine method fileName
                              c.http.httpVersion with
                            inBuffer := [] } }.failWith
                      400 (utf8 "Bad Request")))) ∨
      (c.http.state = .parseUri ∧
        ∃ line rest method fileName version,
          CutsLine c.http.inBuffer line rest ∧
            ReadsAs line method fileName version ∧
            c.uriStage =
              .ok
                (.go
                  { c with
                    http :=
                      { c.http.setLine method fileName
                          version with
                        inBuffer := rest
                        state := .parseHeaders } })) := by
  by_cases hState : c.http.state = .parseUri
  · right
    rcases exists_cutsLine c.http.inBuffer with
      ⟨line, rest, hCut⟩
    have hCall := parseURI_of_cutsLine hPos hCut
    rcases parseRequestLine_cases line with
      ⟨method, fileName, version, hReads⟩ | hRefused
    · refine
        .inr
          ⟨hState, line, rest, method, fileName, version,
            hCut, hReads, ?_⟩
      unfold uriStage
      rw [if_pos hState, hCall, hReads]
      rfl
    · rcases hRefused { c.http with inBuffer := rest } with
        ⟨method, fileName, hError⟩
      refine
        .inl
          ⟨hState, line, rest, hCut, hRefused, method,
            fileName, ?_⟩
      unfold uriStage
      rw [if_pos hState, hCall, hError]
      rfl
  · exact .inl ⟨hState, if_neg hState⟩

/-
  The results of `parseHeaders` differ from the members in
  the scan and in what is dropped from the buffer.
-/
theorem parseHeaders_frame
    {d d' : HttpData}
    {flag : HeaderState}
    (h : d.parseHeaders = .ok (flag, d')) :
    ∃ scan k,
      d' =
        { d.setScan scan with
          inBuffer := d.inBuffer.drop k } := by
  have hSubstr : ∀ k,
      ((d.inBuffer.drop k).take d.inBuffer.length) =
        d.inBuffer.drop k := by
    intro k
    apply List.take_of_length_le
    rw [List.length_drop]
    omega
  unfold HttpData.parseHeaders at h
  cases hCase : d.scanHeaders .machine with
  | error f =>
      rw [HttpData.parseHeadersBy_of_fault hCase] at h
      cases h
  | ok how =>
      cases how with
      | error scan =>
          rw [HttpData.parseHeadersBy_of_error hCase] at h
          cases h
          exact ⟨scan, 0, rfl⟩
      | stopped i scan =>
          simp only [HttpData.parseHeadersBy, hCase, bind,
            Except.bind, substr] at h
          split_ifs at h
          · simp only [Except.ok.injEq, Prod.mk.injEq] at h
            exact ⟨scan, i, by rw [← h.2, hSubstr]⟩
          · simp only [Except.ok.injEq, Prod.mk.injEq] at h
            exact ⟨scan, _, by rw [← h.2, hSubstr]⟩

/- The state after the header lines. -/
def afterHeaders
    (d : HttpData) : ProcessState :=
  if d.method = .post then .recvBody else .analysis

theorem afterHeaders_ne_finish
    (d : HttpData) :
    afterHeaders d ≠ .finish := by
  unfold afterHeaders
  split_ifs
  · exact ProcessState.noConfusion
  · exact ProcessState.noConfusion

theorem headerStage_cases
    {c : Conn}
    {flow : Flow}
    (h : c.headerStage = .ok flow) :
    (c.http.state ≠ .parseHeaders ∧ flow = .go c) ∨
      (c.http.state = .parseHeaders ∧
        ∃ d,
          c.http.parseHeaders = .ok (.again, d) ∧
            flow = .brk { c with http := d }) ∨
      (c.http.state = .parseHeaders ∧
        ∃ d,
          c.http.parseHeaders = .ok (.error, d) ∧
            flow =
              .brk
                ({ c with http := d }.failWith 400
                  (utf8 "Bad Request"))) ∨
      (c.http.state = .parseHeaders ∧
        ∃ d,
          c.http.parseHeaders = .ok (.success, d) ∧
            flow =
              .go
                { c with
                  http :=
                    { d with state := afterHeaders d } }) := by
  unfold headerStage at h
  by_cases hState : c.http.state = .parseHeaders
  · right
    rw [if_pos hState] at h
    cases hCall : c.http.parseHeaders with
    | error f =>
        rw [hCall] at h
        cases h
    | ok result =>
        rw [hCall] at h
        rcases result with ⟨flag, d⟩
        cases flag with
        | again =>
            cases h
            exact .inl ⟨hState, d, rfl, rfl⟩
        | error =>
            cases h
            exact .inr (.inl ⟨hState, d, rfl, rfl⟩)
        | success =>
            cases h
            exact .inr (.inr ⟨hState, d, rfl, rfl⟩)
  · rw [if_neg hState] at h
    cases h
    exact .inl ⟨hState, rfl⟩

theorem bodyStage_cases
    {c : Conn}
    {flow : Flow}
    (h : c.bodyStage = .ok flow) :
    (c.http.state ≠ .recvBody ∧ flow = .go c) ∨
      (c.http.state = .recvBody ∧
        flow = .brk (c.failWith 400 lackOfArgument)) ∨
      (c.http.state = .recvBody ∧ flow = .brk c) ∨
      (c.http.state = .recvBody ∧
        (∃ value n,
          c.http.headers (utf8 "Content-length") =
              some value ∧
            stoi value = .ok n ∧
            n ≤ toInt32 c.http.inBuffer.length) ∧
        flow =
          .go
            { c with
              http := { c.http with state := .analysis } }) := by
  unfold bodyStage at h
  by_cases hState : c.http.state = .recvBody
  · right
    rw [if_pos hState] at h
    cases hValue : c.http.headers (utf8 "Content-length") with
    | none =>
        rw [hValue] at h
        cases h
        exact .inl ⟨hState, rfl⟩
    | some value =>
        rw [hValue] at h
        cases hLength : stoi value with
        | error f =>
            simp only [hLength] at h
            cases h
        | ok n =>
            simp only [hLength, bind, Except.bind] at h
            split_ifs at h with hShort
            · cases h
              exact .inr (.inl ⟨hState, rfl⟩)
            · cases h
              exact
                .inr
                  (.inr
                    ⟨hState,
                      ⟨value, n, rfl, hLength,
                        Int.not_lt.mp hShort⟩, rfl⟩)
  · rw [if_neg hState] at h
    cases h
    exact .inl ⟨hState, rfl⟩

theorem fileType_ok
    (d : HttpData) :
    ∃ mime, d.fileType = .ok mime := by
  unfold HttpData.fileType HttpData.dotPos
  cases hDot : findChar d.fileName (UInt8.ofNat 46) 0 with
  | none =>
      have hNpos : toInt32 (2 ^ 64 - 1) < 0 := by decide
      exact ⟨_, if_pos hNpos⟩
  | some pos =>
      have hSmall :
          (toInt32 pos).toNat ≤ d.fileName.length :=
        Nat.le_trans (toNat_toInt32_le pos)
          (Nat.le_of_lt (findChar_lt hDot))
      simp only
      generalize toInt32 (pos : Int) = dotPos at hSmall ⊢
      by_cases hNeg : dotPos < 0
      · exact ⟨_, if_pos hNeg⟩
      · refine
          ⟨getMime (d.fileName.drop dotPos.toNat), ?_⟩
        rw [if_neg hNeg, substr_suffix hSmall]
        rfl

/- A connection on which a request was analysed. -/
def analysed
    (c : Conn) : Conn :=
  { c with
    trace :=
      c.trace ++
        [.analysisRequest c.http.method c.http.fileName
          c.http.httpVersion c.http.headers] }

/- The members that an answer changes. -/
def answered
    (c : Conn)
    (keepAlive : Bool)
    (outBuffer : Bytes) : Conn :=
  { c with
    http :=
      { c.http with
        keepAlive := keepAlive
        outBuffer := outBuffer } }

theorem serveFile_cases
    (c : Conn)
    (fs : FileSystem)
    (header mime : Bytes) :
    ∃ out,
      c.serveFile fs header mime = (.success, c.setOut out) ∨
        c.serveFile fs header mime =
          (.error,
            (c.setOut out).handleError 404
              (utf8 "Not Found!")) := by
  cases hStat : fs.stat (cStr c.http.fileName) with
  | none =>
      refine ⟨c.http.outBuffer, .inr ?_⟩
      simp only [serveFile, hStat]
      rfl
  | some size =>
      by_cases hHead : c.http.method = .head
      · refine
          ⟨c.http.outBuffer ++
            (header ++ contentHeader mime size), .inl ?_⟩
        simp only [serveFile, hStat]
        exact if_pos hHead
      · by_cases hOpen : fs.openRdonly (cStr c.http.fileName)
        · cases hMap :
              fs.mmap (cStr c.http.fileName) size with
          | none =>
              refine ⟨[], .inr ?_⟩
              simp only [serveFile, hStat, appendOut, hHead,
                if_false, hOpen, if_true, hMap]
              rfl
          | some bytes =>
              refine
                ⟨c.http.outBuffer ++
                    (header ++ contentHeader mime size) ++
                  bytes, .inl ?_⟩
              simp only [serveFile, hStat, appendOut, hHead,
                if_false, hOpen, if_true, hMap]
              rfl
        · refine ⟨[], .inr ?_⟩
          simp only [serveFile, hStat, appendOut, hHead,
            if_false, hOpen]
          rfl

/- What is done for a name, once its type is known. -/
def serveName
    (c : Conn)
    (keepAlive : Bool)
    (mime : Bytes)
    (fs : FileSystem) : AnalysisState × Conn :=
  let c₁ := c.analysed.answered keepAlive c.http.outBuffer
  if c.http.fileName = utf8 "hello" then
    (.success, c₁.setOut helloResponse)
  else if c.http.fileName = utf8 "favicon.ico" then
    (.success,
      c₁.appendOut
        (c.http.statusHeader ++
          contentHeader (utf8 "image/png") favicon.length ++
          favicon))
  else
    c₁.serveFile fs c.http.statusHeader mime

/- What `analysisRequest` does for `GET` and `HEAD`. -/
theorem analysisRequest_keeps
    {c : Conn}
    {mime : Bytes}
    (hPost : c.http.method ≠ .post)
    (hMime : c.http.fileType = .ok mime)
    (fs : FileSystem) :
    c.analysisRequest fs =
      .ok
        (c.serveName
          (c.http.asksKeepAlive || c.http.keepAlive) mime
          fs) := by
  unfold serveName
  cases hAsks : c.http.asksKeepAlive with
  | true =>
      have hMime' :
          { c.http with keepAlive := true }.fileType =
            .ok mime := hMime
      simp only [analysisRequest, if_neg hPost, hAsks,
        if_true, hMime', bind, Except.bind]
      split_ifs <;> rfl
  | false =>
      simp only [analysisRequest, if_neg hPost, hAsks,
        Bool.false_eq_true, if_false, hMime, bind,
        Except.bind]
      split_ifs <;> rfl

/- The same, where `keepAlive_` does not matter. -/
theorem analysisRequest_eq
    {c : Conn}
    {mime : Bytes}
    (hPost : c.http.method ≠ .post)
    (hMime : c.http.fileType = .ok mime)
    (fs : FileSystem) :
    ∃ keepAlive,
      c.analysisRequest fs =
        .ok (c.serveName keepAlive mime fs) :=
  ⟨_, analysisRequest_keeps hPost hMime fs⟩

/-
  A `POST` request gives an error and no reply. The others
  give a response, or an error and the reply 404.
-/
theorem analysisRequest_cases
    (c : Conn)
    (fs : FileSystem) :
    (c.http.method = .post ∧
        c.analysisRequest fs = .ok (.error, c.analysed)) ∨
      (c.http.method ≠ .post ∧
        ∃ keepAlive outBuffer,
          c.analysisRequest fs =
            .ok
              (.success,
                c.analysed.answered keepAlive outBuffer)) ∨
      (c.http.method ≠ .post ∧
        ∃ keepAlive outBuffer,
          c.analysisRequest fs =
            .ok
              (.error,
                (c.analysed.answered keepAlive
                    outBuffer).handleError 404
                  (utf8 "Not Found!"))) := by
  by_cases hPost : c.http.method = .post
  · left
    refine ⟨hPost, ?_⟩
    simp only [analysisRequest, if_pos hPost]
    rfl
  · right
    rcases fileType_ok c.http with ⟨mime, hMime⟩
    rcases analysisRequest_eq hPost hMime fs with
      ⟨keepAlive, hCall⟩
    rw [hCall]
    unfold serveName
    split_ifs
    · exact .inl ⟨hPost, keepAlive, _, rfl⟩
    · exact .inl ⟨hPost, keepAlive, _, rfl⟩
    · rcases
        serveFile_cases
          (c.analysed.answered keepAlive c.http.outBuffer)
          fs c.http.statusHeader mime with
        ⟨out, hServe | hServe⟩
      · exact .inl ⟨hPost, keepAlive, out, by rw [hServe]; rfl⟩
      · exact .inr ⟨hPost, keepAlive, out, by rw [hServe]; rfl⟩

/- The analysis stage always returns. -/
theorem analysisStage_ok
    (c : Conn)
    (fs : FileSystem) :
    ∃ flow, c.analysisStage fs = .ok flow := by
  unfold analysisStage
  split_ifs
  · rcases c.analysisRequest_cases fs with
      ⟨_, hCall⟩ | ⟨_, _, _, hCall⟩ | ⟨_, _, _, hCall⟩ <;>
      exact ⟨_, by rw [hCall]; rfl⟩
  · exact ⟨_, rfl⟩

theorem analysisStage_cases
    {c : Conn}
    {fs : FileSystem}
    {flow : Flow}
    (h : c.analysisStage fs = .ok flow) :
    (c.http.state ≠ .analysis ∧ flow = .go c) ∨
      (c.http.state = .analysis ∧
        c.http.method = .post ∧
        flow =
          .brk
            { c.analysed with
              http := { c.http with error := true } }) ∨
      (c.http.state = .analysis ∧
        c.http.method ≠ .post ∧
        ∃ keepAlive outBuffer,
          flow =
            .brk
              { c.analysed with
                http :=
                  { c.http with
                    keepAlive := keepAlive
                    outBuffer := outBuffer
                    state := .finish } }) ∨
      (c.http.state = .analysis ∧
        c.http.method ≠ .post ∧
        ∃ keepAlive outBuffer,
          flow =
            .brk
              ((c.analysed.answered keepAlive
                outBuffer).failWith 404
                  (utf8 "Not Found!"))) := by
  unfold analysisStage at h
  by_cases hState : c.http.state = .analysis
  · right
    rw [if_pos hState] at h
    rcases c.analysisRequest_cases fs with
      ⟨hPost, hCall⟩ | ⟨hPost, keepAlive, out, hCall⟩ |
        ⟨hPost, keepAlive, out, hCall⟩
    · rw [hCall] at h
      cases h
      exact .inl ⟨hState, hPost, rfl⟩
    · rw [hCall] at h
      cases h
      exact .inr (.inl ⟨hState, hPost, keepAlive, out, rfl⟩)
    · rw [hCall] at h
      cases h
      exact .inr (.inr ⟨hState, hPost, keepAlive, out, rfl⟩)
  · rw [if_neg hState] at h
    cases h
    exact .inl ⟨hState, rfl⟩

/- A `POST` request sets `error_`, and that is all. -/
theorem analysisStage_of_post
    {c : Conn}
    (hState : c.http.state = .analysis)
    (hPost : c.http.method = .post)
    (fs : FileSystem) :
    c.analysisStage fs =
      .ok
        (.brk
          { c.analysed with
            http := { c.http with error := true } }) := by
  rcases c.analysisStage_ok fs with ⟨flow, hFlow⟩
  rcases analysisStage_cases hFlow with
    ⟨hNot, _⟩ | ⟨_, _, rfl⟩ | ⟨_, hNot, _⟩ | ⟨_, hNot, _⟩
  · exact absurd hState hNot
  · exact hFlow
  · exact absurd hPost hNot
  · exact absurd hPost hNot

end Conn

end V3

end WebServer

------------------------------------------------------------
-- What The Stages Keep
------------------------------------------------------------

namespace WebServer

namespace V3

open StdString

namespace Conn

/- How many bytes are not parsed yet. -/
def left
    (c : Conn) : Nat :=
  c.http.inBuffer.length + c.socket.pending.length

/- What holds between a connection and a later one. -/
structure Onward
    (c c' : Conn) : Prop where
  trace : c.trace <+: c'.trace
  left : c'.left ≤ c.left
  nowReadPos : c'.http.nowReadPos = c.http.nowReadPos
  channel : c'.channel = c.channel
  timers : c'.timers = c.timers
  timer : c'.http.timer = c.http.timer
  connectionState :
    c'.http.connectionState = c.http.connectionState ∨
      c'.http.connectionState = .disconnecting

theorem Onward.refl
    (c : Conn) :
    c.Onward c where
  trace := List.prefix_rfl
  left := Nat.le_refl _
  nowReadPos := rfl
  channel := rfl
  timers := rfl
  timer := rfl
  connectionState := .inl rfl

theorem Onward.trans
    {c₁ c₂ c₃ : Conn}
    (h₁ : c₁.Onward c₂)
    (h₂ : c₂.Onward c₃) :
    c₁.Onward c₃ where
  trace := h₁.trace.trans h₂.trace
  left := Nat.le_trans h₂.left h₁.left
  nowReadPos := h₂.nowReadPos.trans h₁.nowReadPos
  channel := h₂.channel.trans h₁.channel
  timers := h₂.timers.trans h₁.timers
  timer := h₂.timer.trans h₁.timer
  connectionState := by
    rcases h₂.connectionState with hSame | hDown
    · rw [hSame]
      exact h₁.connectionState
    · exact .inr hDown

theorem onward_failWith
    (c : Conn)
    (errNum : Nat)
    (shortMsg : Bytes) :
    c.Onward (c.failWith errNum shortMsg) where
  trace := List.prefix_append _ _
  left := Nat.le_refl _
  nowReadPos := rfl
  channel := rfl
  timers := rfl
  timer := rfl
  connectionState := .inl rfl

theorem onward_received
    (c : Conn) :
    c.Onward c.received where
  trace := List.prefix_rfl
  left := readnLoop_left c.socket.reads c.http.inBuffer 0
  nowReadPos := rfl
  channel := rfl
  timers := rfl
  timer := rfl
  connectionState := .inl rfl

theorem onward_readStage
    (c : Conn) :
    c.Onward c.readStage.conn := by
  have hReceived := c.onward_received
  rcases c.readStage_cases with h | h | h | h | h <;> rw [h]
  · exact
      { hReceived with
        left :=
          Nat.le_trans
            (Nat.add_le_add_right (Nat.zero_le _) _)
            hReceived.left }
  · exact hReceived.trans (onward_failWith _ _ _)
  · exact { hReceived with connectionState := .inr rfl }
  · exact { hReceived with connectionState := .inr rfl }
  · exact hReceived

theorem CutsLine.length_le
    {inBuffer line rest : Bytes}
    (h : CutsLine inBuffer line rest) :
    rest.length ≤ inBuffer.length := by
  rcases h.2 with rfl | ⟨rfl, rfl⟩
  · simp only [List.length_append, List.length_cons]
    omega
  · exact Nat.le_refl _

theorem onward_uriStage
    {c : Conn}
    {flow : Flow}
    (hPos : c.http.nowReadPos = 0)
    (h : c.uriStage = .ok flow) :
    c.Onward flow.conn := by
  rcases c.uriStage_cases hPos with
    ⟨_, hCall⟩ |
      ⟨_, line, rest, hCut, _, method, fileName, hCall⟩ |
      ⟨_, line, rest, method, fileName, version, hCut, _,
        hCall⟩ <;>
    rw [hCall] at h <;> cases h
  · exact .refl c
  · exact
      { Onward.refl c with
        trace := List.prefix_append _ _
        left := Nat.add_le_add_right (Nat.zero_le _) _ }
  · exact
      { Onward.refl c with
        left := Nat.add_le_add_right hCut.length_le _ }

theorem onward_headerStage
    {c : Conn}
    {flow : Flow}
    (h : c.headerStage = .ok flow) :
    c.Onward flow.conn := by
  have hDrop : ∀ {flag d},
      c.http.parseHeaders = .ok (flag, d) →
        c.Onward { c with http := d } := by
    intro flag d hCall
    rcases parseHeaders_frame hCall with ⟨scan, k, rfl⟩
    exact
      { Onward.refl c with
        left := by
          apply Nat.add_le_add_right
          rw [List.length_drop]
          exact Nat.sub_le _ _ }
  rcases headerStage_cases h with
    ⟨_, rfl⟩ | ⟨_, d, hCall, rfl⟩ | ⟨_, d, hCall, rfl⟩ |
      ⟨_, d, hCall, rfl⟩
  · exact .refl c
  · exact hDrop hCall
  · exact (hDrop hCall).trans (onward_failWith _ _ _)
  · exact { hDrop hCall with }

theorem onward_bodyStage
    {c : Conn}
    {flow : Flow}
    (h : c.bodyStage = .ok flow) :
    c.Onward flow.conn := by
  rcases bodyStage_cases h with
    ⟨_, rfl⟩ | ⟨_, rfl⟩ | ⟨_, rfl⟩ | ⟨_, _, rfl⟩
  · exact .refl c
  · exact onward_failWith _ _ _
  · exact .refl c
  · exact { Onward.refl c with }

theorem onward_analysisStage
    {c : Conn}
    {fs : FileSystem}
    {flow : Flow}
    (h : c.analysisStage fs = .ok flow) :
    c.Onward flow.conn := by
  have hAnalysed : c.Onward c.analysed :=
    { Onward.refl c with
      trace := List.prefix_append _ _ }
  rcases analysisStage_cases h with
    ⟨_, rfl⟩ | ⟨_, _, rfl⟩ | ⟨_, _, _, _, rfl⟩ |
      ⟨_, _, keepAlive, out, rfl⟩
  · exact .refl c
  · exact { hAnalysed with }
  · exact { hAnalysed with }
  · have hAnswered :
        c.Onward (c.analysed.answered keepAlive out) :=
      { hAnalysed with }
    exact hAnswered.trans (onward_failWith _ _ _)

/- The request line is read, if it is due. -/
def atHeaders
    (c : Conn) : Except Fault Flow :=
  c.readStage.andThen uriStage

/- The header lines are read, if they are due. -/
def atBody
    (c : Conn) : Except Fault Flow := do
  let flow ← c.atHeaders
  flow.andThen headerStage

/- The body is there, if one is due. -/
def atAnalysis
    (c : Conn) : Except Fault Flow := do
  let flow ← c.atBody
  flow.andThen bodyStage

theorem stages_eq
    (c : Conn)
    (fs : FileSystem) :
    c.stages fs =
      c.atAnalysis.bind fun flow =>
        (flow.andThen (analysisStage · fs)).map
          Flow.conn := by
  unfold stages atAnalysis atBody atHeaders
  cases c.readStage.andThen uriStage with
  | error f => rfl
  | ok flow₁ =>
      simp only [bind, Except.bind]
      cases flow₁.andThen headerStage with
      | error f => rfl
      | ok flow₂ =>
          simp only
          cases flow₂.andThen bodyStage with
          | error f => rfl
          | ok flow₃ => rfl

/- Where a pass comes to the body, it came to the headers. -/
theorem atBody_ok
    {c : Conn}
    {flow : Flow}
    (h : c.atBody = .ok flow) :
    ∃ before,
      c.atHeaders = .ok before ∧
        before.andThen headerStage = .ok flow := by
  cases hBefore : c.atHeaders with
  | error f =>
      rw [atBody, hBefore] at h
      cases h
  | ok before =>
      rw [atBody, hBefore] at h
      exact ⟨before, rfl, h⟩

theorem atAnalysis_ok
    {c : Conn}
    {flow : Flow}
    (h : c.atAnalysis = .ok flow) :
    ∃ before,
      c.atBody = .ok before ∧
        before.andThen bodyStage = .ok flow := by
  cases hBefore : c.atBody with
  | error f =>
      rw [atAnalysis, hBefore] at h
      cases h
  | ok before =>
      rw [atAnalysis, hBefore] at h
      exact ⟨before, rfl, h⟩

end Conn

theorem Flow.andThen_onward
    {c : Conn}
    {flow flow' : Flow}
    {stage : Conn → Except Fault Flow}
    (hFlow : c.Onward flow.conn)
    (hStage : ∀ c₁ flow',
      c.Onward c₁ → stage c₁ = .ok flow' →
        c₁.Onward flow'.conn)
    (h : flow.andThen stage = .ok flow') :
    c.Onward flow'.conn := by
  cases flow with
  | go c₁ => exact hFlow.trans (hStage c₁ flow' hFlow h)
  | brk c₁ =>
      cases h
      exact hFlow

namespace Conn

theorem onward_atHeaders
    {c : Conn}
    {flow : Flow}
    (hPos : c.http.nowReadPos = 0)
    (h : c.atHeaders = .ok flow) :
    c.Onward flow.conn := by
  apply Flow.andThen_onward c.onward_readStage ?_ h
  intro c₁ flow' hOn hCall
  exact onward_uriStage (hOn.nowReadPos.trans hPos) hCall

theorem onward_atBody
    {c : Conn}
    {flow : Flow}
    (hPos : c.http.nowReadPos = 0)
    (h : c.atBody = .ok flow) :
    c.Onward flow.conn := by
  rcases atBody_ok h with ⟨before, hBefore, hStage⟩
  exact
    Flow.andThen_onward (onward_atHeaders hPos hBefore)
      (fun _ _ _ => onward_headerStage) hStage

theorem onward_atAnalysis
    {c : Conn}
    {flow : Flow}
    (hPos : c.http.nowReadPos = 0)
    (h : c.atAnalysis = .ok flow) :
    c.Onward flow.conn := by
  rcases atAnalysis_ok h with ⟨before, hBefore, hStage⟩
  exact
    Flow.andThen_onward (onward_atBody hPos hBefore)
      (fun _ _ _ => onward_bodyStage) hStage

theorem onward_stages
    {c c' : Conn}
    {fs : FileSystem}
    (hPos : c.http.nowReadPos = 0)
    (h : c.stages fs = .ok c') :
    c.Onward c' := by
  rw [stages_eq] at h
  cases hBefore : c.atAnalysis with
  | error f =>
      rw [hBefore] at h
      cases h
  | ok before =>
      simp only [hBefore, Except.bind] at h
      cases hLast : before.andThen (analysisStage · fs) with
      | error f =>
          rw [hLast] at h
          cases h
      | ok flow =>
          rw [hLast] at h
          cases h
          exact
            Flow.andThen_onward
              (onward_atAnalysis hPos hBefore)
              (fun _ _ _ => onward_analysisStage) hLast

end Conn

end V3

end WebServer

------------------------------------------------------------
-- Sending And Concluding
------------------------------------------------------------

namespace WebServer

namespace V3

open StdString

namespace Conn

/- A connection after some bytes of its output were sent. -/
def wrote
    (c : Conn)
    (writes : List WriteResult)
    (sent outBuffer : Bytes) : Conn :=
  { c with
    socket :=
      { c.socket with
        writes := writes
        sent := sent }
    http := { c.http with outBuffer := outBuffer } }

/- `if (outBuffer_.size() > 0) events_ |= EPOLLOUT`. -/
def askToWrite
    (c : Conn) : Conn :=
  if c.http.outBuffer ≠ [] then c.addEpollOut else c

/- Asking leaves the parser and the trace alone. -/
@[simp] theorem askToWrite_http
    (c : Conn) :
    c.askToWrite.http = c.http := by
  unfold askToWrite
  split_ifs
  · rfl
  · rfl

@[simp] theorem askToWrite_trace
    (c : Conn) :
    c.askToWrite.trace = c.trace := by
  unfold askToWrite
  split_ifs
  · rfl
  · rfl

/- There is nothing to fail at without output. -/
theorem writenLoop_nil
    (writes : List WriteResult) :
    (writenLoop writes []).failed = false := by
  cases writes with
  | nil => rfl
  | cons w writes => simp [writenLoop]

/-
  `handleWrite` does nothing, sends, or fails: then the
  output is kept and `error_` is set.
-/
theorem handleWrite_cases
    (c : Conn) :
    ((c.http.error = true ∨
        c.http.connectionState = .disconnected) ∧
      c.handleWrite = c) ∨
      (c.http.error = false ∧
        ∃ writes sent outBuffer,
          c.handleWrite =
            (c.wrote writes sent outBuffer).askToWrite) ∨
      (c.http.error = false ∧
        c.http.outBuffer ≠ [] ∧
        ∃ writes sent,
          c.handleWrite =
            askToWrite
              { c.wrote writes sent c.http.outBuffer with
                channel := c.channel.setEvents .none
                http := { c.http with error := true } }) := by
  by_cases hSend :
      !c.http.error ∧ c.http.connectionState ≠ .disconnected
  · right
    rcases hWrite :
        c.socket.writenString c.http.outBuffer with
      ⟨socket, outBuffer, failed⟩
    have hSocket :
        socket =
          { c.socket with
            writes := socket.writes
            sent := socket.sent } := by
      unfold Socket.writenString at hWrite
      simp only at hWrite
      split_ifs at hWrite <;> cases hWrite <;> rfl
    have hKept : failed = true →
        outBuffer = c.http.outBuffer ∧
          c.http.outBuffer ≠ [] := by
      intro hFailed
      unfold Socket.writenString at hWrite
      simp only at hWrite
      split_ifs at hWrite with hFail <;> cases hWrite
      · refine ⟨rfl, ?_⟩
        intro hNil
        rw [hNil, writenLoop_nil] at hFail
        cases hFail
      · cases hFailed
      · cases hFailed
    have hError : c.http.error = false := by
      simpa using hSend.1
    unfold handleWrite
    rw [if_pos hSend, hWrite, hSocket]
    cases failed with
    | false => exact .inl ⟨hError, _, _, _, rfl⟩
    | true =>
        rw [(hKept rfl).1]
        exact .inr ⟨hError, (hKept rfl).2, _, _, rfl⟩
  · left
    refine ⟨?_, if_neg hSend⟩
    cases hError : c.http.error with
    | true => exact .inl rfl
    | false =>
        right
        by_contra hDown
        exact hSend ⟨by simp [hError], hDown⟩

/- What sending may change. -/
theorem sendPending_frame
    (c : Conn) :
    ∃ socket channel outBuffer error,
      socket.reads = c.socket.reads ∧
        c.sendPending =
          { c with
            socket := socket
            channel := channel
            http :=
              { c.http with
                outBuffer := outBuffer
                error := error } } := by
  have hAsk : ∀ c₁ : Conn,
      ∃ channel, c₁.askToWrite =
        { c₁ with channel := channel } := by
    intro c₁
    unfold askToWrite
    split_ifs
    · exact ⟨_, rfl⟩
    · exact ⟨c₁.channel, rfl⟩
  unfold sendPending
  split_ifs
  · rcases c.handleWrite_cases with
      ⟨_, h⟩ | ⟨_, writes, sent, out, h⟩ |
        ⟨_, _, writes, sent, h⟩
    · exact ⟨_, _, _, _, rfl, h⟩
    · rcases hAsk (c.wrote writes sent out) with
        ⟨channel, hChannel⟩
      rw [h, hChannel]
      exact
        ⟨{ c.socket with writes := writes, sent := sent },
          channel, out, c.http.error, rfl, rfl⟩
    · rcases
        hAsk
          { c.wrote writes sent c.http.outBuffer with
            channel := c.channel.setEvents .none
            http := { c.http with error := true } } with
        ⟨channel, hChannel⟩
      rw [h, hChannel]
      exact
        ⟨{ c.socket with writes := writes, sent := sent },
          channel, c.http.outBuffer, true, rfl, rfl⟩
  · exact ⟨_, _, _, _, rfl, rfl⟩

/- What a whole call keeps. -/
structure Later
    (c c' : Conn) : Prop where
  trace : c.trace <+: c'.trace
  left : c'.left ≤ c.left
  nowReadPos :
    c.http.nowReadPos = 0 → c'.http.nowReadPos = 0
  connectionState :
    c'.http.connectionState = c.http.connectionState ∨
      c'.http.connectionState = .disconnecting

theorem Later.refl
    (c : Conn) :
    c.Later c where
  trace := List.prefix_rfl
  left := Nat.le_refl _
  nowReadPos := id
  connectionState := .inl rfl

theorem Later.trans
    {c₁ c₂ c₃ : Conn}
    (h₁ : c₁.Later c₂)
    (h₂ : c₂.Later c₃) :
    c₁.Later c₃ where
  trace := h₁.trace.trans h₂.trace
  left := Nat.le_trans h₂.left h₁.left
  nowReadPos := h₂.nowReadPos ∘ h₁.nowReadPos
  connectionState := by
    rcases h₂.connectionState with hSame | hDown
    · rw [hSame]
      exact h₁.connectionState
    · exact .inr hDown

theorem Onward.later
    {c c' : Conn}
    (h : c.Onward c') :
    c.Later c' where
  trace := h.trace
  left := h.left
  nowReadPos := fun hPos => h.nowReadPos.trans hPos
  connectionState := h.connectionState

theorem later_askToWrite
    (c : Conn) :
    c.Later c.askToWrite := by
  unfold askToWrite
  split_ifs
  · exact { Later.refl c with }
  · exact .refl c

theorem later_handleWrite
    (c : Conn) :
    c.Later c.handleWrite := by
  rcases c.handleWrite_cases with
    ⟨_, h⟩ | ⟨_, writes, sent, out, h⟩ |
      ⟨_, _, writes, sent, h⟩ <;>
    rw [h]
  · exact .refl c
  · have hWrote : c.Later (c.wrote writes sent out) :=
      { Later.refl c with }
    exact hWrote.trans (later_askToWrite _)
  · refine Later.trans ?_ (later_askToWrite _)
    exact { Later.refl c with }

theorem later_sendPending
    (c : Conn) :
    c.Later c.sendPending := by
  unfold sendPending
  split_ifs
  · exact later_handleWrite c
  · exact .refl c

/- What `reset` may change. -/
theorem reset_frame
    (c : Conn) :
    ∃ timer timers,
      c.reset =
        { c with
          http :=
            { c.http with
              fileName := []
              nowReadPos := 0
              state := .parseUri
              hState := .start
              headers := fun _ => none
              timer := timer }
          timers := timers } := by
  unfold reset seperateTimer
  cases c.http.timer with
  | none => exact ⟨c.http.timer, c.timers, rfl⟩
  | some addr =>
      simp only
      split_ifs
      · exact ⟨none, c.timers.clearReq addr, rfl⟩
      · exact ⟨c.http.timer, c.timers, rfl⟩

theorem later_reset
    (c : Conn) :
    c.Later c.reset := by
  rcases c.reset_frame with ⟨timer, timers, hReset⟩
  rw [hReset]
  exact { Later.refl c with nowReadPos := fun _ => rfl }

theorem later_conclude
    (c : Conn) :
    c.Later c.conclude.2 := by
  unfold conclude
  split_ifs
  · exact .refl c
  · exact later_reset c
  · exact { Later.refl c with }
  · exact .refl c

theorem pass_eq
    (c : Conn)
    (fs : FileSystem) :
    c.pass fs =
      (c.stages fs).map
        fun c' => c'.sendPending.conclude := by
  unfold pass
  cases c.stages fs with
  | error f => rfl
  | ok c' => rfl

/- A pass that ends has run its stages. -/
theorem exists_stages
    {c : Conn}
    {fs : FileSystem}
    {r : Bool × Conn}
    (h : c.pass fs = .ok r) :
    ∃ c₁,
      c.stages fs = .ok c₁ ∧
        c₁.sendPending.conclude = r := by
  rw [pass_eq] at h
  cases hStages : c.stages fs with
  | error f =>
      rw [hStages] at h
      cases h
  | ok c₁ =>
      rw [hStages] at h
      exact ⟨c₁, rfl, Except.ok.inj h⟩

theorem later_pass
    {c c' : Conn}
    {fs : FileSystem}
    {again : Bool}
    (hPos : c.http.nowReadPos = 0)
    (h : c.pass fs = .ok (again, c')) :
    c.Later c' := by
  rcases exists_stages h with ⟨c₁, hStages, hEnd⟩
  have hLast := later_conclude c₁.sendPending
  rw [hEnd] at hLast
  exact
    (onward_stages hPos hStages).later.trans
      ((later_sendPending c₁).trans hLast)

end Conn

end V3

end WebServer

------------------------------------------------------------
-- Nested Calls
------------------------------------------------------------

namespace WebServer

namespace V3

open StdString

/- A call that starts a request takes bytes off the buffer. -/
theorem HttpData.parseHeaders_success_lt
    {d d' : HttpData}
    (hState : d.hState = .start)
    (h : d.parseHeaders = .ok (.success, d')) :
    d'.inBuffer.length < d.inBuffer.length := by
  have hMoved :=
    d.scanHeaders_rule .machine
      (I := fun i scan => i = 0 → scan.hState = .start)
      (R := HeaderEnd.Meets
        (fun i scan => scan.hState = .endLf → 0 < i)
        fun _ => True)
      (F := fun _ => True)
      (by
        intro scan hI hEnd
        apply Nat.pos_of_ne_zero
        intro hZero
        rw [hI hZero] at hEnd
        cases hEnd)
      (by
        intro i c scan hI _
        cases scan.next .machine d.inBuffer c i with
        | error f => trivial
        | ok turn =>
            cases turn with
            | more scan' => exact fun hZero => by omega
            | done scan' => exact fun _ => Nat.succ_pos i
            | error scan' => trivial)
      (fun _ => hState)
  rcases scanHeaders_of_success h with
    ⟨i, scan, hCase, hEnd, hLong, rfl⟩
  rw [hCase] at hMoved
  have hPos : 0 < i := hMoved hEnd
  simp only [List.length_drop]
  omega

namespace Conn

/- Between two requests. -/
def AtStart
    (c : Conn) : Prop :=
  c.http.state = .parseUri ∧ c.http.hState = .start

theorem AtStart.readStage
    {c : Conn}
    (hStart : c.AtStart) :
    c.readStage.conn.AtStart := by
  rcases c.readStage_cases with h | h | h | h | h <;>
    rw [h] <;> exact hStart

/-
  A request that starts in this pass: its request line is
  accepted, or the pass ends before `STATE_FINISH`.
-/
theorem AtStart.atHeaders
    {c : Conn}
    {flow : Flow}
    (hStart : c.AtStart)
    (hPos : c.http.nowReadPos = 0)
    (h : c.atHeaders = .ok flow) :
    match flow with
    | .go c₁ =>
        c₁.http.state = .parseHeaders ∧
          c₁.http.hState = .start
    | .brk c₁ => c₁.http.state ≠ .finish := by
  have hRead := hStart.readStage
  have hOn := c.onward_readStage
  unfold Conn.atHeaders at h
  cases hFlow : c.readStage with
  | brk c₁ =>
      rw [hFlow] at h hRead
      cases h
      simp only
      rw [show c₁.http.state = .parseUri from hRead.1]
      exact ProcessState.noConfusion
  | go c₁ =>
      rw [hFlow] at h hRead hOn
      have hUri : c₁.uriStage = .ok flow := h
      rcases c₁.uriStage_cases
          (hOn.nowReadPos.trans hPos) with
        ⟨hNot, _⟩ | ⟨_, _, _, _, _, _, _, hCall⟩ |
          ⟨_, _, _, _, _, _, _, _, hCall⟩
      · exact absurd hRead.1 hNot
      · rw [hCall] at hUri
        cases hUri
        show c₁.http.state ≠ .finish
        rw [show c₁.http.state = .parseUri from hRead.1]
        exact ProcessState.noConfusion
      · rw [hCall] at hUri
        cases hUri
        exact ⟨rfl, hRead.2⟩

/- Its header lines are complete, and shorten what is left. -/
theorem AtStart.atBody
    {c : Conn}
    {flow : Flow}
    (hStart : c.AtStart)
    (hPos : c.http.nowReadPos = 0)
    (h : c.atBody = .ok flow) :
    match flow with
    | .go c₂ =>
        (c₂.http.state = .recvBody ∨
            c₂.http.state = .analysis) ∧
          c₂.left < c.left
    | .brk c₂ => c₂.http.state ≠ .finish := by
  cases hBefore : c.atHeaders with
  | error f =>
      rw [Conn.atBody, hBefore] at h
      cases h
  | ok before =>
      have hLine := hStart.atHeaders hPos hBefore
      have hOn := onward_atHeaders hPos hBefore
      rw [Conn.atBody, hBefore] at h
      cases before with
      | brk c₁ =>
          cases h
          exact hLine
      | go c₁ =>
          have hHeaders : c₁.headerStage = .ok flow := h
          rcases headerStage_cases hHeaders with
            ⟨hNot, _⟩ | ⟨_, d, hCall, rfl⟩ |
              ⟨_, d, hCall, rfl⟩ | ⟨_, d, hCall, rfl⟩
          · exact absurd hLine.1 hNot
          · rcases parseHeaders_frame hCall with
              ⟨scan, k, rfl⟩
            simp only [HttpData.setScan]
            rw [hLine.1]
            exact ProcessState.noConfusion
          · rcases parseHeaders_frame hCall with
              ⟨scan, k, rfl⟩
            simp only [HttpData.setScan, failWith, handleError]
            rw [hLine.1]
            exact ProcessState.noConfusion
          · have hShorter :=
              HttpData.parseHeaders_success_lt hLine.2 hCall
            have hLeft := hOn.left
            refine ⟨?_, ?_⟩
            · simp only [afterHeaders]
              split_ifs
              · exact .inl rfl
              · exact .inr rfl
            · simp only [Conn.left, Flow.conn] at hLeft ⊢
              omega

theorem AtStart.atAnalysis
    {c : Conn}
    {flow : Flow}
    (hStart : c.AtStart)
    (hPos : c.http.nowReadPos = 0)
    (h : c.atAnalysis = .ok flow) :
    match flow with
    | .go c₃ =>
        c₃.http.state = .analysis ∧ c₃.left < c.left
    | .brk c₃ => c₃.http.state ≠ .finish := by
  cases hBefore : c.atBody with
  | error f =>
      rw [Conn.atAnalysis, hBefore] at h
      cases h
  | ok before =>
      have hHeaders := hStart.atBody hPos hBefore
      rw [Conn.atAnalysis, hBefore] at h
      cases before with
      | brk c₂ =>
          cases h
          exact hHeaders
      | go c₂ =>
          have hBody : c₂.bodyStage = .ok flow := h
          rcases bodyStage_cases hBody with
            ⟨hNot, rfl⟩ | ⟨hState, rfl⟩ | ⟨hState, rfl⟩ |
              ⟨_, _, rfl⟩
          · exact
              ⟨hHeaders.1.resolve_left hNot, hHeaders.2⟩
          · simp only [failWith, handleError]
            rw [hState]
            exact ProcessState.noConfusion
          · simp only
            rw [hState]
            exact ProcessState.noConfusion
          · exact ⟨rfl, hHeaders.2⟩

theorem AtStart.stages
    {c c' : Conn}
    {fs : FileSystem}
    (hStart : c.AtStart)
    (hPos : c.http.nowReadPos = 0)
    (h : c.stages fs = .ok c') :
    c'.http.state ≠ .finish ∨ c'.left < c.left := by
  rw [stages_eq] at h
  cases hBefore : c.atAnalysis with
  | error f =>
      rw [hBefore] at h
      cases h
  | ok before =>
      have hDue := hStart.atAnalysis hPos hBefore
      simp only [hBefore, Except.bind] at h
      cases before with
      | brk c₃ =>
          cases h
          exact .inl hDue
      | go c₃ =>
          cases hLast : c₃.analysisStage fs with
          | error f =>
              simp only [Flow.andThen, hLast] at h
              cases h
          | ok flow =>
              simp only [Flow.andThen, hLast] at h
              cases h
              have hOn := onward_analysisStage hLast
              exact .inr (Nat.lt_of_le_of_lt hOn.left hDue.2)

/- `handleRead` is called again only between requests. -/
theorem conclude_again
    {c c' : Conn}
    (h : c.conclude = (true, c')) :
    c.http.error = false ∧
      c.http.state = .finish ∧
      c' = c.reset ∧
      c'.http.inBuffer ≠ [] ∧
      c'.http.connectionState ≠ .disconnecting := by
  unfold conclude at h
  split_ifs at h with hError hFinish
  · cases h
  · simp only [Prod.mk.injEq, decide_eq_true_eq] at h
    rcases h with ⟨hMore, rfl⟩
    exact ⟨by simpa using hError, hFinish, rfl, hMore⟩
  · cases h
  · cases h

theorem atStart_reset
    (c : Conn) :
    c.reset.AtStart := by
  rcases c.reset_frame with ⟨timer, timers, hReset⟩
  rw [hReset]
  exact ⟨rfl, rfl⟩

/- A pass that calls `handleRead` again. -/
theorem pass_again
    {c c' : Conn}
    {fs : FileSystem}
    (h : c.pass fs = .ok (true, c')) :
    ∃ c₁,
      c.stages fs = .ok c₁ ∧
        c₁.http.state = .finish ∧
        c₁.sendPending.http.error = false ∧
        c' = c₁.sendPending.reset ∧
        c'.http.inBuffer ≠ [] ∧
        c'.http.connectionState ≠ .disconnecting := by
  rcases exists_stages h with ⟨c₁, hStages, hEnd⟩
  rcases conclude_again hEnd with
    ⟨hError, hFinish, hReset, hMore⟩
  refine ⟨c₁, hStages, ?_, hError, hReset, hMore⟩
  rcases c₁.sendPending_frame with
    ⟨_, _, _, _, _, hFrame⟩
  rw [hFrame] at hFinish
  exact hFinish

/- Each nested call leaves fewer bytes to parse. -/
theorem AtStart.pass
    {c c' : Conn}
    {fs : FileSystem}
    (hStart : c.AtStart)
    (hPos : c.http.nowReadPos = 0)
    (h : c.pass fs = .ok (true, c')) :
    c'.left < c.left := by
  rcases pass_again h with
    ⟨c₁, hStages, hFinish, _, rfl, _⟩
  have hLess :=
    (hStart.stages hPos hStages).resolve_left
      fun hNot => hNot hFinish
  have hLast :=
    (later_sendPending c₁).trans (later_reset _)
  exact Nat.lt_of_le_of_lt hLast.left hLess

/- A call inside a call, at the start of its own pass. -/
inductive NestedCall
    (fs : FileSystem) :
    Conn → Conn → Prop
| refl (c : Conn) : NestedCall fs c c
| next
    {c c₁ c₂ : Conn}
    (hPass : c.pass fs = .ok (true, c₁))
    (hRest : NestedCall fs c₁ c₂) :
    NestedCall fs c c₂

/- A call inside a call comes later. -/
theorem NestedCall.later
    {fs : FileSystem}
    {c c' : Conn}
    (h : NestedCall fs c c')
    (hPos : c.http.nowReadPos = 0) :
    c.Later c' := by
  induction h with
  | refl c => exact .refl c
  | next hPass hRest ih =>
      have hLater := later_pass hPos hPass
      exact hLater.trans (ih (hLater.nowReadPos hPos))

/-
  The bytes at hand bound the depth of the nested calls, so
  `handleRead` returns or raises.
-/
theorem handleReadAt_not_tooDeep
    {fs : FileSystem}
    {depth : Nat}
    {c : Conn}
    (hPos : c.http.nowReadPos = 0)
    (hDepth :
      c.left + 2 ≤ depth ∨
        c.AtStart ∧ c.left + 1 ≤ depth) :
    handleReadAt fs depth c ≠ .error .tooDeep := by
  induction depth generalizing c with
  | zero => omega
  | succ depth ih =>
      cases hPass : c.pass fs with
      | error f =>
          simp only [handleReadAt, hPass]
          intro hDeep
          cases hDeep
      | ok result =>
          rcases result with ⟨again, c₁⟩
          cases again with
          | false =>
              simp only [handleReadAt, hPass]
              intro hDeep
              cases hDeep
          | true =>
              simp only [handleReadAt, hPass]
              have hLater := later_pass hPos hPass
              apply ih (hLater.nowReadPos hPos)
              right
              rcases pass_again hPass with
                ⟨_, _, _, _, hReset, _⟩
              refine ⟨hReset ▸ atStart_reset _, ?_⟩
              have hLeft := hLater.left
              rcases hDepth with hDepth | ⟨hStart, hDepth⟩
              · omega
              · have hLess := hStart.pass hPos hPass
                omega

theorem handleRead_not_tooDeep
    (fs : FileSystem)
    {c : Conn}
    (hPos : c.http.nowReadPos = 0) :
    c.handleRead fs ≠ .error .tooDeep :=
  handleReadAt_not_tooDeep hPos (.inl (Nat.le_refl _))

/-
  The rule for nested calls: `I` holds at the start of every
  pass, `R` where the last one ends.
-/
theorem handleReadAt_rule
    {fs : FileSystem}
    {I R : Conn → Prop}
    (hNested : ∀ c c', I c →
      c.pass fs = .ok (true, c') → I c')
    (hLast : ∀ c c', I c →
      c.pass fs = .ok (false, c') → R c')
    {depth : Nat}
    {c c' : Conn}
    (hInit : I c)
    (h : handleReadAt fs depth c = .ok c') :
    R c' := by
  induction depth generalizing c with
  | zero => cases h
  | succ depth ih =>
      cases hPass : c.pass fs with
      | error f =>
          simp only [handleReadAt, hPass] at h
          cases h
      | ok result =>
          rcases result with ⟨again, c₁⟩
          simp only [handleReadAt, hPass] at h
          cases again with
          | false =>
              cases h
              exact hLast c c' hInit hPass
          | true => exact ih (hNested c c₁ hInit hPass) h

theorem later_handleReadAt
    {fs : FileSystem}
    {depth : Nat}
    {c c' : Conn}
    (hPos : c.http.nowReadPos = 0)
    (h : handleReadAt fs depth c = .ok c') :
    c.Later c' := by
  apply
    handleReadAt_rule
      (I := fun c₁ => c.Later c₁)
      (R := fun c₁ => c.Later c₁) ?_ ?_ (.refl c) h
  · intro c₁ c₂ hLater hPass
    exact
      hLater.trans
        (later_pass (hLater.nowReadPos hPos) hPass)
  · intro c₁ c₂ hLater hPass
    exact
      hLater.trans
        (later_pass (hLater.nowReadPos hPos) hPass)

end Conn

end V3

end WebServer

------------------------------------------------------------
-- How Deep The Calls Go
------------------------------------------------------------

namespace WebServer

namespace V3

open StdString

namespace Conn

/- A call `n` levels inside a call. -/
inductive CallAt
    (fs : FileSystem) :
    Nat → Conn → Conn → Prop
| zero (c : Conn) : CallAt fs 0 c c
| succ
    {n : Nat}
    {c c₁ c₂ : Conn}
    (hPass : c.pass fs = .ok (true, c₁))
    (hRest : CallAt fs n c₁ c₂) :
    CallAt fs (n + 1) c c₂

/-
  Every level takes a byte, by induction on the levels: each
  call inside a call starts a request.
-/
theorem CallAt.left_le
    {fs : FileSystem}
    {n : Nat}
    {c c' : Conn}
    (h : CallAt fs n c c')
    (hStart : c.AtStart)
    (hPos : c.http.nowReadPos = 0) :
    c'.left + n ≤ c.left ∧
      c'.AtStart ∧ c'.http.nowReadPos = 0 := by
  induction h with
  | zero c => exact ⟨Nat.le_refl _, hStart, hPos⟩
  | @succ n c c₁ c₂ hPass hRest ih =>
      have hLess := hStart.pass hPos hPass
      have hPos₁ := (later_pass hPos hPass).nowReadPos hPos
      have hStart₁ : c₁.AtStart := by
        rcases pass_again hPass with ⟨_, _, _, _, hReset, _⟩
        exact hReset ▸ atStart_reset _
      rcases ih hStart₁ hPos₁ with ⟨hLeft, hEnd⟩
      exact ⟨by omega, hEnd⟩

/-
  `handleRead` calls itself at most as many levels deep as
  there are bytes in the buffer and on the socket, and
  within that many levels it returns or raises: every pass
  that reaches `STATE_FINISH` has taken a byte.
-/
theorem handleRead_levels
    {c : Conn}
    (hState : c.http.state = .parseUri)
    (hHeaders : c.http.hState = .start)
    (hPos : c.http.nowReadPos = 0)
    (fs : FileSystem) :
    handleReadAt fs
          (c.http.inBuffer.length +
            c.socket.pending.length + 1) c ≠
        .error .tooDeep ∧
      ∀ n c', CallAt fs n c c' →
        n ≤ c.http.inBuffer.length +
            c.socket.pending.length ∧
          ∀ c'', c'.stages fs = .ok c'' →
            c''.http.state = .finish →
              c''.http.inBuffer.length +
                  c''.socket.pending.length <
                c'.http.inBuffer.length +
                  c'.socket.pending.length := by
  have hStart : c.AtStart := ⟨hState, hHeaders⟩
  constructor
  · exact
      handleReadAt_not_tooDeep hPos
        (.inr ⟨hStart, Nat.le_refl _⟩)
  · intro n c' hCall
    rcases hCall.left_le hStart hPos with
      ⟨hLeft, hStart', hPos'⟩
    refine ⟨Nat.le_trans (Nat.le_add_left n _) hLeft, ?_⟩
    intro c'' hStages hFinish
    exact
      (hStart'.stages hPos' hStages).resolve_left
        fun hNot => hNot hFinish

/- Two requests in one chunk. -/
theorem handleRead_levels_twice :
    let c : Conn :=
      .new
        ⟨[.data
          (utf8
            "GET / HTTP/1.1\r\nA: b\r\n\r\nGET / HTTP/1.1\r\n")],
          [], []⟩
    handleReadAt noFiles
          (c.http.inBuffer.length +
            c.socket.pending.length + 1) c ≠
        .error .tooDeep ∧
      ∀ n c', CallAt noFiles n c c' →
        n ≤ c.http.inBuffer.length +
            c.socket.pending.length ∧
          ∀ c'', c'.stages noFiles = .ok c'' →
            c''.http.state = .finish →
              c''.http.inBuffer.length +
                  c''.socket.pending.length <
                c'.http.inBuffer.length +
                  c'.socket.pending.length :=
  handleRead_levels rfl rfl rfl noFiles

end Conn

end V3

end WebServer
