import WebServer.V2.Http.Answers
import WebServer.V2.Http.Mappings
import WebServer.V2.Http.SendExact

/-
  A session of version 2.0: one connection that is kept over
  several requests.

  The client sends its requests one after another, each of
  them once it has the answer to the one before, and in any
  pieces. Their bytes are read by the main thread, parsed by
  a worker whenever it gets to it, and answered by the main
  thread in any pieces. What the client has received at any
  time is the answers to its first requests, in order, and
  the front of the next one. The server ends the session
  only behind an answer to a request that did not ask to
  stay, or when the connection is lost.

  Key definitions include:
    * `HttpConn.Sends`
    * `HttpParser.Takes`
    * `sessionMachine`
    * `Session.InOrder`

  Key theorems include:
    * `HttpConn.Sends.accepted`
    * `HttpParser.Takes.answered`
    * `Session.Stage.step`
    * `session_in_order`
-/

------------------------------------------------------------
-- What Is Sent
------------------------------------------------------------

namespace WebServer

namespace V2

namespace HttpConn

/- Nothing was printed and nothing was sent. -/
structure Fresh
    (conn : HttpConn) : Prop where
  size : conn.writeBuffer.length = writeBufferSize
  idx : conn.writeIdx = 0
  have_eq : conn.bytesHaveSend = 0

/-
  A text is sent from the write buffer alone, and `part` of
  it was.
-/
structure SendsForm
    (text part : Bytes)
    (conn : HttpConn) : Prop where
  part_eq : part = text.take part.length
  part_lt : part.length < text.length
  written : text <+: conn.writeBuffer
  idx : conn.writeIdx = text.length
  iv0 :
    conn.iv0 =
      ⟨.writeBuffer, part.length,
        text.length - part.length⟩
  ivCount : conn.ivCount = 1
  have_eq : conn.bytesHaveSend = part.length
  left_eq :
    conn.bytesToSend = (text.length : Int) - part.length

/- An answer is sent, and `part` of it was. -/
structure Sends
    (a : Answer)
    (part : Bytes)
    (conn : HttpConn) : Prop where
  linger : conn.linger = a.keepAlive
  how :
    (∃ r : FileResponse,
        r.header = a.head ∧ r.file = a.file ∧
          WriteRun.Sending r ⟨conn, .looping, part⟩) ∨
      a.file = [] ∧ conn.SendsForm a.head part

/-
  A write that ends inside the header leaves the total sent
  below what was left of the header before it.
-/
def HeaderKept
    (conn : HttpConn)
    (n : Nat) : Prop :=
  conn.bytesHaveSend + n < conn.writeIdx →
    conn.bytesHaveSend + n <
      conn.writeIdx - conn.bytesHaveSend

instance
    (conn : HttpConn)
    (n : Nat) :
    Decidable (conn.HeaderKept n) := by
  unfold HeaderKept
  infer_instance

theorem fresh_init
    (conn : HttpConn) :
    conn.init.Fresh where
  size := List.length_replicate
  idx := rfl
  have_eq := rfl

/- What is not counted or described stays. -/
theorem advance_linger
    {conn conn' : HttpConn}
    {tmp : Int}
    (h : conn.advance tmp = some conn') :
    conn'.linger = conn.linger := by
  unfold HttpConn.advance at h
  simp only [Option.bind_eq_bind, Option.bind_eq_some_iff]
    at h
  rcases h with ⟨_, _, _, _, h⟩
  split at h
  · rcases Option.bind_eq_some_iff.mp h with ⟨_, _, h⟩
    cases h
    rfl
  · cases h
    rfl

/- An accepted write, given what the counters become. -/
theorem afterWritev_accepted
    {conn conn' : HttpConn}
    {n : Nat}
    (hSmall : n < 2 ^ 31)
    (hAdvance : conn.advance n = some conn') :
    conn.afterWritev (.accepted n) =
      some
        (if conn'.bytesToSend ≤ (0 : Int) then
          conn'.finishWrite
        else
          (conn', .looping)) := by
  have hTmp : toInt32 n = n :=
    toInt32_of_isInt32 ⟨by omega, by omega⟩
  have hPositive : ¬ (n : Int) ≤ -1 := by
    omega
  unfold afterWritev
  simp only [hTmp, if_neg hPositive, hAdvance,
    Option.bind_eq_bind, Option.bind_some]
  split_ifs <;> rfl

/- The end of a response, and what it leaves. -/
theorem finishWrite_eq
    (conn : HttpConn) :
    ∃ conn',
      conn.finishWrite = (conn', .finished conn.linger) ∧
        (conn.linger = true → conn'.Fresh) := by
  unfold finishWrite
  cases hLinger : conn.linger with
  | true => exact ⟨_, rfl, fun _ => fresh_init _⟩
  | false => exact ⟨_, rfl, fun hTrue => nomatch hTrue⟩

/-
  What a write of `n` bytes makes of an answer in progress:
  it goes on, or it has ended.
-/
structure Progress
    (a : Answer)
    (part : Bytes)
    (r : HttpConn × WritePhase) : Prop where
  how :
    r.2 = .looping ∧ r.1.Sends a part ∨
      r.2 = .finished a.keepAlive ∧ part = a.bytes ∧
        (a.keepAlive = true → r.1.Fresh)

theorem Sends.progress
    {a : Answer}
    {part : Bytes}
    {conn conn' : HttpConn}
    {n : Nat}
    (h : conn.Sends a part)
    (hSmall : n < 2 ^ 31)
    (hAdvance : conn.advance n = some conn')
    (hLeft :
      conn'.bytesToSend =
        (a.bytes.length : Int) - part.length - n)
    (hFits : part.length + n ≤ a.bytes.length)
    (hPart : part = a.bytes.take part.length)
    (hMore :
      part.length + n < a.bytes.length →
        conn'.Sends a (a.bytes.take (part.length + n))) :
    ∃ r,
      conn.afterWritev (.accepted n) = some r ∧
        Progress a
          (part ++ (a.bytes.drop part.length).take n) r := by
  have hNext :
      part ++ (a.bytes.drop part.length).take n =
        a.bytes.take (part.length + n) := by
    rw [List.take_add, ← hPart]
  refine ⟨_, afterWritev_accepted hSmall hAdvance, ?_⟩
  rw [hNext]
  by_cases hLast : part.length + n = a.bytes.length
  · rw [if_pos (by omega)]
    rcases conn'.finishWrite_eq with
      ⟨conn'', hDone, hFresh⟩
    have hLinger : conn'.linger = a.keepAlive :=
      (advance_linger hAdvance).trans h.linger
    rw [hDone]
    rw [hLinger] at hFresh ⊢
    refine ⟨.inr ⟨rfl, ?_, hFresh⟩⟩
    rw [hLast, List.take_length]
  · rw [if_neg (by omega)]
    exact ⟨.inl ⟨rfl, hMore (by omega)⟩⟩

end HttpConn

end V2

end WebServer

------------------------------------------------------------
-- Files And Forms
------------------------------------------------------------

namespace WebServer

namespace V2

namespace HttpConn

variable {a : Answer}
variable {text part : Bytes}
variable {conn : HttpConn}
variable {n : Nat}

/- The block that is left of a text. -/
theorem SendsForm.gather
    (h : conn.SendsForm text part) :
    conn.gather = some (text.drop part.length) := by
  have hLong := h.written.length_le
  have hLess := h.part_lt
  rcases h.written with ⟨rest, hRest⟩
  have hBlock :
      conn.block conn.iv0 = some (text.drop part.length) := by
    have hAll :=
      @block_eq conn conn.iv0 conn.writeBuffer part.length
        (by rw [h.iv0]; rfl) (by rw [h.iv0])
        (by rw [h.iv0]; simp only; omega)
    rw [hAll, h.iv0, ← hRest,
      List.drop_append_of_le_length (by omega)]
    simp only
    rw [← List.length_drop, List.take_left]
  unfold HttpConn.gather iovecs
  rw [h.ivCount]
  show (([conn.iv0].mapM conn.block).bind fun blocks =>
    some blocks.flatten) = _
  rw [List.mapM_cons, hBlock]
  simp

/- The bookkeeping of a write that the header survives. -/
theorem SendsForm.advance
    (h : conn.SendsForm text part)
    (hSmall : text.length < 2 ^ 31)
    (hFits : part.length + n ≤ text.length)
    (hKept : conn.HeaderKept n) :
    ∃ conn',
      conn.advance n = some conn' ∧
        conn'.bytesToSend =
            (text.length : Int) - part.length - n ∧
          (part.length + n < text.length →
            conn'.SendsForm text
              (text.take (part.length + n))) := by
  have hLess := h.part_lt
  have hAdd :
      addInt32 conn.bytesHaveSend n =
        some ((part.length : Int) + n) := by
    rw [h.have_eq, addInt32_of_isInt32]
    exact ⟨by omega, by omega⟩
  have hSub :
      subInt32 conn.bytesToSend n =
        some ((text.length : Int) - part.length - n) := by
    rw [h.left_eq, subInt32_of_isInt32]
    exact ⟨by omega, by omega⟩
  have hOffset :
      subInt32 ((part.length : Int) + n) conn.writeIdx =
        some ((part.length : Int) + n - text.length) := by
    rw [h.idx, subInt32_of_isInt32]
    exact ⟨by omega, by omega⟩
  have hTotal :
      toSize ((part.length : Int) + n) =
        part.length + n := by
    rw [toSize_of_nonneg (by omega) (by omega)]
    omega
  have hLength :
      conn.iv0.iovLen = text.length - part.length := by
    rw [h.iv0]
  unfold HeaderKept at hKept
  rw [h.have_eq, h.idx] at hKept
  unfold HttpConn.advance
  by_cases hPast : conn.iv0.iovLen ≤ part.length + n
  · simp only [hAdd, hSub, hTotal, hPast, hOffset,
      Option.bind_eq_bind, Option.bind_some, if_true]
    refine ⟨_, rfl, rfl, ?_⟩
    intro hMore
    omega
  · have hRest :
        toSize ((conn.iv0.iovLen : Int) - n) =
          text.length - (part.length + n) := by
      rw [toSize_of_nonneg (by omega) (by omega)]
      omega
    simp only [hAdd, hSub, hTotal, hPast, hRest,
      Option.bind_eq_bind, Option.bind_some, if_false]
    refine ⟨_, rfl, rfl, ?_⟩
    intro hMore
    have hTake :
        (text.take (part.length + n)).length =
          part.length + n := by
      rw [List.length_take]
      omega
    exact
      { part_eq := by rw [hTake]
        part_lt := by omega
        written := h.written
        idx := h.idx
        iv0 := by
          simp only [hTake, Int.natCast_add]
        ivCount := h.ivCount
        have_eq := by
          simp only [hTake, Int.natCast_add]
        left_eq := by
          simp only [hTake, Int.natCast_add]
          omega }

/- What is handed to the kernel is the rest of the answer. -/
theorem Sends.gather
    (h : conn.Sends a part) :
    conn.gather = some (a.bytes.drop part.length) := by
  rcases h.how with
    ⟨r, hHead, hFile, hSending⟩ | ⟨hNone, hForm⟩
  · have hBytes : r.bytes = a.bytes := by
      unfold FileResponse.bytes Answer.bytes
      rw [hHead, hFile]
    rw [← hBytes]
    exact hSending.gather
  · unfold Answer.bytes
    rw [hNone, List.append_nil]
    exact hForm.gather

theorem Sends.described
    (h : conn.Sends a part) :
    conn.described = a.bytes.length - part.length := by
  rw [← WriteRun.length_gather h.gather, List.length_drop]

/- A part that was sent is not all. -/
theorem Sends.front
    (h : conn.Sends a part) :
    part = a.bytes.take part.length ∧
      part.length < a.bytes.length ∧
        conn.bytesToSend ≠ 0 := by
  rcases h.how with
    ⟨r, hHead, hFile, hSending⟩ | ⟨hNone, hForm⟩
  · have hBytes : r.bytes = a.bytes := by
      unfold FileResponse.bytes Answer.bytes
      rw [hHead, hFile]
    have hLess := hSending.sent_lt
    have hLeft := hSending.left_eq
    rw [← hBytes]
    simp only at hLess hLeft
    exact ⟨hSending.sent_eq, hLess, by omega⟩
  · have hLess := hForm.part_lt
    have hLeft := hForm.left_eq
    unfold Answer.bytes
    rw [hNone, List.append_nil]
    exact ⟨hForm.part_eq, hLess, by omega⟩

/- An accepted write of an answer in progress. -/
theorem Sends.accepted
    (h : conn.Sends a part)
    (hSmall : a.bytes.length < 2 ^ 31)
    (hFits : n ≤ conn.described)
    (hKept : conn.HeaderKept n) :
    ∃ r,
      conn.afterWritev (.accepted n) = some r ∧
        Progress a
          (part ++ (a.bytes.drop part.length).take n) r := by
  have hDescribed := h.described
  rcases h.front with ⟨hPart, hLess, _⟩
  rcases h.how with
    ⟨r, hHead, hFile, hSending⟩ | ⟨hNone, hForm⟩
  · have hBytes : r.bytes = a.bytes := by
      unfold FileResponse.bytes Answer.bytes
      rw [hHead, hFile]
    have hKept' :
        WriteRun.HeaderKept r ⟨conn, .looping, part⟩
          (.writev (.accepted n)) := by
      have hHave := hSending.have_eq
      have hIdx := hSending.idx_eq
      unfold HeaderKept at hKept
      simp only at hHave hIdx
      rw [hHave, hIdx] at hKept
      intro hInside
      simp only at hInside ⊢
      omega
    rcases
      hSending.advance (hBytes ▸ hSmall) (n := n)
        (by rw [hBytes]; simp only; omega) with
      ⟨conn', hAdvance, hAdvanced⟩
    have hLinger : conn'.linger = a.keepAlive :=
      (advance_linger hAdvance).trans h.linger
    refine
      h.progress (by omega) hAdvance ?_ (by omega) hPart ?_
    · rw [hAdvanced.left_eq, hBytes]
    · intro hMore
      have hNext :=
        hSending.advanced_sending hAdvanced
          (by rw [hBytes]; exact hMore) hKept'
      rw [hBytes] at hNext
      exact ⟨hLinger, .inl ⟨r, hHead, hFile, hNext⟩⟩
  · have hBytes : a.bytes = a.head := by
      unfold Answer.bytes
      rw [hNone, List.append_nil]
    rw [hBytes] at hSmall hDescribed hLess
    rcases
      hForm.advance hSmall (n := n) (by omega) hKept with
      ⟨conn', hAdvance, hLeft, hMore⟩
    have hLinger : conn'.linger = a.keepAlive :=
      (advance_linger hAdvance).trans h.linger
    refine h.progress (by omega) hAdvance ?_ ?_ hPart ?_
    · rw [hLeft, hBytes]
    · rw [hBytes]
      omega
    · intro hNext
      rw [hBytes] at hNext ⊢
      exact ⟨hLinger, .inr ⟨hNone, hMore hNext⟩⟩

end HttpConn

end V2

end WebServer

------------------------------------------------------------
-- What `process_write` Starts
------------------------------------------------------------

namespace WebServer

namespace V2

namespace HttpConn

variable {conn : HttpConn}

theorem errorResponse_form
    {status : Int}
    {title form : Bytes}
    (hAdded :
      (conn.errorResponse status title form).1 = true) :
    ∃ conn' : HttpConn,
      (conn.errorResponse status title form).2 =
          conn'.describeBuffer ∧
        conn'.bytesHaveSend = conn.bytesHaveSend := by
  unfold errorResponse addContent at hAdded ⊢
  simp only at hAdded ⊢
  split_ifs at hAdded ⊢
  refine ⟨_, rfl, ?_⟩
  unfold addStatusLine
  rw [(addResponse_frame _ _).2, (addHeaders_frame _ _).2,
    (addResponse_frame _ _).2]

/- All but a file is sent from the write buffer alone. -/
theorem processWrite_form
    {stSize : Nat}
    {code : HttpCode}
    (hCode : code ≠ .fileRequest)
    (hAdded : (conn.processWrite stSize code).1 = true) :
    ∃ conn' : HttpConn,
      (conn.processWrite stSize code).2 =
          conn'.describeBuffer ∧
        conn'.bytesHaveSend = conn.bytesHaveSend := by
  cases code with
  | noRequest => exact errorResponse_form hAdded
  | badRequest => exact errorResponse_form hAdded
  | noResource => exact errorResponse_form hAdded
  | forbiddenRequest => exact errorResponse_form hAdded
  | fileRequest => exact absurd rfl hCode
  | closedConnection => exact ⟨conn, rfl, rfl⟩
  | getRequest =>
      refine ⟨_, rfl, ?_⟩
      unfold addStatusLine
      rw [(addHeaders_frame _ _).2, (addResponse_frame _ _).2]
  | internalError =>
      unfold processWrite addContent at hAdded ⊢
      simp only at hAdded ⊢
      split_ifs at hAdded ⊢
      refine ⟨_, rfl, ?_⟩
      unfold addStatusLine
      rw [(addResponse_frame _ _).2, (addHeaders_frame _ _).2,
        (addHeaders_frame _ _).2, (addResponse_frame _ _).2]

/- An answer that was printed is about to be sent. -/
theorem Fresh.processWrite
    {code : HttpCode}
    {a : Answer}
    {c : HttpParser}
    (h : conn.Fresh)
    (hLinger : conn.linger = a.keepAlive)
    (hServes : code.Serves a c)
    (hFile : conn.fileAddress = c.fileAddress.region)
    (hSmall : a.bytes.length < 2 ^ 31) :
    (conn.processWrite c.statSize code).1 = true ∧
      (conn.processWrite c.statSize code).2.Sends a [] := by
  have hHolds : conn.Holds a.keepAlive [] :=
    ⟨h.size, h.idx, List.nil_prefix, hLinger⟩
  by_cases hCode : code = .fileRequest
  · subst hCode
    rcases hServes.file rfl with
      ⟨hAddress, st, hStat, hSize⟩
    have hStatSize : c.statSize = a.file.length := by
      unfold HttpParser.statSize
      rw [hStat]
      exact hSize
    rw [hAddress] at hFile
    rcases hHolds.fileRequest hFile h.have_eq with
      ⟨r, hCall, hHeader, hSent, hKeep⟩
    have hBytes : r.bytes = a.bytes := by
      unfold FileResponse.bytes Answer.bytes
      rw [hHeader, hSent, hServes.head]
    have hGood :=
      WriteRun.init_good (r := r)
        (by rw [hBytes]; exact hSmall)
    rw [hStatSize, hCall]
    refine ⟨rfl, hKeep, .inl ⟨r, ?_, hSent, ?_⟩⟩
    · rw [hHeader]
      exact hServes.head
    · exact { hGood with }
  · have hReady := hHolds.processWrite c.statSize code
    have hHead :
        code.response a.keepAlive c.statSize = a.head := by
      rw [HttpCode.response_size hCode, ← hServes.head]
      exact (HttpCode.response_size hCode _ _).symm
    have hText := hReady.holds
    rw [hHead] at hText
    rcases processWrite_form hCode hReady.success with
      ⟨conn', hCall, hHave⟩
    refine
      ⟨hReady.success, hText.linger_eq,
        .inr ⟨hServes.noFile hCode, ?_⟩⟩
    have hSome : 0 < a.head.length := by
      rw [← hHead]
      rcases HttpCode.response_eq hServes.stays a.keepAlive
          c.statSize with
        ⟨status, title, rest, hResponse⟩
      rw [hResponse]
      unfold statusLine
      simp only [List.length_append, List.length_cons]
      omega
    have hIdx := hText.idx
    rw [hCall] at hText hIdx ⊢
    have hIdx' : conn'.writeIdx = a.head.length := hIdx
    exact
      { part_eq := rfl
        part_lt := hSome
        written := hText.written
        idx := hIdx
        iv0 := by
          show
            (⟨.writeBuffer, 0, conn'.writeIdx.toNat⟩ : Iovec) =
              _
          rw [hIdx', Int.toNat_natCast]
          rfl
        ivCount := rfl
        have_eq := hHave.trans h.have_eq
        left_eq := by
          show conn'.writeIdx = _
          rw [hIdx']
          exact (Int.sub_zero _).symm }

end HttpConn

end V2

end WebServer

------------------------------------------------------------
-- What Is Read
------------------------------------------------------------

namespace WebServer

namespace V2

/- The bytes that `recv` finds before it finds none. -/
def delivered :
    List RecvResult → Bytes
| .bytes data :: rest => data ++ delivered rest
| _ => []

/- A request that a client of a session may send. -/
structure Servable
    (fs : FileSystem)
    (q : Bytes) : Prop where
  cuttable : Cuttable q
  answered :
    ∃ a, answer fs q = some a ∧ a.bytes.length < 2 ^ 31

theorem Cuttable.received
    {s : Bytes}
    (h : Cuttable s) :
    Received s where
  noNul := h.noNul
  short := Nat.le_of_lt h.short
  blank := by
    intro line hLine
    rcases frontLine_split hLine with ⟨rest, hSplit, hPlain⟩
    exact h.firstLine line rest hSplit hPlain
  noBody := by
    intro i _ hEnd _ line hLine
    rcases frontLine_split hLine with ⟨rest, hSplit, hPlain⟩
    rcases hEnd with ⟨tail, hTail⟩
    apply h.noBody (s.take i) line rest ?_ hPlain
    rw [← hSplit, ← List.drop_drop, ← hTail]
    show s = s.take i ++ ([13, 10] ++ tail)
    rw [hTail, List.take_append_drop]

namespace HttpParser

/- A call of `read()` that succeeds has taken them all. -/
theorem readLoop_delivered
    {results : List RecvResult}
    {c : HttpParser}
    (hIn : c.readIdx ≤ c.readBuffer.length)
    (hFits :
      c.readIdx + (delivered results).length ≤
        readBufferSize)
    (hSuccess : (readLoop results c).1 = true) :
    (readLoop results c).2 = c.receive (delivered results) := by
  induction results generalizing c with
  | nil => exact (receive_nil c).symm
  | cons res rest ih =>
      cases res with
      | eagain => exact (receive_nil c).symm
      | closed => cases hSuccess
      | error => cases hSuccess
      | bytes data =>
          unfold delivered at hFits ⊢
          rw [List.length_append] at hFits
          have hTaken :
              data.take (readBufferSize - c.readIdx) =
                data := by
            apply List.take_of_length_le
            omega
          unfold readLoop at hSuccess ⊢
          simp only [hTaken] at hSuccess ⊢
          split_ifs at hSuccess ⊢
          have hMore :
              (c.receive data).readIdx +
                  (delivered rest).length ≤
                readBufferSize := by
            show c.readIdx + data.length +
              (delivered rest).length ≤ readBufferSize
            omega
          rw [ih (CString.le_length_store hIn data) hMore
            hSuccess, receive_receive hIn]

/-
  The parser has taken the front of a request: a call on the
  rest of it ends as one on the whole request would.
-/
structure Takes
    (fs : FileSystem)
    (q received : Bytes)
    (c : HttpParser) : Prop where
  front : received <+: q
  tracks : c.Tracks q
  readIdx : c.readIdx = received.length
  resumes :
    ∃ conn : HttpParser,
      ∀ o,
        ReadsTo fs (c.receive (q.drop received.length)) o →
          ReadsTo fs (conn.init.receive q) o

variable {fs : FileSystem}
variable {q received bytes : Bytes}
variable {c : HttpParser}

theorem takes_init
    (fs : FileSystem)
    (q : Bytes)
    (c : HttpParser) :
    c.init.Takes fs q [] where
  front := List.nil_prefix
  tracks := tracks_init q c
  readIdx := rfl
  resumes := ⟨c, fun _ hReads => hReads⟩

theorem Takes.receive
    (h : c.Takes fs q received)
    (hFront : received ++ bytes <+: q) :
    (c.receive bytes).Takes fs q (received ++ bytes) := by
  rcases hFront with ⟨rest, hRest⟩
  have hDrop : q.drop received.length = bytes ++ rest := by
    rw [← hRest, List.append_assoc, List.drop_left]
  have hDrop' : q.drop (received ++ bytes).length = rest := by
    rw [← hRest, List.drop_left]
  rcases h.resumes with ⟨conn, hResumes⟩
  refine ⟨⟨rest, hRest⟩, ?_, ?_, conn, ?_⟩
  · refine @Tracks.receive q rest bytes c h.tracks ?_
    rw [h.readIdx]
    exact hDrop
  · rw [List.length_append, ← h.readIdx]
    rfl
  · intro o hReads
    apply hResumes
    rw [hDrop, ← receive_receive h.tracks.framed.readIdx_le,
      ← hDrop']
    exact hReads

theorem Takes.read
    {results : List RecvResult}
    (h : c.Takes fs q received)
    (hShort : q.length < readBufferSize)
    (hFront : received ++ delivered results <+: q)
    (hSuccess : (c.read results).1 = true) :
    (c.read results).2.Takes fs q
      (received ++ delivered results) := by
  have hLong := hFront.length_le
  have hAt := h.readIdx
  rw [List.length_append] at hLong
  unfold HttpParser.read at hSuccess ⊢
  rw [if_neg (by omega)] at hSuccess ⊢
  rw [readLoop_delivered h.tracks.framed.readIdx_le
    (by omega) hSuccess]
  exact h.receive hFront

/-
  A call waits for the rest of the request, or it ends as one
  on the whole of it.
-/
theorem Takes.call
    (h : c.Takes fs q received)
    (hCut : Cuttable q) :
    (∃ d,
        c.processRead fs = .ok (.noRequest, d) ∧
          d.Takes fs q received) ∨
      ∃ (code : HttpCode) (d conn : HttpParser) (rest : Bytes),
        c.processRead fs = .ok (code, d) ∧
          ReadsTo fs (conn.init.receive q)
            (.returned code (d.receive rest)) := by
  have hFramed := h.tracks.framed
  rcases exists_readsTo fs hFramed with ⟨o, hReads⟩
  have hKeeps := h.tracks.readsTo hReads hCut
  have hLeaves := hReads.leaves hFramed
  have hCall := hReads.processRead hFramed
  rcases h.resumes with ⟨conn, hResumes⟩
  cases o with
  | fault f => exact hKeeps.elim
  | waits d =>
      have hDone : d.Tracks q := hKeeps
      have hRead : d.readIdx = c.readIdx := hLeaves
      refine
        .inl
          ⟨d, hCall, h.front, hDone, hRead.trans h.readIdx,
            conn, ?_⟩
      intro o hNext
      exact hResumes o (hReads.resume hFramed hNext)
  | returned code d =>
      have hWhole :=
        hResumes _
          (hReads.receive hFramed trivial
            (q.drop received.length))
      exact .inr ⟨code, d, conn, _, hCall, hWhole⟩

/- A request that has an answer is served or waited for. -/
theorem Takes.answered
    {a : Answer}
    (h : c.Takes fs q received)
    (hMaps : fs.Maps)
    (hCut : Cuttable q)
    (hAnswer : answer fs q = some a) :
    (∃ d,
        c.processRead fs = .ok (.noRequest, d) ∧
          d.Takes fs q received) ∨
      ∃ code d,
        c.processRead fs = .ok (code, d) ∧
          code.Serves a d := by
  rcases h.call hCut with
    hWaits | ⟨code, d, conn, rest, hCall, hWhole⟩
  · exact .inl hWaits
  · rcases
      readsTo_serves hMaps hCut.received hAnswer conn
        hWhole with
      ⟨code', c', hSame, hServes⟩
    cases hSame
    exact .inr ⟨_, d, hCall, { hServes with }⟩

/- Nothing is waited for. -/
theorem Takes.waits_nil
    (h : c.Takes fs [] received) :
    ∃ d,
      c.processRead fs = .ok (.noRequest, d) ∧
        d.Takes fs [] received := by
  rcases h.call (by decide) with
    hWaits | ⟨code, d, conn, rest, hCall, hWhole⟩
  · exact hWaits
  · have hNone :
        conn.init.parseLine = (.lineOpen, conn.init) :=
      parseLine_at_end (Nat.le_refl _)
    rw [receive_nil] at hWhole
    cases hWhole with
    | returned hState hLine hTurn =>
        rw [hNone] at hLine
        cases hLine
    | again hState hLine hTurn hRest =>
        rw [hNone] at hLine
        cases hLine

end HttpParser

end V2

end WebServer

------------------------------------------------------------
-- Sessions
------------------------------------------------------------

namespace WebServer

namespace V2

/- What happens to the connection of a session. -/
inductive SessionEvent
| read (results : List RecvResult) (queued : Bool)
| process
| write
| writev (res : WritevResult)
| hangUp
| expire
deriving DecidableEq, Repr

/- The step of the object; the files are those of `fs`. -/
def SessionEvent.on
    (fs : FileSystem) :
    SessionEvent → MappingEvent
| .read results queued => .read results queued
| .process => .process fs
| .write => .write
| .writev res => .writev res
| .hangUp => .hangUp
| .expire => .expire

/-
  What went over the connection: the bytes of the request
  that is being served, all bytes sent, and how many
  requests were served. It is lost where the server ends it
  other than behind an answer.
-/
structure SessionRecord where
  received : Bytes
  sent : Bytes
  served : Nat
  lost : Bool
deriving DecidableEq, Repr

/- What `writev` took of what it was asked to send. -/
def HttpConn.taken
    (conn : HttpConn) :
    WritevResult → Bytes
| .accepted n => (conn.gather.getD []).take n
| _ => []

namespace SessionRecord

def init : SessionRecord where
  received := []
  sent := []
  served := 0
  lost := false

/- Bytes that were sent, and how `write()` goes on. -/
def wrote
    (r : SessionRecord)
    (bytes : Bytes) :
    WritePhase → SessionRecord
| .finished _ =>
    { r with
      received := []
      sent := r.sent ++ bytes
      served := r.served + 1 }
| .failed => { r with sent := r.sent ++ bytes, lost := true }
| _ => { r with sent := r.sent ++ bytes }

/- The record of a step. -/
def note
    (s : MappingRun)
    (r : SessionRecord) :
    SessionEvent → SessionRecord
| .read results _ =>
    { r with
      received := r.received ++ delivered results
      lost := r.lost || !(s.parser.read results).1 }
| .writev res =>
    match s.conn.afterWritev res with
    | some (_, phase) => r.wrote (s.conn.taken res) phase
    | none => r
| .hangUp => { r with lost := true }
| .expire => { r with lost := true }
| _ => r

end SessionRecord

/- An object that serves one connection, and its record. -/
structure Session where
  run : MappingRun
  record : SessionRecord

/- One connection, from its `accept` on. -/
def sessionMachine
    (fs : FileSystem) : Machine Session SessionEvent where
  enabled x e := mappingMachine.enabled x.run (e.on fs)
  step x e :=
    (mappingMachine.step x.run (e.on fs)).map fun run =>
      ⟨run, x.record.note x.run e⟩

instance
    (fs : FileSystem)
    (x : Session)
    (e : SessionEvent) :
    Decidable ((sessionMachine fs).enabled x e) :=
  inferInstanceAs (Decidable (x.run.enabled (e.on fs)))

/- What is sent for a request. -/
def reply
    (fs : FileSystem)
    (q : Bytes) : Bytes :=
  match answer fs q with
  | some a => a.bytes
  | none => []

/- What is sent for several, one after another. -/
def replies
    (fs : FileSystem)
    (qs : List Bytes) : Bytes :=
  qs.flatMap (reply fs)

/- The connection is kept behind the answer to a request. -/
def keeps
    (fs : FileSystem)
    (q : Bytes) : Bool :=
  match answer fs q with
  | some a => a.keepAlive
  | none => false

namespace Session

/- A connection that was accepted. -/
def start
    (parser : HttpParser)
    (conn : HttpConn) : Session where
  run := (MappingRun.start parser conn).accept
  record := .init

/- The request that is to be served next. -/
def request
    (requests : List Bytes)
    (x : Session) : Bytes :=
  requests.getD x.record.served []

/-
  What is received belongs to the next request, and no write
  within a header reaches what was left of it.
-/
def Orderly
    (requests : List Bytes)
    (x : Session) :
    SessionEvent → Prop
| .read results _ =>
    x.record.received ++ delivered results <+:
      x.request requests
| .writev (.accepted n) => x.run.conn.HeaderKept n
| _ => True

instance
    (requests : List Bytes)
    (x : Session) :
    ∀ e, Decidable (x.Orderly requests e)
| .read _ _ => inferInstanceAs (Decidable (_ <+: _))
| .writev (.accepted n) =>
    inferInstanceAs (Decidable (x.run.conn.HeaderKept n))
| .writev .eagain => isTrue trivial
| .writev .error => isTrue trivial
| .process => isTrue trivial
| .write => isTrue trivial
| .hangUp => isTrue trivial
| .expire => isTrue trivial

/-
  The client has received the answers to the requests that
  were served, and nothing or the front of the next one. The
  connection is open while all of them asked to stay; it was
  closed behind one that did not, or it is lost.
-/
structure InOrder
    (fs : FileSystem)
    (requests : List Bytes)
    (x : Session) : Prop where
  served_le : x.record.served ≤ requests.length
  lower :
    replies fs (requests.take x.record.served) <+:
      x.record.sent
  upper :
    x.record.sent <+:
      replies fs (requests.take (x.record.served + 1))
  idle :
    x.run.interest = some .epollIn →
      x.record.sent =
        replies fs (requests.take x.record.served)
  stays :
    x.run.sockfd = .live →
      ∀ q ∈ requests.take x.record.served, keeps fs q = true
  ended :
    x.run.sockfd ≠ .live →
      x.record.lost = true ∨
        ∃ q ∈ (requests.take x.record.served).getLast?,
          keeps fs q = false

end Session

end V2

end WebServer

------------------------------------------------------------
-- Stages
------------------------------------------------------------

namespace WebServer

namespace V2

namespace Session

variable {fs : FileSystem}
variable {requests : List Bytes}
variable {x : Session}

/- A request is read, by the main thread and a worker. -/
structure Reading
    (fs : FileSystem)
    (requests : List Bytes)
    (x : Session) : Prop where
  sockfd : x.run.sockfd = .live
  writing : x.run.writing = false
  place :
    x.run.interest = some .epollIn ∧ x.run.tasks = 0 ∨
      x.run.interest = none ∧ x.run.tasks ≤ 1
  fresh : x.run.conn.Fresh
  takes :
    x.run.parser.Takes fs (x.request requests)
      x.record.received
  sent :
    x.record.sent =
      replies fs (requests.take x.record.served)
  served_le : x.record.served ≤ requests.length
  stays :
    ∀ q ∈ requests.take x.record.served, keeps fs q = true

/- An answer is sent. -/
structure Sending
    (fs : FileSystem)
    (requests : List Bytes)
    (x : Session) : Prop where
  sockfd : x.run.sockfd = .live
  tasks : x.run.tasks = 0
  place :
    x.run.writing = false ∧
        x.run.interest = some .epollOut ∨
      x.run.writing = true ∧ x.run.interest = none
  answering :
    ∃ a part,
      answer fs (x.request requests) = some a ∧
        a.bytes.length < 2 ^ 31 ∧
          x.record.sent =
              replies fs (requests.take x.record.served) ++
                part ∧
            x.run.conn.Sends a part
  stays :
    ∀ q ∈ requests.take x.record.served, keeps fs q = true

/- The connection is closed; a worker may be late. -/
structure Closed
    (fs : FileSystem)
    (requests : List Bytes)
    (x : Session) : Prop where
  sockfd : x.run.sockfd ≠ .live
  writing : x.run.writing = false
  interest : x.run.interest = none
  tasks : x.run.tasks ≤ 1
  takes :
    0 < x.run.tasks →
      x.run.parser.Takes fs (x.request requests)
        x.record.received
  served_le : x.record.served ≤ requests.length
  lower :
    replies fs (requests.take x.record.served) <+:
      x.record.sent
  upper :
    x.record.sent <+:
      replies fs (requests.take (x.record.served + 1))
  ended :
    x.record.lost = true ∨
      ∃ q ∈ (requests.take x.record.served).getLast?,
        keeps fs q = false

/- Where a session stands. -/
inductive Stage
    (fs : FileSystem)
    (requests : List Bytes)
    (x : Session) : Prop
| reading (h : x.Reading fs requests)
| sending (h : x.Sending fs requests)
| closed (h : x.Closed fs requests)

/- There is no answer to nothing. -/
theorem answer_nil
    (fs : FileSystem) :
    answer fs [] = none := by
  unfold answer
  rw [if_neg]
  intro hComplete
  rcases hComplete.ends with ⟨j, hIn, _⟩
  exact Nat.not_lt_zero j hIn

/- A request that is answered is one of the requests. -/
theorem served_lt
    {a : Answer}
    (hAnswer : answer fs (x.request requests) = some a) :
    x.record.served < requests.length ∧
      requests.take (x.record.served + 1) =
        requests.take x.record.served ++
          [x.request requests] := by
  have hIn : x.record.served < requests.length := by
    by_contra hPast
    have hNone : x.request requests = [] := by
      unfold request
      rw [List.getD_eq_getElem?_getD,
        List.getElem?_eq_none (by omega)]
      rfl
    rw [hNone, answer_nil] at hAnswer
    cases hAnswer
  refine ⟨hIn, ?_⟩
  unfold request
  rw [List.take_add_one, List.getD_eq_getElem?_getD,
    List.getElem?_eq_getElem hIn]
  rfl

theorem replies_append
    (fs : FileSystem)
    (qs qs' : List Bytes) :
    replies fs (qs ++ qs') =
      replies fs qs ++ replies fs qs' :=
  List.flatMap_append

/- The answers, with the next one. -/
theorem replies_next
    {a : Answer}
    (hAnswer : answer fs (x.request requests) = some a) :
    replies fs (requests.take (x.record.served + 1)) =
      replies fs (requests.take x.record.served) ++
        a.bytes := by
  rw [(served_lt hAnswer).2, replies_append]
  unfold replies reply
  rw [List.flatMap_singleton, hAnswer]

theorem replies_le
    (fs : FileSystem)
    (requests : List Bytes)
    (n : Nat) :
    replies fs (requests.take n) <+:
      replies fs (requests.take (n + 1)) := by
  have hFront :
      requests.take n <+: requests.take (n + 1) := by
    apply List.take_prefix_take_left
    omega
  rcases hFront with ⟨rest, hRest⟩
  rw [← hRest, replies_append]
  exact List.prefix_append _ _

theorem Sending.front
    (h : x.Sending fs requests) :
    x.record.served ≤ requests.length ∧
      replies fs (requests.take x.record.served) <+:
          x.record.sent ∧
        x.record.sent <+:
          replies fs
            (requests.take (x.record.served + 1)) := by
  rcases h.answering with ⟨a, part, hAnswer, _, hSent, hSends⟩
  rw [hSent, replies_next hAnswer]
  refine
    ⟨Nat.le_of_lt (served_lt hAnswer).1,
      List.prefix_append _ _, ?_⟩
  rw [List.prefix_append_right_inj]
  rw [hSends.front.1]
  exact List.take_prefix _ _

/- The stages say what the client sees. -/
theorem Stage.inOrder
    (h : x.Stage fs requests) :
    x.InOrder fs requests := by
  cases h with
  | reading h =>
      exact
        { served_le := h.served_le
          lower := h.sent ▸ List.prefix_refl _
          upper := h.sent ▸ replies_le fs requests _
          idle := fun _ => h.sent
          stays := fun _ => h.stays
          ended := fun hClosed => absurd h.sockfd hClosed }
  | sending h =>
      rcases h.front with ⟨hServed, hLower, hUpper⟩
      exact
        { served_le := hServed
          lower := hLower
          upper := hUpper
          idle := by
            intro hArmed
            rcases h.place with ⟨_, hOut⟩ | ⟨_, hNone⟩
            · rw [hArmed] at hOut
              cases hOut
            · rw [hArmed] at hNone
              cases hNone
          stays := fun _ => h.stays
          ended := fun hClosed => absurd h.sockfd hClosed }
  | closed h =>
      exact
        { served_le := h.served_le
          lower := h.lower
          upper := h.upper
          idle := by
            intro hArmed
            rw [h.interest] at hArmed
            cases hArmed
          stays := fun hLive => absurd hLive h.sockfd
          ended := fun _ => h.ended }

end Session

end V2

end WebServer

------------------------------------------------------------
-- Steps
------------------------------------------------------------

namespace WebServer

namespace V2

namespace Session

variable {fs : FileSystem}
variable {requests : List Bytes}
variable {x y : Session}

/- There is a next request, or there is none left. -/
theorem request_cases
    (hRequests : ∀ q ∈ requests, Servable fs q)
    (x : Session) :
    Servable fs (x.request requests) ∨
      x.request requests = [] := by
  unfold request
  rw [List.getD_eq_getElem?_getD]
  cases hNext : requests[x.record.served]? with
  | none => exact .inr rfl
  | some q =>
      exact .inl (hRequests q (List.mem_of_getElem? hNext))

theorem request_cuttable
    (hRequests : ∀ q ∈ requests, Servable fs q)
    (x : Session) :
    Cuttable (x.request requests) := by
  rcases request_cases hRequests x with hServable | hNone
  · exact hServable.cuttable
  · rw [hNone]
    decide

/- What holds of a connection that may be lost. -/
structure Alive
    (fs : FileSystem)
    (requests : List Bytes)
    (x : Session) : Prop where
  tasks : x.run.tasks ≤ 1
  takes :
    0 < x.run.tasks →
      x.run.parser.Takes fs (x.request requests)
        x.record.received
  served_le : x.record.served ≤ requests.length
  lower :
    replies fs (requests.take x.record.served) <+:
      x.record.sent
  upper :
    x.record.sent <+:
      replies fs (requests.take (x.record.served + 1))

theorem Reading.alive
    (h : x.Reading fs requests) :
    x.Alive fs requests where
  tasks := by
    rcases h.place with ⟨_, hZero⟩ | ⟨_, hOne⟩
    · omega
    · exact hOne
  takes := fun _ => h.takes
  served_le := h.served_le
  lower := h.sent ▸ List.prefix_refl _
  upper := h.sent ▸ replies_le fs requests _

theorem Sending.alive
    (h : x.Sending fs requests) :
    x.Alive fs requests := by
  rcases h.front with ⟨hServed, hLower, hUpper⟩
  exact
    { tasks := by
        rw [h.tasks]
        exact Nat.zero_le 1
      takes := by
        intro hTask
        rw [h.tasks] at hTask
        cases hTask
      served_le := hServed
      lower := hLower
      upper := hUpper }

/- The connection is closed while nothing is sent. -/
theorem Alive.lost
    (h : x.Alive fs requests)
    (hSockfd : y.run.sockfd ≠ .live)
    (hWriting : y.run.writing = false)
    (hInterest : y.run.interest = none)
    (hTasks : y.run.tasks = x.run.tasks)
    (hTakes :
      0 < x.run.tasks →
        y.run.parser = x.run.parser ∧
          y.record.received = x.record.received)
    (hSent : y.record.sent = x.record.sent)
    (hServed : y.record.served = x.record.served)
    (hLost : y.record.lost = true) :
    y.Stage fs requests := by
  have hRequest : y.request requests = x.request requests := by
    unfold request
    rw [hServed]
  exact
    .closed
      { sockfd := hSockfd
        writing := hWriting
        interest := hInterest
        tasks := hTasks ▸ h.tasks
        takes := by
          intro hTask
          rw [hTasks] at hTask
          rcases hTakes hTask with ⟨hParser, hReceived⟩
          rw [hParser, hReceived, hRequest]
          exact h.takes hTask
        served_le := hServed ▸ h.served_le
        lower := by
          rw [hServed, hSent]
          exact h.lower
        upper := by
          rw [hServed, hSent]
          exact h.upper
        ended := .inl hLost }

theorem closeConn_interest
    {s : MappingRun}
    (hNone : s.interest = none) :
    s.closeConn.interest = none := by
  unfold MappingRun.closeConn
  split_ifs
  · exact hNone
  · rfl

theorem closeConn_live
    {s : MappingRun}
    (hLive : s.sockfd = .live) :
    s.closeConn.interest = none := by
  unfold MappingRun.closeConn
  rw [if_neg (hLive ▸ Sockfd.noConfusion)]

@[simp] theorem closeConn_tasks
    (s : MappingRun) :
    s.closeConn.tasks = s.tasks := by
  unfold MappingRun.closeConn
  split_ifs <;> rfl

@[simp] theorem closeConn_writing
    (s : MappingRun) :
    s.closeConn.writing = s.writing := by
  unfold MappingRun.closeConn
  split_ifs <;> rfl

@[simp] theorem parser_closeConn
    (s : MappingRun) :
    s.closeConn.parser = s.parser := by
  unfold MappingRun.closeConn
  split_ifs <;> rfl

/- The bytes of a request come in. -/
theorem Reading.read
    (h : x.Reading fs requests)
    (hRequests : ∀ q ∈ requests, Servable fs q)
    (hArmed : x.run.interest = some .epollIn)
    {results : List RecvResult}
    {queued : Bool}
    (hOrderly : x.Orderly requests (.read results queued)) :
    Stage fs requests
      ⟨x.run.dealReadEvent results queued,
        x.record.note x.run (.read results queued)⟩ := by
  have hShort := (request_cuttable hRequests x).short
  have hTasks : x.run.tasks = 0 := by
    rcases h.place with ⟨_, hZero⟩ | ⟨hNone, _⟩
    · exact hZero
    · rw [hArmed] at hNone
      cases hNone
  cases hSuccess : (x.run.parser.read results).1 with
  | true =>
      have hTakes := h.takes.read hShort hOrderly hSuccess
      refine .reading ?_
      unfold MappingRun.dealReadEvent
      simp only [hSuccess, if_true]
      exact
        { sockfd := h.sockfd
          writing := h.writing
          place := by
            right
            refine ⟨rfl, ?_⟩
            show x.run.tasks + queued.toNat ≤ 1
            rw [hTasks, Nat.zero_add]
            exact Bool.toNat_le queued
          fresh := h.fresh
          takes := hTakes
          sent := h.sent
          served_le := h.served_le
          stays := h.stays }
  | false =>
      apply h.alive.lost
      · show (x.run.dealReadEvent results queued).sockfd ≠ _
        rw [MappingRun.dealReadEvent_sockfd, hSuccess]
        exact Sockfd.noConfusion
      · unfold MappingRun.dealReadEvent
        simp only [hSuccess, Bool.false_eq_true, if_false]
        rw [closeConn_writing]
        exact h.writing
      · unfold MappingRun.dealReadEvent
        simp only [hSuccess, Bool.false_eq_true, if_false]
        exact closeConn_interest rfl
      · unfold MappingRun.dealReadEvent
        simp only [hSuccess, Bool.false_eq_true, if_false]
        rw [closeConn_tasks]
      · intro hTask
        omega
      · rfl
      · rfl
      · show (x.record.lost || !(x.run.parser.read results).1) =
          true
        rw [hSuccess, Bool.not_false, Bool.or_true]

/- An open connection is armed. -/
theorem modfd_live
    {s : MappingRun}
    (hLive : s.sockfd = .live)
    (ev : Interest) :
    s.modfd ev = { s with interest := some ev } := by
  unfold MappingRun.modfd
  rw [if_pos hLive]

/- A call of `process()` that waits for more. -/
theorem Reading.waits
    (h : x.Reading fs requests)
    {d : HttpParser}
    (hCall :
      x.run.parser.processRead fs = .ok (.noRequest, d))
    (hTakes :
      d.Takes fs (x.request requests) x.record.received) :
    ∃ run,
      x.run.process fs = some run ∧
        Stage fs requests ⟨run, x.record⟩ := by
  have hTasks := h.alive.tasks
  unfold MappingRun.process
  rw [hCall]
  refine ⟨_, rfl, .reading ?_⟩
  unfold MappingRun.respond
  rw [if_pos rfl, modfd_live]
  · exact
      { sockfd := h.sockfd
        writing := h.writing
        place := .inl ⟨rfl, Nat.sub_eq_zero_of_le hTasks⟩
        fresh :=
          ⟨h.fresh.size, h.fresh.idx, h.fresh.have_eq⟩
        takes := hTakes
        sent := h.sent
        served_le := h.served_le
        stays := h.stays }
  · exact h.sockfd

/- One that answers. -/
theorem Reading.serves
    (h : x.Reading fs requests)
    {a : Answer}
    {code : HttpCode}
    {d : HttpParser}
    (hAnswer : answer fs (x.request requests) = some a)
    (hSmall : a.bytes.length < 2 ^ 31)
    (hCall : x.run.parser.processRead fs = .ok (code, d))
    (hServes : code.Serves a d) :
    ∃ run,
      x.run.process fs = some run ∧
        Stage fs requests ⟨run, x.record⟩ := by
  have hTasks := h.alive.tasks
  have hFresh :
      HttpConn.Fresh
        { x.run.conn with
          linger := d.linger
          fileAddress := d.fileAddress.region } :=
    ⟨h.fresh.size, h.fresh.idx, h.fresh.have_eq⟩
  have hReady :=
    hFresh.processWrite hServes.linger hServes rfl hSmall
  unfold MappingRun.process
  rw [hCall]
  refine ⟨_, rfl, .sending ?_⟩
  unfold MappingRun.respond
  rw [if_neg hServes.answers]
  simp only [MappingRun.parsed, hReady.1, if_true]
  rw [modfd_live]
  · exact
      { sockfd := h.sockfd
        tasks := Nat.sub_eq_zero_of_le hTasks
        place := .inl ⟨h.writing, rfl⟩
        answering :=
          ⟨a, [], hAnswer, hSmall, by
            rw [List.append_nil]
            exact h.sent, hReady.2⟩
        stays := h.stays }
  · exact h.sockfd

/- A worker takes the request up. -/
theorem Reading.process
    (h : x.Reading fs requests)
    (hMaps : fs.Maps)
    (hRequests : ∀ q ∈ requests, Servable fs q) :
    ∃ run,
      x.run.process fs = some run ∧
        Stage fs requests ⟨run, x.record⟩ := by
  rcases request_cases hRequests x with hServable | hNone
  · rcases hServable.answered with ⟨a, hAnswer, hSmall⟩
    rcases h.takes.answered hMaps hServable.cuttable hAnswer
      with
      ⟨d, hCall, hNext⟩ | ⟨code, d, hCall, hServes⟩
    · exact h.waits hCall hNext
    · exact h.serves hAnswer hSmall hCall hServes
  · have hTakes := h.takes
    rw [hNone] at hTakes
    rcases hTakes.waits_nil with ⟨d, hCall, hNext⟩
    exact h.waits hCall (hNone ▸ hNext)

/- `write()` is entered with something to send. -/
theorem Sending.write
    (h : x.Sending fs requests) :
    Stage fs requests ⟨x.run.dealWriteEvent, x.record⟩ := by
  rcases h.answering with
    ⟨a, part, hAnswer, hSmall, hSent, hSends⟩
  have hEnter :
      x.run.conn.enterWrite = (x.run.conn, .looping) := by
    unfold HttpConn.enterWrite
    rw [if_neg hSends.front.2.2]
  refine .sending ?_
  unfold MappingRun.dealWriteEvent
  simp only [hEnter, if_true]
  exact
    { sockfd := h.sockfd
      tasks := h.tasks
      place := .inr ⟨rfl, rfl⟩
      answering := ⟨a, part, hAnswer, hSmall, hSent, hSends⟩
      stays := h.stays }

/- The answer to a request was sent as a whole. -/
structure Finished
    (fs : FileSystem)
    (requests : List Bytes)
    (a : Answer)
    (x : Session)
    (r : SessionRecord) : Prop where
  answer_eq : answer fs (x.request requests) = some a
  served : r.served = x.record.served + 1
  received : r.received = []
  sent :
    r.sent =
      replies fs (requests.take (x.record.served + 1))

/- The connection is kept for the next request. -/
theorem Sending.kept
    (h : x.Sending fs requests)
    {a : Answer}
    {r : SessionRecord}
    {conn : HttpConn}
    (hDone : Finished fs requests a x r)
    (hKeep : a.keepAlive = true)
    (hFresh : conn.Fresh) :
    Stage fs requests
      ⟨x.run.afterWritev conn (.finished true), r⟩ := by
  rcases served_lt hDone.answer_eq with ⟨hIn, hTake⟩
  refine .reading ?_
  unfold MappingRun.afterWritev
  simp only [if_true]
  rw [modfd_live]
  · exact
      { sockfd := h.sockfd
        writing := rfl
        place := .inl ⟨rfl, h.tasks⟩
        fresh := hFresh
        takes := by
          rw [hDone.received]
          exact HttpParser.takes_init fs _ _
        sent := by
          rw [hDone.sent, hDone.served]
        served_le := by
          rw [hDone.served]
          exact hIn
        stays := by
          intro q hMem
          rw [hDone.served, hTake, List.mem_append,
            List.mem_singleton] at hMem
          rcases hMem with hOld | rfl
          · exact h.stays q hOld
          · unfold keeps
            rw [hDone.answer_eq]
            exact hKeep }
  · exact h.sockfd

/- Or it is closed behind the answer. -/
theorem Sending.ended
    (h : x.Sending fs requests)
    {a : Answer}
    {r : SessionRecord}
    (hDone : Finished fs requests a x r)
    (hKeep : a.keepAlive = false)
    (conn : HttpConn) :
    Stage fs requests
      ⟨x.run.afterWritev conn (.finished false), r⟩ := by
  rcases served_lt hDone.answer_eq with ⟨hIn, hTake⟩
  refine .closed ?_
  unfold MappingRun.afterWritev
  simp only [Bool.false_eq_true, if_false]
  rw [modfd_live]
  · exact
      { sockfd := by
          rw [MappingRun.closeConn_sockfd]
          exact Sockfd.noConfusion
        writing := by
          rw [closeConn_writing]
          rfl
        interest := closeConn_live h.sockfd
        tasks := by
          rw [closeConn_tasks]
          exact (Nat.le_of_eq h.tasks).trans (Nat.zero_le 1)
        takes := by
          intro hTask
          rw [closeConn_tasks] at hTask
          have hTask' : 0 < x.run.tasks := hTask
          rw [h.tasks] at hTask'
          cases hTask'
        served_le := by
          rw [hDone.served]
          exact hIn
        lower := by
          refine ⟨[], ?_⟩
          rw [List.append_nil, hDone.sent, hDone.served]
        upper := by
          rw [hDone.sent, hDone.served]
          exact replies_le fs requests _
        ended := by
          right
          refine ⟨x.request requests, ?_, ?_⟩
          · rw [hDone.served, hTake, List.getLast?_concat]
            rfl
          · unfold keeps
            rw [hDone.answer_eq]
            exact hKeep }
  · exact h.sockfd

/- A turn of the loop of `write()`, and its record. -/
theorem writev_eq
    {s : MappingRun}
    {res : WritevResult}
    {conn : HttpConn}
    {phase : WritePhase}
    (hAfter : s.conn.afterWritev res = some (conn, phase))
    (r : SessionRecord) :
    s.writev res = some (s.afterWritev conn phase) ∧
      r.note s (.writev res) =
        r.wrote (s.conn.taken res) phase := by
  unfold MappingRun.writev SessionRecord.note
  simp only [hAfter]
  exact ⟨rfl, trivial⟩

/- A write that was accepted. -/
theorem Sending.accepted
    (h : x.Sending fs requests)
    (hWriting : x.run.writing = true)
    {n : Nat}
    (hFits : n ≤ x.run.conn.described)
    (hKept : x.run.conn.HeaderKept n) :
    ∃ run,
      x.run.writev (.accepted n) = some run ∧
        Stage fs requests
          ⟨run,
            x.record.note x.run (.writev (.accepted n))⟩ := by
  rcases h.answering with
    ⟨a, part, hAnswer, hSmall, hSent, hSends⟩
  rcases hSends.accepted hSmall hFits hKept with
    ⟨⟨conn, phase⟩, hAfter, hProgress⟩
  have hTaken :
      x.run.conn.taken (.accepted n) =
        (a.bytes.drop part.length).take n := by
    unfold HttpConn.taken
    rw [hSends.gather]
    rfl
  rcases writev_eq hAfter x.record with ⟨hWritev, hNote⟩
  refine ⟨_, hWritev, ?_⟩
  rw [hNote, hTaken]
  rcases hProgress.how with
    ⟨hPhase, hNext⟩ | ⟨hPhase, hAll, hFresh⟩
  · have hLooping : phase = .looping := hPhase
    subst hLooping
    refine .sending ?_
    exact
      { sockfd := h.sockfd
        tasks := h.tasks
        place := by
          rcases h.place with ⟨hNot, _⟩ | hIn
          · rw [hWriting] at hNot
            cases hNot
          · exact .inr hIn
        answering :=
          ⟨a, _, hAnswer, hSmall, by
            show x.record.sent ++ _ = _
            rw [hSent, List.append_assoc]
            rfl, hNext⟩
        stays := h.stays }
  · have hFinished : phase = .finished a.keepAlive := hPhase
    subst hFinished
    have hDone :
        Finished fs requests a x
          (x.record.wrote
            ((a.bytes.drop part.length).take n)
            (.finished a.keepAlive)) :=
      { answer_eq := hAnswer
        served := rfl
        received := rfl
        sent := by
          show x.record.sent ++ _ = _
          rw [hSent, List.append_assoc, hAll,
            replies_next hAnswer] }
    cases hKeep : a.keepAlive with
    | true =>
        rw [hKeep] at hDone
        exact h.kept hDone hKeep (hFresh hKeep)
    | false =>
        rw [hKeep] at hDone
        exact h.ended hDone hKeep conn

/- One that was not. -/
theorem Sending.refused
    (h : x.Sending fs requests)
    {res : WritevResult}
    (hRefused : res = .eagain ∨ res = .error) :
    ∃ run,
      x.run.writev res = some run ∧
        Stage fs requests
          ⟨run, x.record.note x.run (.writev res)⟩ := by
  rcases hRefused with rfl | rfl
  · refine ⟨_, rfl, .sending ?_⟩
    unfold MappingRun.afterWritev
    rw [modfd_live]
    · rcases h.answering with
        ⟨a, part, hAnswer, hSmall, hSent, hSends⟩
      exact
        { sockfd := h.sockfd
          tasks := h.tasks
          place := .inl ⟨rfl, rfl⟩
          answering :=
            ⟨a, part, hAnswer, hSmall, by
              show x.record.sent ++ [] = _
              rw [List.append_nil]
              exact hSent, hSends⟩
          stays := h.stays }
    · exact h.sockfd
  · refine ⟨_, rfl, ?_⟩
    apply h.alive.lost
    · unfold MappingRun.afterWritev
      rw [MappingRun.closeConn_sockfd]
      exact Sockfd.noConfusion
    · unfold MappingRun.afterWritev
      rw [closeConn_writing]
      rfl
    · exact closeConn_live h.sockfd
    · unfold MappingRun.afterWritev
      rw [closeConn_tasks]
      rfl
    · intro hTask
      rw [h.tasks] at hTask
      cases hTask
    · exact List.append_nil _
    · rfl
    · rfl

/- The connection is hung up or expires. -/
theorem Alive.closed
    (h : x.Alive fs requests)
    (hWriting : x.run.writing = false) :
    Stage fs requests
        ⟨x.run.hangUp, x.record.note x.run .hangUp⟩ ∧
      Stage fs requests
        ⟨x.run.cbFunc, x.record.note x.run .expire⟩ := by
  constructor
  · apply h.lost
    · show (MappingRun.closeConn _).sockfd ≠ _
      rw [MappingRun.closeConn_sockfd]
      exact Sockfd.noConfusion
    · show (MappingRun.closeConn _).writing = _
      rw [closeConn_writing]
      exact hWriting
    · exact closeConn_interest rfl
    · exact closeConn_tasks _
    · exact fun _ => ⟨parser_closeConn _, rfl⟩
    · rfl
    · rfl
    · rfl
  · apply h.lost
    · exact Sockfd.noConfusion
    · exact hWriting
    · rfl
    · rfl
    · exact fun _ => ⟨rfl, rfl⟩
    · rfl
    · rfl
    · rfl

/- `modfd` fails where the connection is closed. -/
theorem modfd_closed
    {s : MappingRun}
    (hClosed : s.sockfd ≠ .live)
    (ev : Interest) :
    s.modfd ev = s := by
  unfold MappingRun.modfd
  rw [if_neg hClosed]

/- A worker that is late arms nothing. -/
theorem respond_closed
    {s : MappingRun}
    (hClosed : s.sockfd ≠ .live)
    (hInterest : s.interest = none)
    (code : HttpCode)
    (parser : HttpParser) :
    (s.respond code parser).interest = none ∧
      (s.respond code parser).writing = s.writing ∧
        (s.respond code parser).tasks = s.tasks := by
  unfold MappingRun.respond
  dsimp only
  split_ifs
  · rw [modfd_closed]
    · exact ⟨hInterest, rfl, rfl⟩
    · exact hClosed
  · rw [modfd_closed]
    · exact ⟨hInterest, rfl, rfl⟩
    · exact hClosed
  · rw [closeConn_writing, closeConn_tasks]
    exact ⟨closeConn_interest hInterest, rfl, rfl⟩

theorem Closed.process
    (h : x.Closed fs requests)
    (hMaps : fs.Maps)
    (hRequests : ∀ q ∈ requests, Servable fs q)
    (hTask : 0 < x.run.tasks) :
    ∃ run,
      x.run.process fs = some run ∧
        Stage fs requests ⟨run, x.record⟩ := by
  have hTakes := h.takes hTask
  have hCalls :
      ∃ code d,
        x.run.parser.processRead fs = .ok (code, d) := by
    rcases request_cases hRequests x with hServable | hNone
    · rcases hServable.answered with ⟨a, hAnswer, _⟩
      rcases
        hTakes.answered hMaps hServable.cuttable hAnswer with
        ⟨d, hCall, _⟩ | ⟨code, d, hCall, _⟩
      · exact ⟨_, d, hCall⟩
      · exact ⟨code, d, hCall⟩
    · rw [hNone] at hTakes
      rcases hTakes.waits_nil with ⟨d, hCall, _⟩
      exact ⟨_, d, hCall⟩
  rcases hCalls with ⟨code, d, hCall⟩
  have hRespond :=
    respond_closed
      (s := { x.run with tasks := x.run.tasks - 1 })
      h.sockfd h.interest code d
  have hTasks := h.tasks
  have hNone :
      (MappingRun.respond
          { x.run with tasks := x.run.tasks - 1 }
          code d).tasks =
        0 := by
    rw [hRespond.2.2]
    exact Nat.sub_eq_zero_of_le hTasks
  unfold MappingRun.process
  rw [hCall]
  refine ⟨_, rfl, .closed ?_⟩
  exact
    { sockfd := by
        show (MappingRun.respond _ code d).sockfd ≠ _
        rw [MappingRun.respond_sockfd]
        split_ifs
        · exact Sockfd.noConfusion
        · exact h.sockfd
      writing := hRespond.2.1.trans h.writing
      interest := hRespond.1
      tasks := by
        show (MappingRun.respond _ code d).tasks ≤ 1
        rw [hNone]
        exact Nat.zero_le 1
      takes := by
        intro hLeft
        change 0 < (MappingRun.respond _ code d).tasks at hLeft
        rw [hNone] at hLeft
        cases hLeft
      served_le := h.served_le
      lower := h.lower
      upper := h.upper
      ended := h.ended }

end Session

end V2

end WebServer

------------------------------------------------------------
-- Runs
------------------------------------------------------------

namespace WebServer

namespace V2

namespace Session

variable {fs : FileSystem}
variable {requests : List Bytes}
variable {x : Session}

theorem stage_start
    (fs : FileSystem)
    (requests : List Bytes)
    (parser : HttpParser)
    (conn : HttpConn) :
    (start parser conn).Stage fs requests :=
  .reading
    { sockfd := rfl
      writing := rfl
      place := .inl ⟨rfl, rfl⟩
      fresh := HttpConn.fresh_init conn
      takes := HttpParser.takes_init fs _ parser
      sent := rfl
      served_le := Nat.zero_le _
      stays := by
        intro q hMem
        cases hMem }

/- A step of an object that is open. -/
theorem Reading.step
    (h : x.Reading fs requests)
    (hMaps : fs.Maps)
    (hRequests : ∀ q ∈ requests, Servable fs q)
    {e : SessionEvent}
    (hEnabled : (sessionMachine fs).enabled x e)
    (hOrderly : x.Orderly requests e) :
    ∃ run,
      mappingMachine.step x.run (e.on fs) = some run ∧
        Stage fs requests ⟨run, x.record.note x.run e⟩ := by
  cases e with
  | read results queued =>
      exact
        ⟨_, rfl, h.read hRequests hEnabled.2 hOrderly⟩
  | process => exact h.process hMaps hRequests
  | write =>
      have hArmed : x.run.interest = some .epollOut :=
        hEnabled.2
      rcases h.place with ⟨hIn, _⟩ | ⟨hNone, _⟩
      · rw [hArmed] at hIn
        cases hIn
      · rw [hArmed] at hNone
        cases hNone
  | writev res =>
      have hWriting : x.run.writing = true := by
        cases res with
        | accepted n => exact hEnabled.1
        | eagain => exact hEnabled
        | error => exact hEnabled
      rw [h.writing] at hWriting
      cases hWriting
  | hangUp =>
      exact ⟨_, rfl, (h.alive.closed h.writing).1⟩
  | expire =>
      exact ⟨_, rfl, (h.alive.closed h.writing).2⟩

theorem Sending.step
    (h : x.Sending fs requests)
    {e : SessionEvent}
    (hEnabled : (sessionMachine fs).enabled x e)
    (hOrderly : x.Orderly requests e) :
    ∃ run,
      mappingMachine.step x.run (e.on fs) = some run ∧
        Stage fs requests ⟨run, x.record.note x.run e⟩ := by
  cases e with
  | read results queued =>
      have hArmed : x.run.interest = some .epollIn :=
        hEnabled.2
      rcases h.place with ⟨_, hOut⟩ | ⟨_, hNone⟩
      · rw [hArmed] at hOut
        cases hOut
      · rw [hArmed] at hNone
        cases hNone
  | process =>
      have hTask : 0 < x.run.tasks := hEnabled
      rw [h.tasks] at hTask
      cases hTask
  | write => exact ⟨_, rfl, h.write⟩
  | writev res =>
      cases res with
      | accepted n =>
          exact h.accepted hEnabled.1 hEnabled.2.2 hOrderly
      | eagain => exact h.refused (.inl rfl)
      | error => exact h.refused (.inr rfl)
  | hangUp =>
      exact ⟨_, rfl, (h.alive.closed hEnabled.1).1⟩
  | expire =>
      exact ⟨_, rfl, (h.alive.closed hEnabled.1).2⟩

/- Only a worker that is late steps behind the end. -/
theorem Closed.step
    (h : x.Closed fs requests)
    (hMaps : fs.Maps)
    (hRequests : ∀ q ∈ requests, Servable fs q)
    {e : SessionEvent}
    (hEnabled : (sessionMachine fs).enabled x e) :
    ∃ run,
      mappingMachine.step x.run (e.on fs) = some run ∧
        Stage fs requests ⟨run, x.record.note x.run e⟩ := by
  cases e with
  | read results queued =>
      have hArmed : x.run.interest = some .epollIn :=
        hEnabled.2
      rw [h.interest] at hArmed
      cases hArmed
  | process => exact h.process hMaps hRequests hEnabled
  | write =>
      have hArmed : x.run.interest = some .epollOut :=
        hEnabled.2
      rw [h.interest] at hArmed
      cases hArmed
  | writev res =>
      have hWriting : x.run.writing = true := by
        cases res with
        | accepted n => exact hEnabled.1
        | eagain => exact hEnabled
        | error => exact hEnabled
      rw [h.writing] at hWriting
      cases hWriting
  | hangUp => exact absurd h.interest hEnabled.2
  | expire => exact absurd hEnabled.2 h.sockfd

/- What every orderly step preserves. -/
theorem Stage.step
    (h : x.Stage fs requests)
    (hMaps : fs.Maps)
    (hRequests : ∀ q ∈ requests, Servable fs q)
    {e : SessionEvent}
    (hEnabled : (sessionMachine fs).enabled x e)
    (hOrderly : x.Orderly requests e) :
    ∃ y,
      (sessionMachine fs).step x e = some y ∧
        y.Stage fs requests := by
  have hStep :
      ∃ run,
        mappingMachine.step x.run (e.on fs) = some run ∧
          Stage fs requests
            ⟨run, x.record.note x.run e⟩ := by
    cases h with
    | reading h =>
        exact h.step hMaps hRequests hEnabled hOrderly
    | sending h => exact h.step hEnabled hOrderly
    | closed h => exact h.step hMaps hRequests hEnabled
  rcases hStep with ⟨run, hRun, hStage⟩
  refine ⟨_, ?_, hStage⟩
  show (mappingMachine.step x.run (e.on fs)).map _ = _
  rw [hRun]
  rfl

end Session

/-
  Over a whole session, however requests and answers are cut
  and whenever a worker gets to a request, no step fails and
  the client has the answers to its requests in order.
-/
theorem session_in_order
    {fs : FileSystem}
    {requests : List Bytes}
    (hMaps : fs.Maps)
    (hRequests : ∀ q ∈ requests, Servable fs q)
    (parser : HttpParser)
    (conn : HttpConn)
    {es : List SessionEvent}
    (hMeet :
      (sessionMachine fs).StepsMeet
        (Session.Orderly requests)
        (Session.start parser conn) es) :
    (sessionMachine fs).Throughout
      (Session.InOrder fs requests)
      (Session.start parser conn) es :=
  (Machine.throughout_of_stepsMeet
    (fun _ _ h hEnabled hOrderly =>
      h.step hMaps hRequests hEnabled hOrderly)
    (Session.stage_start fs requests parser conn) hMeet).mono
    fun _ h => h.inOrder

/- Every file has five bytes. -/
def fiveBytes : FileSystem where
  stat _ := some ⟨5, true, false⟩
  openRdonly _ := true
  mmap _ n := some (List.replicate n 65)

/- The first request asks to stay, the second does not. -/
def twoRequests : List Bytes :=
  [utf8 "GET /a HTTP/1.1\r\nConnection: keep-alive\r\n\r\n",
    utf8 "GET /b HTTP/1.1\r\n\r\n"]

/- They come in pieces, and so are the answers sent. -/
def twoAnswers : List SessionEvent :=
  [.read [.bytes (utf8 "GET /a HTTP/1.1\r")] true, .process,
    .read
      [.bytes (utf8 "\nConnection: keep"),
        .bytes (utf8 "-alive\r\n\r\n")]
      true,
    .process, .write, .writev (.accepted 40),
    .writev .eagain, .write, .writev (.accepted 50),
    .read [.bytes (utf8 "GET /b HTTP/1.1\r\n\r\n")] true,
    .process, .write, .writev (.accepted 85)]

theorem two_requests_in_order :
    ∃ x,
      (sessionMachine fiveBytes).Reaches
          (Session.start unusedParser freshConn) twoAnswers
          x ∧
        (x.run.sockfd, x.record.served, x.record.lost) =
            (.unset, 2, false) ∧
          x.InOrder fiveBytes twoRequests := by
  have hMaps : fiveBytes.Maps := by
    intro path n bytes hMapped
    rcases Option.some.inj hMapped with rfl
    exact List.length_replicate
  have hRequests :
      ∀ q ∈ twoRequests, Servable fiveBytes q := by
    have hCut : ∀ q ∈ twoRequests, Cuttable q := by
      decide +kernel
    have hAnswers :
        ∀ q ∈ twoRequests,
          (answer fiveBytes q).map
              (fun a => decide (a.bytes.length < 2 ^ 31)) =
            some true := by
      decide +kernel
    intro q hMem
    rcases Option.map_eq_some_iff.mp (hAnswers q hMem) with
      ⟨a, hAnswer, hSmall⟩
    exact
      ⟨hCut q hMem, a, hAnswer, of_decide_eq_true hSmall⟩
  have hMeet :
      (sessionMachine fiveBytes).StepsMeet
        (Session.Orderly twoRequests)
        (Session.start unusedParser freshConn)
        twoAnswers := by
    decide +kernel
  have hExec :
      ((sessionMachine fiveBytes).exec
          (Session.start unusedParser freshConn)
          twoAnswers).map
        (fun x =>
          (x.run.sockfd, x.record.served, x.record.lost)) =
        some (.unset, 2, false) := by
    decide +kernel
  rcases Machine.reaches_of_exec_map hExec with
    ⟨x, hReach, hEnd⟩
  exact
    ⟨x, hReach, hEnd,
      (session_in_order hMaps hRequests _ _ hMeet).reached
        hReach⟩

end V2

end WebServer
