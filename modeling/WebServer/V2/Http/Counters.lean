import WebServer.V2.Http.ProcessWrite

/-
  The sizes and counters of a file response in version 2.0.

  `st_size` has 64 bits. It is narrowed to `int` for the
  `Content-Length` line and in `bytes_to_send`, and `write()`
  keeps counting in `int`. Here a run is counted without
  looking at memory: whatever `writev` says it accepted, up
  to what the iovecs describe, is added to the true count.

  Key definitions include:
    * `HttpConn.enterWrite`
    * `HttpConn.afterWritev`
    * `CountRun`
    * `CountRun.Exact`
    * `SizesExact`

  Key theorems include:
    * `WriteRun.step_counted`
    * `CountRun.Sound.step`
    * `sizes_exact_iff`
-/

------------------------------------------------------------
-- `write()` On The Connection Alone
------------------------------------------------------------

namespace WebServer

namespace V2

namespace HttpConn

/- Entering `write()`. -/
def enterWrite
    (conn : HttpConn) : HttpConn × WritePhase :=
  if conn.bytesToSend = 0 then
    (conn.init, .finished true)
  else
    (conn, .looping)

/- The end of the loop, after the last byte. -/
def finishWrite
    (conn : HttpConn) : HttpConn × WritePhase :=
  if conn.linger then
    (conn.unmap.init, .finished true)
  else
    (conn.unmap, .finished false)

/- The rest of a turn of the loop, once `writev` returned. -/
def afterWritev
    (conn : HttpConn) :
    WritevResult → Option (HttpConn × WritePhase)
| .eagain => some (conn, .waiting)
| .error => some (conn.unmap, .failed)
| .accepted n =>
    let tmp := toInt32 n
    if tmp ≤ -1 then
      some (conn.unmap, .failed)
    else do
      let conn ← conn.advance tmp
      if conn.bytesToSend ≤ (0 : Int) then
        some conn.finishWrite
      else
        some (conn, .looping)

end HttpConn

/- The bytes that a `writev` call took. -/
def WritevResult.count :
    WritevResult → Nat
| .accepted n => n
| _ => 0

end V2

end WebServer

------------------------------------------------------------
-- Counted Runs
------------------------------------------------------------

namespace WebServer

namespace V2

/- A response, and how many bytes of it were sent. -/
structure CountRun where
  conn : HttpConn
  phase : WritePhase
  sent : Nat

namespace CountRun

/- `writev` takes some of the bytes that it is asked to. -/
def enabled
    (s : CountRun) :
    WriteEvent → Prop
| .call => s.phase = .waiting
| .writev (.accepted n) =>
    s.phase = .looping ∧ 0 < n ∧ n ≤ s.conn.described
| .writev _ => s.phase = .looping

def step
    (s : CountRun) :
    WriteEvent → Option CountRun
| .call =>
    let (conn, phase) := s.conn.enterWrite
    some ⟨conn, phase, s.sent⟩
| .writev res => do
    let (conn, phase) ← s.conn.afterWritev res
    some ⟨conn, phase, s.sent + res.count⟩

end CountRun

/- Counting as a machine over the events of `write()`. -/
def countMachine : Machine CountRun WriteEvent where
  enabled := CountRun.enabled
  step := CountRun.step

/- A turn of the loop, apart from the count. -/
theorem CountRun.step_writev
    (s : CountRun)
    (res : WritevResult) :
    countMachine.step s (.writev res) =
      (s.conn.afterWritev res).map fun r =>
        ⟨r.1, r.2, s.sent + res.count⟩ := by
  show CountRun.step s (.writev res) = _
  unfold CountRun.step
  simp only [Option.bind_eq_bind, Option.map_eq_bind]
  rfl

namespace WriteRun

/- The run without its bytes. -/
def counted
    (s : WriteRun) : CountRun where
  conn := s.conn
  phase := s.phase
  sent := s.sent.length

/- The blocks of the iovecs, as to their lengths. -/
theorem length_of_blocks
    {conn : HttpConn}
    {ivs : List Iovec}
    {blocks : List Bytes}
    (h : ivs.mapM conn.block = some blocks) :
    blocks.flatten.length = (ivs.map Iovec.iovLen).sum := by
  induction ivs generalizing blocks with
  | nil =>
      cases h
      rfl
  | cons iv ivs ih =>
      rw [List.mapM_cons] at h
      rcases Option.bind_eq_some_iff.mp h with
        ⟨b, hBlock, hRest⟩
      rcases Option.bind_eq_some_iff.mp hRest with
        ⟨bs, hBlocks, hEq⟩
      rcases Option.some.inj hEq with rfl
      have hLong : b.length = iv.iovLen := by
        unfold HttpConn.block at hBlock
        rcases Option.bind_eq_some_iff.mp hBlock with
          ⟨bytes, _, hIn⟩
        split_ifs at hIn with hInside
        rcases Option.some.inj hIn with rfl
        rw [List.length_take, List.length_drop]
        omega
      rw [List.flatten_cons, List.length_append,
        List.map_cons, List.sum_cons, hLong, ih hBlocks]

/- What the kernel is handed is what the iovecs describe. -/
theorem length_gather
    {conn : HttpConn}
    {bytes : Bytes}
    (h : conn.gather = some bytes) :
    bytes.length = conn.described := by
  unfold HttpConn.gather at h
  rcases Option.bind_eq_some_iff.mp h with
    ⟨blocks, hBlocks, hEq⟩
  rcases Option.some.inj hEq with rfl
  exact length_of_blocks hBlocks

/- Entering `write()` reads the connection only. -/
theorem call_eq
    (s : WriteRun) :
    s.call =
      ⟨s.conn.enterWrite.1, s.conn.enterWrite.2,
        s.sent⟩ := by
  unfold WriteRun.call HttpConn.enterWrite
  split_ifs <;> rfl

theorem finish_eq
    (s : WriteRun) :
    s.finish =
      ⟨s.conn.finishWrite.1, s.conn.finishWrite.2,
        s.sent⟩ := by
  unfold WriteRun.finish HttpConn.finishWrite
  split_ifs <;> rfl

/- An accepted write, apart from the bytes it took. -/
theorem writev_accepted
    {s : WriteRun}
    {n : Nat}
    {bytes : Bytes}
    (hPhase : s.phase = .looping)
    (hGather : s.conn.gather = some bytes) :
    s.writev (.accepted n) =
      (s.conn.afterWritev (.accepted n)).map fun r =>
        ⟨r.1, r.2, s.sent ++ bytes.take n⟩ := by
  unfold HttpConn.afterWritev WriteRun.writev
  rw [hGather]
  show Option.bind (some bytes) _ = _
  rw [Option.bind_some]
  dsimp only
  by_cases hLarge : toInt32 n ≤ -1
  · rw [if_pos hLarge, if_pos hLarge]
    rfl
  · rw [if_neg hLarge, if_neg hLarge]
    cases s.conn.advance (toInt32 n) with
    | none => rfl
    | some conn =>
        show Option.bind (some conn) _ =
          (Option.bind (some conn) _).map _
        rw [Option.bind_some, Option.bind_some]
        by_cases hLast : conn.bytesToSend ≤ (0 : Int)
        · rw [if_pos hLast, if_pos hLast, finish_eq]
          rfl
        · rw [if_neg hLast, if_neg hLast, hPhase]
          rfl

/-
  A step over the bytes of memory is a step that counts
  them.
-/
theorem step_counted
    {s t : WriteRun}
    {e : WriteEvent}
    (hEnabled : writeMachine.enabled s e)
    (hStep : writeMachine.step s e = some t) :
    countMachine.step s.counted e = some t.counted := by
  cases e with
  | call =>
      rcases Option.some.inj hStep with rfl
      rw [call_eq]
      rfl
  | writev res =>
      cases res with
      | eagain =>
          rcases Option.some.inj hStep with rfl
          rfl
      | error =>
          rcases Option.some.inj hStep with rfl
          rfl
      | accepted n =>
          have hPhase : s.phase = .looping := hEnabled.1
          change s.writev (.accepted n) = some t at hStep
          cases hGather : s.conn.gather with
          | none =>
              unfold WriteRun.writev at hStep
              rw [hGather] at hStep
              cases hStep
          | some bytes =>
              have hTaken : (bytes.take n).length = n := by
                rw [List.length_take, length_gather hGather]
                exact Nat.min_eq_left hEnabled.2.2
              rw [writev_accepted hPhase hGather] at hStep
              rcases Option.map_eq_some_iff.mp hStep with
                ⟨⟨conn, phase⟩, hAfter, rfl⟩
              rw [CountRun.step_writev]
              simp only [counted, hAfter, Option.map_some,
                List.length_append, hTaken,
                WritevResult.count]

end WriteRun

end V2

end WebServer

------------------------------------------------------------
-- True Counts
------------------------------------------------------------

namespace WebServer

namespace V2

namespace CountRun

/-
  While a response of `total` bytes is sent, both counters
  hold the true counts and the next addition stays in `int`;
  it ends when everything was sent.
-/
structure Exact
    (total : Nat)
    (s : CountRun) : Prop where
  have_eq :
    s.phase = .waiting ∨ s.phase = .looping →
      s.conn.bytesHaveSend = s.sent
  left_eq :
    s.phase = .waiting ∨ s.phase = .looping →
      s.conn.bytesToSend = (total : Int) - s.sent
  adds :
    s.phase = .looping →
      ∀ n, 0 < n → n ≤ s.conn.described →
        (s.conn.afterWritev (.accepted n)).isSome
  ends :
    ∀ ret, s.phase = .finished ret → s.sent = total

/-
  What is kept besides: the iovecs describe what is left,
  and the header is not longer than its buffer.
-/
structure Counting
    (total : Nat)
    (s : CountRun) : Prop where
  have_eq : s.conn.bytesHaveSend = s.sent
  left_eq : s.conn.bytesToSend = (total : Int) - s.sent
  less : s.sent < total
  count : s.conn.ivCount = 2
  lens :
    s.conn.iv0.iovLen + s.conn.iv1.iovLen = total - s.sent
  header :
    0 ≤ s.conn.writeIdx ∧ s.conn.writeIdx ≤ writeBufferSize

/- The invariant of a run. -/
def Sound
    (total : Nat)
    (s : CountRun) : Prop :=
  match s.phase with
  | .waiting => s.Counting total
  | .looping => s.Counting total
  | .finished _ => s.sent = total
  | .failed => True

variable {total : Nat}
variable {s : CountRun}

theorem Counting.described
    (h : s.Counting total) :
    s.conn.described = total - s.sent := by
  have hLens := h.lens
  unfold HttpConn.described HttpConn.iovecs
  rw [h.count]
  simpa using hLens

/- The counters after a write of `n` bytes. -/
theorem Counting.advance
    (h : s.Counting total)
    (hSmall : total < 2 ^ 31)
    {n : Nat}
    (hFits : n ≤ total - s.sent) :
    ∃ conn,
      s.conn.advance n = some conn ∧
        conn.bytesHaveSend = ((s.sent + n : Nat) : Int) ∧
        conn.bytesToSend =
          (total : Int) - ((s.sent + n : Nat) : Int) ∧
        conn.ivCount = 2 ∧
        conn.iv0.iovLen + conn.iv1.iovLen =
          total - (s.sent + n) ∧
        conn.writeIdx = s.conn.writeIdx := by
  have hLess := h.less
  have hLens := h.lens
  have hHeader := h.header
  have hSize : writeBufferSize = 2048 := rfl
  have hAdd :
      addInt32 s.conn.bytesHaveSend n =
        some ((s.sent : Int) + n) := by
    rw [h.have_eq, addInt32_of_isInt32]
    exact ⟨by omega, by omega⟩
  have hSub :
      subInt32 s.conn.bytesToSend n =
        some ((total : Int) - s.sent - n) := by
    rw [h.left_eq, subInt32_of_isInt32]
    exact ⟨by omega, by omega⟩
  have hOffset :
      subInt32 ((s.sent : Int) + n) s.conn.writeIdx =
        some ((s.sent : Int) + n - s.conn.writeIdx) := by
    rw [subInt32_of_isInt32]
    exact ⟨by omega, by omega⟩
  have hTotal :
      toSize ((s.sent : Int) + n) = s.sent + n := by
    rw [toSize_of_nonneg (by omega) (by omega)]
    omega
  have hLeft :
      toSize ((total : Int) - s.sent - n) =
        total - s.sent - n := by
    rw [toSize_of_nonneg (by omega) (by omega)]
    omega
  unfold HttpConn.advance
  by_cases hPast : s.conn.iv0.iovLen ≤ s.sent + n
  · simp only [hAdd, hSub, hTotal, hPast, hOffset, hLeft,
      Option.bind_eq_bind, Option.bind_some, if_true]
    refine ⟨_, rfl, ?_, ?_, h.count, ?_, rfl⟩
    · rw [Int.natCast_add]
    · show (total : Int) - s.sent - n =
        (total : Int) - ((s.sent + n : Nat) : Int)
      omega
    · simp only
      omega
  · have hRest :
        toSize ((s.conn.iv0.iovLen : Int) - n) =
          s.conn.iv0.iovLen - n := by
      rw [toSize_of_nonneg (by omega) (by omega)]
      omega
    simp only [hAdd, hSub, hTotal, hPast, hRest,
      Option.bind_eq_bind, Option.bind_some, if_false]
    refine ⟨_, rfl, ?_, ?_, h.count, ?_, rfl⟩
    · rw [Int.natCast_add]
    · show (total : Int) - s.sent - n =
        (total : Int) - ((s.sent + n : Nat) : Int)
      omega
    · simp only
      omega

/- A write that is counted, and where it leads. -/
theorem Counting.accepted
    (h : s.Counting total)
    (hSmall : total < 2 ^ 31)
    {n : Nat}
    (hFits : n ≤ total - s.sent) :
    ∃ conn phase,
      s.conn.afterWritev (.accepted n) =
          some (conn, phase) ∧
        Sound total ⟨conn, phase, s.sent + n⟩ := by
  rcases h.advance hSmall hFits with
    ⟨conn, hAdvance, hHave, hLeft, hCount, hLens, hIdx⟩
  have hLess := h.less
  have hPositive : ¬ (n : Int) ≤ -1 := by
    omega
  have hIn : IsInt32 n :=
    ⟨by omega, by omega⟩
  unfold HttpConn.afterWritev
  dsimp only
  rw [toInt32_of_isInt32 hIn, if_neg hPositive, hAdvance]
  show ∃ conn' phase,
    Option.bind (some conn) _ = some (conn', phase) ∧ _
  rw [Option.bind_some]
  by_cases hLast : conn.bytesToSend ≤ (0 : Int)
  · rw [if_pos hLast]
    have hAll : s.sent + n = total := by
      rw [hLeft] at hLast
      omega
    unfold HttpConn.finishWrite
    split_ifs
    · exact ⟨_, _, rfl, hAll⟩
    · exact ⟨_, _, rfl, hAll⟩
  · rw [if_neg hLast]
    refine ⟨_, _, rfl, ?_⟩
    exact
      { have_eq := hHave
        left_eq := hLeft
        less := by
          show s.sent + n < total
          rw [hLeft] at hLast
          omega
        count := hCount
        lens := hLens
        header := by
          rw [hIdx]
          exact h.header }

theorem Sound.exact
    (h : s.Sound total)
    (hSmall : total < 2 ^ 31) :
    s.Exact total := by
  rcases s with ⟨conn, phase, sent⟩
  cases phase with
  | waiting =>
      have hCounting : Counting total ⟨conn, .waiting, sent⟩ :=
        h
      exact
        { have_eq := fun _ => hCounting.have_eq
          left_eq := fun _ => hCounting.left_eq
          adds := fun hNot => by cases hNot
          ends := fun _ hNot => by cases hNot }
  | looping =>
      have hCounting : Counting total ⟨conn, .looping, sent⟩ :=
        h
      refine
        { have_eq := fun _ => hCounting.have_eq
          left_eq := fun _ => hCounting.left_eq
          adds := ?_
          ends := fun _ hNot => by cases hNot }
      intro _ n _ hFits
      rw [hCounting.described] at hFits
      rcases hCounting.accepted hSmall hFits with
        ⟨conn', phase, hAfter, _⟩
      rw [hAfter]
      rfl
  | finished ret =>
      exact
        { have_eq := by rintro (hIn | hIn) <;> cases hIn
          left_eq := by rintro (hIn | hIn) <;> cases hIn
          adds := fun hNot => by cases hNot
          ends := fun _ _ => h }
  | failed =>
      exact
        { have_eq := by rintro (hIn | hIn) <;> cases hIn
          left_eq := by rintro (hIn | hIn) <;> cases hIn
          adds := fun hNot => by cases hNot
          ends := fun _ hNot => by cases hNot }

/- One event of `write()` keeps the counts. -/
theorem Sound.step
    {t : CountRun}
    {e : WriteEvent}
    (h : s.Sound total)
    (hSmall : total < 2 ^ 31)
    (hEnabled : countMachine.enabled s e)
    (hStep : countMachine.step s e = some t) :
    t.Sound total := by
  rcases s with ⟨conn, phase, sent⟩
  cases e with
  | call =>
      have hPhase : phase = .waiting := hEnabled
      subst hPhase
      have hCounting : Counting total ⟨conn, .waiting, sent⟩ :=
        h
      have hSome : conn.bytesToSend ≠ 0 := by
        have hLeft := hCounting.left_eq
        have hLess := hCounting.less
        simp only at hLeft hLess
        omega
      have hCall : conn.enterWrite = (conn, .looping) :=
        if_neg hSome
      have hSame : t = ⟨conn, .looping, sent⟩ := by
        change
          some (CountRun.mk conn.enterWrite.1
            conn.enterWrite.2 sent) = some t at hStep
        rw [hCall] at hStep
        exact (Option.some.inj hStep).symm
      rw [hSame]
      exact { hCounting with }
  | writev res =>
      rw [step_writev] at hStep
      rcases Option.map_eq_some_iff.mp hStep with
        ⟨⟨conn', phase'⟩, hAfter, rfl⟩
      cases res with
      | eagain =>
          have hPhase : phase = .looping := hEnabled
          subst hPhase
          cases hAfter
          have hCounting :
              Counting total ⟨conn, .looping, sent⟩ := h
          exact { hCounting with }
      | error =>
          cases hAfter
          trivial
      | accepted n =>
          have hPhase : phase = .looping := hEnabled.1
          subst hPhase
          have hCounting :
              Counting total ⟨conn, .looping, sent⟩ := h
          have hFits := hEnabled.2.2
          rw [hCounting.described] at hFits
          rcases hCounting.accepted hSmall hFits with
            ⟨conn₁, phase₁, hAfter₁, hSound⟩
          rw [hAfter] at hAfter₁
          cases hAfter₁
          exact hSound

end CountRun

end V2

end WebServer

------------------------------------------------------------
-- Sizes Of Files
------------------------------------------------------------

namespace WebServer

namespace V2

/- The header that a file of `size` bytes should be sent with. -/
def fileHeader
    (linger : Bool)
    (size : Nat) : Bytes :=
  statusLine 200 ok200Title ++ headerLines linger size

/- `process_write(FILE_REQUEST)`, where nothing was sent. -/
def CountRun.ofFile
    (conn : HttpConn)
    (stSize : Nat) : CountRun where
  conn := (conn.processWrite stSize .fileRequest).2
  phase := .waiting
  sent := 0

/-
  The response to a request for a file of `stSize` bytes
  says that size, and along every run of `write()` the
  counters are those of the header and the file.
-/
structure SizesExact
    (conn : HttpConn)
    (stSize : Nat) : Prop where
  printed :
    (conn.processWrite stSize .fileRequest).2.block
        ⟨.writeBuffer, 0,
          (fileHeader conn.linger stSize).length⟩ =
      some (fileHeader conn.linger stSize)
  counted :
    ∀ es,
      countMachine.Always
        (CountRun.Exact
          ((conn.processWrite stSize
            .fileRequest).2.writeIdx.toNat + stSize))
        (.ofFile conn stSize) es

namespace HttpConn

variable {conn : HttpConn}
variable {stSize : Nat}

/- The sum is narrowed when it is stored. -/
theorem bytesToSend_ofFile :
    (CountRun.ofFile conn stSize).conn.bytesToSend =
      toInt32
        ((conn.processWrite stSize .fileRequest).2.writeIdx +
          stSize) := by
  unfold CountRun.ofFile HttpConn.processWrite
  rfl

/- Where the counters are right, the sum fits an `int`. -/
theorem fits_of_sizesExact
    (hEmpty : conn.Holds conn.linger [])
    (h : SizesExact conn stSize) :
    (HttpCode.fileRequest.response conn.linger
        stSize).length + stSize < 2 ^ 31 := by
  have hIdx := (hEmpty.processWrite stSize
    .fileRequest).holds.idx
  have hStart := (h.counted []).left_eq (.inl rfl)
  have hBound :=
    isInt32_toInt32
      ((conn.processWrite stSize .fileRequest).2.writeIdx +
        stSize)
  rw [← bytesToSend_ofFile, hStart, hIdx] at hBound
  have hUpper := hBound.2
  simp only [CountRun.ofFile, Int.toNat_natCast,
    Int.natCast_add] at hUpper
  omega

/- In that case the header says the size of the file. -/
theorem response_eq_fileHeader
    (linger : Bool)
    (hSmall : stSize < 2 ^ 31) :
    HttpCode.fileRequest.response linger stSize =
      fileHeader linger stSize := by
  have hIn : IsInt32 stSize :=
    ⟨by omega, by omega⟩
  unfold HttpCode.response fileHeader
  rw [toInt32_of_isInt32 hIn]

/-
  `process_write` starts the count where the header and the
  file together fit an `int`.
-/
theorem counting_ofFile
    (hEmpty : conn.Holds conn.linger [])
    (hSent : conn.bytesHaveSend = 0)
    (hFits :
      (HttpCode.fileRequest.response conn.linger
        stSize).length + stSize < 2 ^ 31) :
    (CountRun.ofFile conn stSize).Counting
      ((conn.processWrite stSize
        .fileRequest).2.writeIdx.toNat + stSize) := by
  have hReady := hEmpty.processWrite stSize .fileRequest
  have hIdx := hReady.holds.idx
  have hLong := hReady.holds.written.length_le
  rw [hReady.holds.size] at hLong
  have hIn :
      IsInt32
        ((conn.processWrite stSize
          .fileRequest).2.writeIdx + stSize) := by
    rw [hIdx]
    exact ⟨by omega, by omega⟩
  have hHave :
      (conn.processWrite stSize
        .fileRequest).2.bytesHaveSend = 0 :=
    (addHeaders_frame
      (conn.addStatusLine 200 ok200Title).2
      (toInt32 stSize)).2.trans
      ((addResponse_frame conn
        (statusLine 200 ok200Title)).2.trans hSent)
  have hPos :
      0 < (HttpCode.fileRequest.response conn.linger
        stSize).length := by
    unfold HttpCode.response statusLine
    simp only [List.length_append]
    have hName : (utf8 "HTTP/1.1").length = 8 := by
      decide
    omega
  refine
    { have_eq := hHave
      left_eq := ?_
      less := ?_
      count := rfl
      lens := rfl
      header := ?_ }
  · rw [bytesToSend_ofFile, toInt32_of_isInt32 hIn, hIdx]
    simp [CountRun.ofFile]
  · show 0 < _
    rw [hIdx]
    simp only [Int.toNat_natCast]
    omega
  · show
      0 ≤ (conn.processWrite stSize
            .fileRequest).2.writeIdx ∧
        (conn.processWrite stSize
            .fileRequest).2.writeIdx ≤ writeBufferSize
    rw [hIdx]
    exact ⟨by omega, by omega⟩

end HttpConn

/-
  A file response has exact sizes along every run if and
  only if its header and the file together are shorter than
  two gigabytes.
-/
theorem sizes_exact_iff
    {conn : HttpConn}
    {stSize : Nat}
    (hEmpty : conn.Holds conn.linger [])
    (hSent : conn.bytesHaveSend = 0) :
    SizesExact conn stSize ↔
      (fileHeader conn.linger stSize).length + stSize <
        2 ^ 31 := by
  constructor
  · intro h
    have hFits := HttpConn.fits_of_sizesExact hEmpty h
    rw [HttpConn.response_eq_fileHeader conn.linger
      (by omega)] at hFits
    exact hFits
  · intro hShort
    have hReady := hEmpty.processWrite stSize .fileRequest
    have hFits :
        (HttpCode.fileRequest.response conn.linger
            stSize).length + stSize < 2 ^ 31 := by
      rw [HttpConn.response_eq_fileHeader conn.linger
        (by omega)]
      exact hShort
    have hIdx := hReady.holds.idx
    have hTotal :
        (conn.processWrite stSize
          .fileRequest).2.writeIdx.toNat + stSize <
            2 ^ 31 := by
      rw [hIdx, Int.toNat_natCast]
      exact hFits
    refine { printed := ?_, counted := ?_ }
    · have hBlock := hReady.holds.block hReady.iv0
      rw [hReady.iv0, hIdx, Int.toNat_natCast,
        HttpConn.response_eq_fileHeader conn.linger
          (by omega)] at hBlock
      exact hBlock
    · intro es
      have hStart :
          (CountRun.ofFile conn stSize).Sound
            ((conn.processWrite stSize
              .fileRequest).2.writeIdx.toNat + stSize) :=
        HttpConn.counting_ofFile hEmpty hSent hFits
      exact
        (Machine.always_of_preserved
          (fun _ _ _ hSound hEnabled hStep =>
            hSound.step hTotal hEnabled hStep)
          hStart es).mono
          fun _ hSound => hSound.exact hTotal

/- A connection that was set up. -/
def freshConn : HttpConn :=
  HttpConn.init
    { writeBuffer := []
      writeIdx := 0
      linger := false
      fileAddress := none
      iv0 := ⟨.writeBuffer, 0, 0⟩
      iv1 := ⟨.mapping, 0, 0⟩
      ivCount := 0
      bytesToSend := 0
      bytesHaveSend := 0 }

theorem freshConn_holds :
    freshConn.Holds freshConn.linger [] where
  size := List.length_replicate
  idx := rfl
  written := List.nil_prefix
  linger_eq := rfl

/- A file of 4096 bytes. -/
theorem sizes_exact_iff_one_page :
    SizesExact freshConn 4096 ↔
      (fileHeader false 4096).length + 4096 < 2 ^ 31 :=
  sizes_exact_iff freshConn_holds rfl

/- A file of two gigabytes. -/
theorem large_file_miscounted :
    ¬ ∀ (conn : HttpConn) (stSize : Nat),
      conn.Holds conn.linger [] →
        conn.bytesHaveSend = 0 →
          stSize < 2 ^ 63 →
            SizesExact conn stSize := by
  intro hAll
  have hExact :=
    hAll freshConn (2 ^ 31) freshConn_holds rfl (by decide)
  have hFits :=
    HttpConn.fits_of_sizesExact freshConn_holds hExact
  omega

end V2

end WebServer
