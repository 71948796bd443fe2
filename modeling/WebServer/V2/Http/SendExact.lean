import WebServer.V2.Http.Write

/-
  Byte-exact sending of one response in version 2.0.

  Along a run the bytes sent are a prefix of the response,
  the iovecs stay inside the buffer and the mapping, and the
  response counts as finished exactly when all of it was
  sent. One comparison of `write()` breaks this: the total
  sent is compared with what is left of the header, so a
  second short write inside the header can take the header
  for sent. Responses of two gigabytes and more do not fit
  the counters.

  Main declarations:
    * `WriteRun.Exact`
    * `WriteRun.Sending`
    * `WriteRun.HeaderKept`
    * `response_exact_iff`
-/

------------------------------------------------------------
-- Exactness
------------------------------------------------------------

namespace WebServer

namespace V2

namespace WriteRun

/- What the client and the kernel should see at any time. -/
def Exact
    (r : FileResponse)
    (s : WriteRun) : Prop :=
  s.sent <+: r.bytes ∧
    (s.phase = .waiting ∨ s.phase = .looping →
      ∀ iv ∈ s.conn.iovecs, s.conn.Inside iv) ∧
    ((∃ ret, s.phase = .finished ret) ↔
      s.sent.length = r.bytes.length)

/-
  The writes that keep the two comparisons apart: a write
  that ends inside the header leaves the total sent below
  what was left of the header before it.
-/
def HeaderKept
    (r : FileResponse)
    (s : WriteRun) :
    WriteEvent → Prop
| .writev (.accepted n) =>
    s.sent.length + n < r.writeIdx →
      s.sent.length + n < r.writeIdx - s.sent.length
| _ => True

/-
  A response in progress: the counters and the iovecs
  describe what is left after `sent`.
-/
structure Sending
    (r : FileResponse)
    (s : WriteRun) : Prop where
  sent_eq : s.sent = r.bytes.take s.sent.length
  sent_lt : s.sent.length < r.bytes.length
  buffer_eq : s.conn.writeBuffer = r.writeBuffer
  idx_eq : s.conn.writeIdx = r.writeIdx
  file_eq : s.conn.fileAddress = some r.file
  count_eq : s.conn.ivCount = 2
  have_eq : s.conn.bytesHaveSend = s.sent.length
  left_eq :
    s.conn.bytesToSend =
      (r.bytes.length : Int) - s.sent.length
  iovecs_eq :
    (s.sent.length < r.writeIdx ∧
        s.conn.iv0 =
          ⟨.writeBuffer, s.sent.length,
            r.writeIdx - s.sent.length⟩ ∧
        s.conn.iv1 = ⟨.mapping, 0, r.file.length⟩) ∨
      (r.writeIdx ≤ s.sent.length ∧
        s.conn.iv0.region = .writeBuffer ∧
        0 ≤ s.conn.iv0.iovBase ∧
        s.conn.iv0.iovBase ≤ r.writeIdx ∧
        s.conn.iv0.iovLen = 0 ∧
        s.conn.iv1 =
          ⟨.mapping, (s.sent.length : Int) - r.writeIdx,
            r.bytes.length - s.sent.length⟩)

/- The invariant of a run. -/
def Good
    (r : FileResponse)
    (s : WriteRun) : Prop :=
  match s.phase with
  | .waiting => s.Sending r
  | .looping => s.Sending r
  | .finished _ => s.sent = r.bytes
  | .failed =>
      s.sent <+: r.bytes ∧
        s.sent.length < r.bytes.length

end WriteRun

end V2

end WebServer

------------------------------------------------------------
-- Blocks Of Memory
------------------------------------------------------------

namespace WebServer

namespace V2

namespace HttpConn

variable {conn : HttpConn}
variable {iv : Iovec}
variable {bytes : Bytes}

/- The block of an iovec that fits its region. -/
theorem block_eq
    (offset : Nat)
    (hRegion : conn.regionBytes iv.region = some bytes)
    (hBase : iv.iovBase = offset)
    (hFits : offset + iv.iovLen ≤ bytes.length) :
    conn.block iv =
      some ((bytes.drop offset).take iv.iovLen) := by
  have hInt :
      (offset : Int) + iv.iovLen ≤ bytes.length := by
    omega
  simp [block, hRegion, hBase, hInt]

/- An iovec with a block lies inside its region. -/
theorem inside_of_block
    {b : Bytes}
    (h : conn.block iv = some b) :
    conn.Inside iv := by
  unfold block at h
  cases hRegion : conn.regionBytes iv.region with
  | none => simp [hRegion] at h
  | some bytes =>
      by_cases hFits :
          0 ≤ iv.iovBase ∧
            iv.iovBase + iv.iovLen ≤ bytes.length
      · exact ⟨bytes, hRegion, hFits⟩
      · simp [hRegion, hFits] at h

end HttpConn

end V2

end WebServer

------------------------------------------------------------
-- A Response In Progress
------------------------------------------------------------

namespace WebServer

namespace V2

namespace WriteRun

variable {r : FileResponse}
variable {s : WriteRun}

theorem Sending.iovecs
    (h : s.Sending r) :
    s.conn.iovecs = [s.conn.iv0, s.conn.iv1] := by
  simp [HttpConn.iovecs, h.count_eq]

/- The iovecs describe the bytes not yet sent. -/
theorem Sending.described
    (h : s.Sending r) :
    s.conn.described = r.bytes.length - s.sent.length := by
  have hLen := r.bytes_length
  unfold HttpConn.described
  rw [h.iovecs]
  rcases h.iovecs_eq with
    ⟨hIn, h₀, h₁⟩ | ⟨hOut, _, _, _, h₀, h₁⟩
  · simp [h₀, h₁]
    omega
  · simp [h₀, h₁]

/-
  The blocks behind the iovecs are, together, the rest of
  the response.
-/
theorem Sending.blocks
    (h : s.Sending r) :
    ∃ b₀ b₁,
      s.conn.block s.conn.iv0 = some b₀ ∧
        s.conn.block s.conn.iv1 = some b₁ ∧
        b₀ ++ b₁ = r.bytes.drop s.sent.length := by
  have hLen := r.bytes_length
  have hIdx := r.idx_le
  have hBuffer := r.buffer_size
  have hSent := h.sent_lt
  have hBufferAt :
      s.conn.regionBytes .writeBuffer =
        some r.writeBuffer := by
    simp [HttpConn.regionBytes, h.buffer_eq]
  have hFileAt :
      s.conn.regionBytes .mapping = some r.file :=
    h.file_eq
  rcases h.iovecs_eq with
    ⟨hIn, h₀, h₁⟩ | ⟨hOut, hRegion, hBase, hLe, h₀, h₁⟩
  · refine ⟨_, _,
      HttpConn.block_eq s.sent.length
        (by rw [h₀]; exact hBufferAt) (by rw [h₀])
        (by rw [h₀]; simp only; omega),
      HttpConn.block_eq 0
        (by rw [h₁]; exact hFileAt) (by rw [h₁]; rfl)
        (by simp [h₁]), ?_⟩
    have hShort : s.sent.length ≤ r.header.length := by
      rw [r.header_length]
      omega
    rw [FileResponse.bytes,
      List.drop_append_of_le_length hShort,
      FileResponse.header, List.drop_take]
    simp [h₀, h₁]
  · refine ⟨_, _,
      HttpConn.block_eq s.conn.iv0.iovBase.toNat
        (by rw [hRegion]; exact hBufferAt)
        (by omega) (by omega),
      HttpConn.block_eq (s.sent.length - r.writeIdx)
        (by rw [h₁]; exact hFileAt)
        (by rw [h₁]; simp only; omega)
        (by rw [h₁]; simp only; omega), ?_⟩
    have hRest :
        r.bytes.drop s.sent.length =
          r.file.drop (s.sent.length - r.writeIdx) := by
      rw [FileResponse.bytes, List.drop_append,
        r.header_length, List.drop_eq_nil_of_le (by
          rw [r.header_length]
          exact hOut)]
      rfl
    rw [h₀, h₁, hRest, List.take_zero, List.nil_append]
    apply List.take_of_length_le
    rw [List.length_drop]
    simp only
    omega

/- Both iovecs lie inside their memory. -/
theorem Sending.inside
    (h : s.Sending r) :
    ∀ iv ∈ s.conn.iovecs, s.conn.Inside iv := by
  rcases h.blocks with ⟨b₀, b₁, h₀, h₁, _⟩
  intro iv hIv
  rw [h.iovecs] at hIv
  simp only [List.mem_cons, List.not_mem_nil, or_false]
    at hIv
  rcases hIv with rfl | rfl
  · exact HttpConn.inside_of_block h₀
  · exact HttpConn.inside_of_block h₁

/- The kernel is handed exactly the rest of the response. -/
theorem Sending.gather
    (h : s.Sending r) :
    s.conn.gather =
      some (r.bytes.drop s.sent.length) := by
  rcases h.blocks with ⟨b₀, b₁, h₀, h₁, hRest⟩
  unfold HttpConn.gather
  rw [h.iovecs, ← hRest]
  simp [h₀, h₁]

/-
  What the bookkeeping makes of a write of `n` bytes. The
  counters hold the true counts; the iovecs follow the
  comparison the code makes.
-/
structure Advanced
    (r : FileResponse)
    (s : WriteRun)
    (n : Nat)
    (conn : HttpConn) : Prop where
  buffer_eq : conn.writeBuffer = s.conn.writeBuffer
  idx_eq : conn.writeIdx = s.conn.writeIdx
  file_eq : conn.fileAddress = s.conn.fileAddress
  count_eq : conn.ivCount = s.conn.ivCount
  have_eq : conn.bytesHaveSend = s.sent.length + n
  left_eq :
    conn.bytesToSend =
      (r.bytes.length : Int) - s.sent.length - n
  iovecs_eq :
    (s.conn.iv0.iovLen ≤ s.sent.length + n ∧
        conn.iv0 =
          ⟨s.conn.iv0.region, s.conn.iv0.iovBase, 0⟩ ∧
        conn.iv1 =
          ⟨.mapping, (s.sent.length : Int) + n - r.writeIdx,
            r.bytes.length - s.sent.length - n⟩) ∨
      (s.sent.length + n < s.conn.iv0.iovLen ∧
        conn.iv0 =
          ⟨.writeBuffer, (s.sent.length : Int) + n,
            s.conn.iv0.iovLen - n⟩ ∧
        conn.iv1 = s.conn.iv1)

/- The bookkeeping does not fail on a response that fits. -/
theorem Sending.advance
    (h : s.Sending r)
    (hSmall : r.bytes.length < 2 ^ 31)
    {n : Nat}
    (hFits : n ≤ r.bytes.length - s.sent.length) :
    ∃ conn, s.conn.advance n = some conn ∧
      s.Advanced r n conn := by
  have hLen := r.bytes_length
  have hSent := h.sent_lt
  have hAdd :
      addInt32 s.conn.bytesHaveSend n =
        some ((s.sent.length : Int) + n) := by
    rw [h.have_eq, addInt32_of_isInt32]
    exact ⟨by omega, by omega⟩
  have hSub :
      subInt32 s.conn.bytesToSend n =
        some ((r.bytes.length : Int) - s.sent.length - n) := by
    rw [h.left_eq, subInt32_of_isInt32]
    exact ⟨by omega, by omega⟩
  have hOffset :
      subInt32 ((s.sent.length : Int) + n)
          s.conn.writeIdx =
        some ((s.sent.length : Int) + n - r.writeIdx) := by
    rw [h.idx_eq, subInt32_of_isInt32]
    exact ⟨by omega, by omega⟩
  have hTotal :
      toSize ((s.sent.length : Int) + n) =
        s.sent.length + n := by
    rw [toSize_of_nonneg (by omega) (by omega)]
    omega
  have hLeft :
      toSize ((r.bytes.length : Int) - s.sent.length - n) =
        r.bytes.length - s.sent.length - n := by
    rw [toSize_of_nonneg (by omega) (by omega)]
    omega
  unfold HttpConn.advance
  by_cases hPast : s.conn.iv0.iovLen ≤ s.sent.length + n
  · simp only [hAdd, hSub, hTotal, hPast, hOffset, hLeft,
      Option.bind_eq_bind, Option.bind_some, if_true]
    refine ⟨_, rfl, ?_⟩
    exact
      { buffer_eq := rfl
        idx_eq := rfl
        file_eq := rfl
        count_eq := rfl
        have_eq := rfl
        left_eq := rfl
        iovecs_eq := .inl ⟨hPast, rfl, rfl⟩ }
  · have hShort :
        s.conn.iv0.iovLen ≤ r.bytes.length := by
      rcases h.iovecs_eq with
        ⟨_, h₀, _⟩ | ⟨_, _, _, _, h₀, _⟩
      · rw [h₀]
        simp only
        omega
      · omega
    have hHeader :
        toSize ((s.conn.iv0.iovLen : Int) - n) =
          s.conn.iv0.iovLen - n := by
      rw [toSize_of_nonneg (by omega) (by omega)]
      omega
    simp only [hAdd, hSub, hTotal, hPast, hHeader,
      Option.bind_eq_bind, Option.bind_some, if_false]
    refine ⟨_, rfl, ?_⟩
    exact
      { buffer_eq := rfl
        idx_eq := rfl
        file_eq := rfl
        count_eq := rfl
        have_eq := rfl
        left_eq := rfl
        iovecs_eq := .inr ⟨by omega, rfl, rfl⟩ }

end WriteRun

end V2

end WebServer

------------------------------------------------------------
-- Step Lemmas
------------------------------------------------------------

namespace WebServer

namespace V2

namespace WriteRun

variable {r : FileResponse}
variable {s : WriteRun}

/- An accepted write, up to the counters. -/
theorem Sending.writev_eq
    (h : s.Sending r)
    (hSmall : r.bytes.length < 2 ^ 31)
    {n : Nat}
    (hFits : n ≤ r.bytes.length - s.sent.length)
    {conn : HttpConn}
    (hAdvance : s.conn.advance n = some conn) :
    s.writev (.accepted n) =
      some
        (if conn.bytesToSend ≤ (0 : Int) then
          WriteRun.finish
            ⟨conn, s.phase,
              r.bytes.take (s.sent.length + n)⟩
        else
          ⟨conn, s.phase,
            r.bytes.take (s.sent.length + n)⟩) := by
  have hTmp : toInt32 n = n := by
    apply toInt32_of_isInt32
    exact ⟨by omega, by omega⟩
  have hSent :
      s.sent ++ (r.bytes.drop s.sent.length).take n =
        r.bytes.take (s.sent.length + n) := by
    rw [List.take_add, ← h.sent_eq]
  have hPositive : ¬ (n : Int) ≤ -1 := by
    omega
  simp only [writev, h.gather, hTmp, hPositive, hAdvance,
    Option.bind_eq_bind, Option.bind_some, if_false, hSent]
  split <;> rfl

theorem take_length
    {n : Nat}
    (hFits : n ≤ r.bytes.length) :
    (r.bytes.take n).length = n := by
  rw [List.length_take]
  omega

/- The end of a response keeps the bytes sent. -/
theorem finish_sent
    (s : WriteRun) :
    s.finish.sent = s.sent ∧
      ∃ ret, s.finish.phase = .finished ret := by
  unfold WriteRun.finish
  split
  · exact ⟨rfl, _, rfl⟩
  · exact ⟨rfl, _, rfl⟩

/-
  The iovecs after a write stay right when the comparison
  answers whether the header is sent.
-/
theorem Sending.advanced_sending
    (h : s.Sending r)
    {n : Nat}
    {conn : HttpConn}
    (hConn : s.Advanced r n conn)
    (hLess : s.sent.length + n < r.bytes.length)
    (hKept : s.HeaderKept r (.writev (.accepted n))) :
    Sending r
      ⟨conn, s.phase,
        r.bytes.take (s.sent.length + n)⟩ := by
  have hLen := r.bytes_length
  have hTake := take_length (r := r) (Nat.le_of_lt hLess)
  refine
    { sent_eq := by simp only [hTake]
      sent_lt := by simp only [hTake]; exact hLess
      buffer_eq := hConn.buffer_eq.trans h.buffer_eq
      idx_eq := hConn.idx_eq.trans h.idx_eq
      file_eq := hConn.file_eq.trans h.file_eq
      count_eq := hConn.count_eq.trans h.count_eq
      have_eq := ?_
      left_eq := ?_
      iovecs_eq := ?_ }
  · simp only [hTake, hConn.have_eq, Int.natCast_add]
  · simp only [hTake, hConn.left_eq, Int.natCast_add]
    omega
  simp only [hTake, Int.natCast_add]
  simp only [HeaderKept] at hKept
  rcases hConn.iovecs_eq with
    ⟨hPast, h₀, h₁⟩ | ⟨hShort, h₀, h₁⟩
  · right
    rcases h.iovecs_eq with
      ⟨hIn, hOld, _⟩ | ⟨hOut, hRegion, hBase, hLe, _, _⟩
    · rw [hOld] at hPast
      simp only at hPast
      rw [h₀, h₁, hOld]
      refine ⟨by omega, rfl, ?_, ?_, rfl, ?_⟩
      · simp only
        omega
      · simp only
        omega
      · rw [Nat.sub_sub]
    · rw [h₀, h₁]
      refine ⟨by omega, hRegion, hBase, hLe, rfl, ?_⟩
      rw [Nat.sub_sub]
  · left
    rcases h.iovecs_eq with
      ⟨hIn, hOld, hOld₁⟩ | ⟨_, _, _, _, hOld, _⟩
    · rw [hOld] at hShort h₀
      simp only at hShort h₀
      rw [h₀, h₁, hOld₁, Nat.sub_sub]
      exact ⟨by omega, rfl, rfl⟩
    · omega

/- An accepted write that keeps the header apart. -/
theorem Sending.writev_good
    (h : s.Sending r)
    (hSmall : r.bytes.length < 2 ^ 31)
    (hPhase : s.phase = .looping)
    {n : Nat}
    (hFits : n ≤ s.conn.described)
    (hKept : s.HeaderKept r (.writev (.accepted n))) :
    ∃ t, s.writev (.accepted n) = some t ∧ t.Good r := by
  have hSent := h.sent_lt
  rw [h.described] at hFits
  rcases h.advance hSmall hFits with ⟨conn, hRun, hConn⟩
  refine ⟨_, h.writev_eq hSmall hFits hRun, ?_⟩
  rw [hConn.left_eq]
  split
  next hDone =>
    -- nothing is left: the whole response was sent
    have hAll : s.sent.length + n = r.bytes.length := by
      omega
    rcases finish_sent
        ⟨conn, s.phase,
          r.bytes.take (s.sent.length + n)⟩ with
      ⟨hSame, ret, hFinished⟩
    unfold Good
    rw [hFinished, hSame]
    simp only
    rw [hAll, List.take_length]
  next hMore =>
    have hNext :=
      h.advanced_sending hConn (by omega) hKept
    rw [hPhase] at hNext ⊢
    exact hNext

/-
  A write that ends inside the header but reaches what was
  left of it points the second iovec in front of the file.
-/
theorem Sending.writev_breaks
    (h : s.Sending r)
    (hSmall : r.bytes.length < 2 ^ 31)
    (hPhase : s.phase = .looping)
    {n : Nat}
    (hFits : n ≤ s.conn.described)
    (hLost : ¬ s.HeaderKept r (.writev (.accepted n)))
    {t : WriteRun}
    (hStep : s.writev (.accepted n) = some t) :
    ¬ t.Exact r := by
  have hLen := r.bytes_length
  simp only [HeaderKept, Classical.not_imp] at hLost
  rcases hLost with ⟨hInside, hReach⟩
  rw [h.described] at hFits
  rcases h.advance hSmall hFits with ⟨conn, hRun, hConn⟩
  rw [h.writev_eq hSmall hFits hRun, hConn.left_eq,
    if_neg (by omega)] at hStep
  have hEq := Option.some.inj hStep
  subst hEq
  rintro ⟨_, hIovecs, _⟩
  have hCount : conn.ivCount = 2 :=
    hConn.count_eq.trans h.count_eq
  rcases hIovecs (.inr hPhase) conn.iv1
      (by simp [HttpConn.iovecs, hCount]) with
    ⟨_, _, hBase, _⟩
  rcases hConn.iovecs_eq with
    ⟨_, _, h₁⟩ | ⟨hShort, _, _⟩
  · rw [h₁] at hBase
    simp only at hBase
    omega
  · rcases h.iovecs_eq with
      ⟨_, hOld, _⟩ | ⟨hOut, _⟩
    · rw [hOld] at hShort
      simp only at hShort
      omega
    · omega

/- The invariant says what the run should show. -/
theorem Good.exact
    (h : s.Good r) :
    s.Exact r := by
  unfold Good at h
  cases hPhase : s.phase with
  | waiting =>
      rw [hPhase] at h
      refine ⟨h.sent_eq ▸ List.take_prefix _ _,
        fun _ => h.inside, ?_⟩
      have hLess := h.sent_lt
      simp only [hPhase, reduceCtorEq, exists_false,
        false_iff]
      omega
  | looping =>
      rw [hPhase] at h
      refine ⟨h.sent_eq ▸ List.take_prefix _ _,
        fun _ => h.inside, ?_⟩
      have hLess := h.sent_lt
      simp only [hPhase, reduceCtorEq, exists_false,
        false_iff]
      omega
  | finished ret =>
      rw [hPhase] at h
      simp only at h
      refine
        ⟨h ▸ List.prefix_refl _, by simp [hPhase], ?_⟩
      simp [hPhase, h]
  | failed =>
      rw [hPhase] at h
      simp only at h
      refine ⟨h.1, by simp [hPhase], ?_⟩
      simp only [hPhase, reduceCtorEq, exists_false,
        false_iff]
      exact Nat.ne_of_lt h.2

/- A response of less than two gigabytes starts out right. -/
theorem init_good
    (hSmall : r.bytes.length < 2 ^ 31) :
    (init r).Good r := by
  have hLen := r.bytes_length
  have hIdx := r.idx_pos
  change Sending r (init r)
  refine
    { sent_eq := rfl
      sent_lt := ?_
      buffer_eq := rfl
      idx_eq := rfl
      file_eq := rfl
      count_eq := rfl
      have_eq := rfl
      left_eq := ?_
      iovecs_eq := .inl ⟨hIdx, rfl, rfl⟩ }
  · change 0 < r.bytes.length
    omega
  · have hFits :
        toInt32 ((r.writeIdx : Int) + r.file.length) =
          (r.writeIdx : Int) + r.file.length :=
      toInt32_of_isInt32 ⟨by omega, by omega⟩
    simp [init, HttpConn.fileRequest, hFits]

/- Every step that keeps the header apart is right. -/
theorem step_good
    (hSmall : r.bytes.length < 2 ^ 31)
    (s : WriteRun)
    (e : WriteEvent)
    (h : s.Good r)
    (hEnabled : s.enabled e)
    (hKept : s.HeaderKept r e) :
    ∃ t, s.step e = some t ∧ t.Good r := by
  cases e with
  | call =>
      have hPhase : s.phase = .waiting := hEnabled
      unfold Good at h
      rw [hPhase] at h
      have hLeft := h.left_eq
      have hLess := h.sent_lt
      have hSome : s.conn.bytesToSend ≠ 0 := by
        omega
      refine ⟨{ s with phase := .looping },
        by simp [step, call, hSome], ?_⟩
      exact { h with }
  | writev res =>
      cases res with
      | accepted n =>
          rcases hEnabled with ⟨hPhase, _, hFits⟩
          unfold Good at h
          rw [hPhase] at h
          exact h.writev_good hSmall hPhase hFits hKept
      | eagain =>
          have hPhase : s.phase = .looping := hEnabled
          unfold Good at h
          rw [hPhase] at h
          refine ⟨_, rfl, ?_⟩
          exact { h with }
      | error =>
          have hPhase : s.phase = .looping := hEnabled
          unfold Good at h
          rw [hPhase] at h
          exact
            ⟨_, rfl, h.sent_eq ▸ List.take_prefix _ _,
              h.sent_lt⟩

/- Every other step is wrong. -/
theorem step_breaks
    (hSmall : r.bytes.length < 2 ^ 31)
    (s : WriteRun)
    (e : WriteEvent)
    (h : s.Good r)
    (hEnabled : s.enabled e)
    (hLost : ¬ s.HeaderKept r e)
    (t : WriteRun)
    (hStep : s.step e = some t) :
    ¬ t.Exact r := by
  cases e with
  | call => exact (hLost trivial).elim
  | writev res =>
      cases res with
      | accepted n =>
          rcases hEnabled with ⟨hPhase, _, hFits⟩
          unfold Good at h
          rw [hPhase] at h
          exact
            h.writev_breaks hSmall hPhase hFits hLost hStep
      | eagain => exact (hLost trivial).elim
      | error => exact (hLost trivial).elim

end WriteRun

end V2

end WebServer

------------------------------------------------------------
-- Responses Past The Counters
------------------------------------------------------------

namespace WebServer

namespace V2

/- What a write leaves to send, whatever the iovecs say. -/
theorem HttpConn.advance_bytesToSend
    {conn conn' : HttpConn}
    {tmp : Int}
    (h : conn.advance tmp = some conn') :
    conn'.bytesToSend = conn.bytesToSend - tmp := by
  unfold HttpConn.advance addInt32 subInt32 at h
  simp only [Option.bind_eq_bind, Option.bind_eq_some_iff,
    Option.ite_none_right_eq_some, Option.some.injEq] at h
  rcases h with ⟨_, ⟨_, rfl⟩, _, ⟨_, rfl⟩, h⟩
  split at h
  · rcases Option.bind_eq_some_iff.mp h with ⟨_, _, h⟩
    cases h
    rfl
  · cases h
    rfl

namespace WriteRun

variable {r : FileResponse}

/-
  A first write of all that the counter claims is left ends
  the response.
-/
theorem writev_ends
    {s t : WriteRun}
    {n : Nat}
    (hSmall : n < 2 ^ 31)
    (hLeft : s.conn.bytesToSend ≤ n)
    (hSent : s.sent = [])
    (hStep : s.writev (.accepted n) = some t) :
    (∃ ret, t.phase = .finished ret) ∧
      t.sent.length ≤ n := by
  have hTmp : toInt32 n = n :=
    toInt32_of_isInt32 ⟨by omega, by omega⟩
  have hPositive : ¬ (n : Int) ≤ -1 := by
    omega
  simp only [writev, hTmp, hPositive, if_false,
    Option.bind_eq_bind, Option.bind_eq_some_iff,
    hSent, List.nil_append] at hStep
  rcases hStep with ⟨bytes, _, conn, hAdvance, hStep⟩
  have hDone : conn.bytesToSend ≤ (0 : Int) := by
    rw [HttpConn.advance_bytesToSend hAdvance]
    omega
  rw [if_pos hDone] at hStep
  have hEq := Option.some.inj hStep
  subst hEq
  rcases finish_sent
      ⟨conn, s.phase, bytes.take n⟩ with
    ⟨hSame, hFinished⟩
  refine ⟨hFinished, ?_⟩
  rw [hSame]
  exact List.length_take_le _ _

/- The counter a response starts with. -/
theorem init_bytesToSend
    (r : FileResponse) :
    (HttpConn.fileRequest r).bytesToSend =
      toInt32 ((r.writeIdx : Int) + r.file.length) := by
  simp only [HttpConn.fileRequest]

/- Entering `write()` with something to send. -/
theorem call_init
    (hMore : (HttpConn.fileRequest r).bytesToSend ≠ 0) :
    (init r).call =
      ⟨HttpConn.fileRequest r, .looping, []⟩ := by
  simp [call, init, hMore]

/-
  From two gigabytes on the counter wraps, and some run ends
  the response too early.
-/
theorem large_response_inexact
    (hLarge : 2 ^ 31 ≤ r.bytes.length) :
    ∃ es,
      ¬ writeMachine.Throughout (Exact r) (init r) es := by
  have hLen := r.bytes_length
  have hBounds :=
    isInt32_toInt32 ((r.writeIdx : Int) + r.file.length)
  unfold IsInt32 at hBounds
  rw [← init_bytesToSend] at hBounds
  by_cases hZero :
      (HttpConn.fileRequest r).bytesToSend = 0
  · refine ⟨[.call], ?_⟩
    intro hAll
    rcases hAll.2 rfl with ⟨t, hStep, hTail⟩
    have hEq := Option.some.inj hStep
    subst hEq
    have hSent :=
      hTail.2.2.mp ⟨true, by simp [call, init, hZero]⟩
    simp [call, init, hZero] at hSent
    omega
  · -- the first write takes what the counter says is left
    let n :=
      max 1 (HttpConn.fileRequest r).bytesToSend.toNat
    refine ⟨[.call, .writev (.accepted n)], ?_⟩
    intro hAll
    rcases hAll.2 rfl with ⟨t, hStep, hTail⟩
    have hEq := Option.some.inj hStep
    rw [call_init hZero] at hEq
    subst hEq
    have hDescribed :
        (HttpConn.fileRequest r).described =
          r.bytes.length := by
      simp [HttpConn.described, HttpConn.iovecs,
        HttpConn.fileRequest]
    have hEnough : n ≤ r.bytes.length := by
      omega
    rcases hTail.2
        ⟨rfl, by omega, hDescribed.symm ▸ hEnough⟩ with
      ⟨u, hWrite, hLast⟩
    rcases writev_ends (n := n) (by omega)
        (by simp only; omega) rfl hWrite with
      ⟨hFinished, hShort⟩
    have hSent := hLast.head.2.2.mp hFinished
    omega

end WriteRun

end V2

end WebServer

------------------------------------------------------------
-- Whole Runs
------------------------------------------------------------

namespace WebServer

namespace V2

open WriteRun

/- Runs of a response that fits the counters. -/
theorem small_response_exact_iff
    {r : FileResponse}
    (hSmall : r.bytes.length < 2 ^ 31)
    (es : List WriteEvent) :
    writeMachine.Throughout (Exact r) (WriteRun.init r)
        es ↔
      writeMachine.StepsMeet (HeaderKept r)
        (WriteRun.init r) es :=
  Machine.throughout_iff_stepsMeet
    (fun _ h => h.exact)
    (step_good hSmall)
    (step_breaks hSmall)
    (init_good hSmall)

/-
  A response of less than two gigabytes is sent exactly, in
  every run, if and only if no short write inside the header
  reaches what was left of the header before it; for every
  larger response some run is wrong.
-/
theorem response_exact_iff
    (r : FileResponse) :
    (r.bytes.length < 2 ^ 31 →
        ∀ es,
          writeMachine.Throughout (Exact r)
              (WriteRun.init r) es ↔
            writeMachine.StepsMeet (HeaderKept r)
              (WriteRun.init r) es) ∧
      (2 ^ 31 ≤ r.bytes.length →
        ∃ es,
          ¬ writeMachine.Throughout (Exact r)
            (WriteRun.init r) es) :=
  ⟨small_response_exact_iff, large_response_inexact⟩

/- The response for a file of one byte. -/
def oneByteResponse : FileResponse where
  writeBuffer :=
    utf8 "HTTP/1.1 200 OK\r\nContent-Length: 1\r\n" ++
      utf8 "Content-Type:text/html\r\n" ++
      utf8 "Connection:close\r\n\r\n" ++
      List.replicate 1968 0
  writeIdx := 80
  file := [65]
  linger := false
  buffer_size := by decide +kernel
  idx_pos := by decide
  idx_le := by decide

/-
  Two short writes of 50 and 20 bytes stay inside the header
  of 80 bytes, and the second one skips the rest of it.
-/
theorem header_skipped_after_two_short_writes :
    ¬ writeMachine.Throughout (Exact oneByteResponse)
        (WriteRun.init oneByteResponse)
        [.call, .writev (.accepted 50),
          .writev (.accepted 20)] := by
  rw [small_response_exact_iff (by decide +kernel)]
  intro hMeet
  have hFirst := (hMeet rfl).2 _ rfl
  have hSecond :=
    (hFirst ⟨rfl, by decide, by decide +kernel⟩).2
  have hHalfway :
      ((writeMachine.step
            ⟨HttpConn.fileRequest oneByteResponse,
              .looping, []⟩
            (.writev (.accepted 50))).map fun t =>
          (t.phase, t.sent.length, t.conn.described)) =
        some (.looping, 50, 31) := by
    decide +kernel
  rcases Option.map_eq_some_iff.mp hHalfway with
    ⟨t, hStep, hState⟩
  simp only [Prod.mk.injEq] at hState
  rcases hState with ⟨hPhase, hSent, hDescribed⟩
  have hRest := hSecond t hStep
  have hKept :=
    (hRest ⟨hPhase, by decide, by rw [hDescribed]; decide⟩).1
  simp only [HeaderKept, hSent] at hKept
  exact absurd (hKept (by decide)) (by decide)

end V2

end WebServer
