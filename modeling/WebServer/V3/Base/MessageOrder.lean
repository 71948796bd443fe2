import WebServer.V3.Base.BufferOwnership

/-
  The bytes that the asynchronous logger writes.

  The record of a run lists the messages in the order in
  which their threads took the lock, and those appended
  before the last swap of the back end. Every buffer in
  flight holds whole messages: the front end's buffers those
  since the last swap, the back end's those it has not
  written yet.

  Key definitions include:
    * `LogRecord`
    * `recordedLogging`
    * `AsyncLogging.HoldsWhole`
    * `KeepsMessages`

  Key theorems include:
    * `Messages.step`
    * `messages_whole_in_order`
-/

------------------------------------------------------------
-- The Record Of A Run
------------------------------------------------------------

namespace WebServer

namespace V3

/-
  Messages in lock-acquisition order, and those appended
  before the last swap.
-/
structure LogRecord where
  appended : List Bytes
  swapped : List Bytes
deriving DecidableEq, Repr

namespace AsyncLogging

/- The next piece of `threadFunc` swaps the buffers. -/
def swaps
    (s : AsyncLogging) : Bool :=
  s.pos == .waiting ||
    (s.pos == .beforeLock && !s.buffers.isEmpty)

/- What a step adds to the record. -/
def note
    (s : AsyncLogging) :
    LogEvent → LogRecord → LogRecord
| .append logline, h =>
    { h with appended := h.appended ++ [logline] }
| .stop, h => h
| .thread, h =>
    if s.swaps then
      { h with swapped := h.appended }
    else
      h

end AsyncLogging

/- The logger with the record of its run. -/
def recordedLogging :
    Machine (AsyncLogging × LogRecord) LogEvent :=
  loggingMachine.recording AsyncLogging.note

/- A logger just started, with nothing recorded. -/
def loggingStart : AsyncLogging × LogRecord :=
  (AsyncLogging.init, { appended := [], swapped := [] })

end V3

end WebServer

------------------------------------------------------------
-- Messages In Flight
------------------------------------------------------------

namespace WebServer

namespace V3

namespace AsyncLogging

/- The buffers of the front end, oldest first. -/
def frontBuffers
    (s : AsyncLogging) : List BufferId :=
  s.buffers ++ s.currentBuffer.toList

/- The collected buffers not yet written, oldest first. -/
def unwritten
    (s : AsyncLogging) : List BufferId :=
  match s.pos with
  | .collected => s.buffersToWrite
  | .writing i => s.buffersToWrite.drop i
  | _ => []

/- The bytes of some buffers, buffer by buffer. -/
def contents
    (s : AsyncLogging)
    (ids : List BufferId) : List Bytes :=
  ids.map fun id => (s.heap id).data

/-
  The buffers hold what `all` has beyond `done`, each of
  them a number of whole messages.
-/
def HoldsWhole
    (s : AsyncLogging)
    (ids : List BufferId)
    (done all : List Bytes) : Prop :=
  ∃ groups : List (List Bytes),
    s.contents ids = groups.map List.flatten ∧
      done ++ groups.flatten = all

end AsyncLogging

/-
  After an iteration of the back end the file has exactly
  the messages appended before its swap. At any time the
  front end's buffers hold the messages since then, and the
  buffers still to be written hold those the file lacks.
-/
def KeepsMessages
    (r : AsyncLogging × LogRecord) : Prop :=
  (r.1.pos = .loopHead ∨ r.1.pos = .finished →
      r.1.output = r.2.swapped.flatten) ∧
    r.1.HoldsWhole r.1.frontBuffers
      r.2.swapped r.2.appended ∧
    ∃ written : List Bytes,
      r.1.output = written.flatten ∧
        r.1.HoldsWhole r.1.unwritten written r.2.swapped

/-
  Each message is shorter than a buffer, and no iteration
  collects more than 25 buffers.
-/
def LogsWithinLimits
    (r : AsyncLogging × LogRecord) :
    LogEvent → Prop
| .append logline => logline.length < kLargeBuffer
| .stop => True
| .thread =>
    r.1.pos = .collected → r.1.buffersToWrite.length ≤ 25

instance (s : AsyncLogging) :
    ∀ e, Decidable (s.enabled e)
| .append logline =>
    inferInstanceAs (Decidable (logline.length < 2 ^ 31))
| .stop => inferInstanceAs (Decidable (s.pos ≠ .entry))
| .thread =>
    inferInstanceAs (Decidable (s.pos ≠ .finished))

instance (r : AsyncLogging × LogRecord) :
    ∀ e, Decidable (recordedLogging.enabled r e) :=
  fun e => inferInstanceAs (Decidable (r.1.enabled e))

instance (r : AsyncLogging × LogRecord) :
    ∀ e, Decidable (LogsWithinLimits r e)
| .append logline =>
    inferInstanceAs
      (Decidable (logline.length < kLargeBuffer))
| .stop => isTrue trivial
| .thread =>
    inferInstanceAs
      (Decidable
        (r.1.pos = .collected →
          r.1.buffersToWrite.length ≤ 25))

end V3

end WebServer

------------------------------------------------------------
-- Whole Messages In Buffers
------------------------------------------------------------

namespace WebServer

namespace V3

namespace AsyncLogging

variable {s t : AsyncLogging}
variable {ids : List BufferId}
variable {done all : List Bytes}

/- No buffer, no message. -/
theorem HoldsWhole.nil
    (s : AsyncLogging)
    (all : List Bytes) :
    s.HoldsWhole [] all all :=
  ⟨[], rfl, List.append_nil all⟩

/- Without a buffer nothing is missing. -/
theorem HoldsWhole.eq_of_nil
    (h : s.HoldsWhole [] done all) :
    done = all := by
  rcases h with ⟨groups, hContents, hAll⟩
  have hNil : groups = [] :=
    List.map_eq_nil_iff.mp hContents.symm
  subst hNil
  simpa using hAll

/- Buffers with the same bytes hold the same messages. -/
theorem HoldsWhole.frame
    (h : s.HoldsWhole ids done all)
    (hSame :
      ∀ id ∈ ids, (t.heap id).data = (s.heap id).data) :
    t.HoldsWhole ids done all := by
  rcases h with ⟨groups, hContents, hAll⟩
  refine ⟨groups, ?_, hAll⟩
  rw [← hContents]
  exact List.map_congr_left hSame

/- An empty buffer behind the others. -/
theorem HoldsWhole.snoc
    (h : s.HoldsWhole ids done all)
    {id : BufferId}
    (hEmpty : (s.heap id).data = []) :
    s.HoldsWhole (ids ++ [id]) done all := by
  rcases h with ⟨groups, hContents, hAll⟩
  refine ⟨groups ++ [[]], ?_, ?_⟩
  · simp only [contents] at hContents ⊢
    simp [hContents, hEmpty]
  · simpa using hAll

/- A message copied behind the data of the last buffer. -/
theorem HoldsWhole.appendLast
    {id : BufferId}
    {logline : Bytes}
    (h : s.HoldsWhole (ids ++ [id]) done all)
    (hSame :
      ∀ x ∈ ids, (t.heap x).data = (s.heap x).data)
    (hLast :
      (t.heap id).data = (s.heap id).data ++ logline) :
    t.HoldsWhole (ids ++ [id]) done
      (all ++ [logline]) := by
  rcases h with ⟨groups, hContents, hAll⟩
  unfold contents at hContents
  rw [List.map_append] at hContents
  rcases List.map_eq_append_iff.mp hContents.symm with
    ⟨front, last, hGroups, hFront, hLastGroup⟩
  rcases List.map_eq_singleton_iff.mp hLastGroup with
    ⟨group, hSingle, hBytes⟩
  subst hSingle
  refine ⟨front ++ [group ++ [logline]], ?_, ?_⟩
  · unfold contents
    rw [List.map_append, List.map_append, hFront,
      List.map_congr_left hSame]
    simp [hLast, hBytes]
  · rw [← hAll, hGroups]
    simp

/- The first buffer is written. -/
theorem HoldsWhole.writeFirst
    {id : BufferId}
    (h : s.HoldsWhole (id :: ids) done all) :
    ∃ group : List Bytes,
      (s.heap id).data = group.flatten ∧
        s.HoldsWhole ids (done ++ group) all := by
  rcases h with ⟨groups, hContents, hAll⟩
  cases groups with
  | nil => simp [contents] at hContents
  | cons group groups =>
      have hParts := List.cons.inj hContents
      refine ⟨group, hParts.1, groups, hParts.2, ?_⟩
      rw [← hAll]
      simp

end AsyncLogging

end V3

end WebServer

------------------------------------------------------------
-- The Invariant
------------------------------------------------------------

namespace WebServer

namespace V3

namespace AsyncLogging

/-
  Where the messages of the record are. The spare buffer of
  the front end has none of them.
-/
structure InFlight
    (s : AsyncLogging)
    (h : LogRecord) : Prop where
  next : ∀ id ∈ s.nextBuffer, (s.heap id).data = []
  front :
    s.HoldsWhole s.frontBuffers h.swapped h.appended
  back :
    ∃ written : List Bytes,
      s.output = written.flatten ∧
        s.HoldsWhole s.unwritten written h.swapped

variable {s t : AsyncLogging}
variable {h : LogRecord}

/- Steps that touch none of the buffers in flight. -/
theorem InFlight.frame
    (hFlight : s.InFlight h)
    (hNext : t.nextBuffer = s.nextBuffer)
    (hFront : t.frontBuffers = s.frontBuffers)
    (hBack : t.unwritten = s.unwritten)
    (hOutput : t.output = s.output)
    (hSame :
      ∀ id, id ∈ s.nextBuffer ∨ id ∈ s.frontBuffers ∨
          id ∈ s.unwritten →
        (t.heap id).data = (s.heap id).data) :
    t.InFlight h := by
  refine { next := ?_, front := ?_, back := ?_ }
  · intro id hId
    rw [hNext] at hId
    rw [hSame id (.inl hId)]
    exact hFlight.next id hId
  · rw [hFront]
    exact
      hFlight.front.frame fun id hId =>
        hSame id (.inr (.inl hId))
  · rcases hFlight.back with ⟨written, hEq, hHolds⟩
    refine ⟨written, by rw [hOutput, hEq], ?_⟩
    rw [hBack]
    exact
      hHolds.frame fun id hId =>
        hSame id (.inr (.inr hId))

/- A step that only moves the back end along. -/
theorem InFlight.setPos
    (hFlight : s.InFlight h)
    (pos : ThreadPos)
    (hBack :
      ({ s with pos := pos } : AsyncLogging).unwritten =
        s.unwritten) :
    ({ s with pos := pos } : AsyncLogging).InFlight h :=
  hFlight.frame rfl rfl hBack rfl fun _ _ => rfl

theorem mem_unwritten
    {id : BufferId}
    (hId : id ∈ s.unwritten) :
    id ∈ s.buffersToWrite := by
  unfold unwritten at hId
  split at hId
  · exact hId
  · exact List.mem_of_mem_drop hId
  · exact absurd hId List.not_mem_nil

/- The buffers that a run still needs are all held. -/
theorem mem_reachable
    {id : BufferId}
    (hId :
      id ∈ s.nextBuffer ∨ id ∈ s.frontBuffers ∨
        id ∈ s.unwritten) :
    id ∈ s.reachable := by
  unfold reachable
  rcases hId with hId | hId | hId
  · simp [Option.mem_def.mp hId]
  · rcases List.mem_append.mp hId with hId | hId
    · simp [hId]
    · exact List.mem_append_left _ hId
  · simp [mem_unwritten hId]

/- A fresh buffer is none of them. -/
theorem Once.ne_of_fresh
    (hOnce : s.Once)
    {id x : Nat}
    (hFresh : s.nextId ≤ id)
    (hHeld : x ∈ s.reachable) :
    x ≠ id := by
  rintro rfl
  exact List.count_eq_zero.mp (hOnce.fresh x hFresh) hHeld

/- The current buffer is held by nothing else. -/
theorem Once.ne_current
    (hOnce : s.Once)
    {id x : BufferId}
    (hCurrent : s.currentBuffer = some id)
    (hHeld :
      x ∈ s.nextBuffer ∨ x ∈ s.buffers ∨
        x ∈ s.unwritten) :
    x ≠ id := by
  rintro rfl
  have hNodup : s.reachable.Nodup :=
    List.nodup_iff_count_le_one.mpr hOnce.le_one
  unfold reachable at hNodup
  rw [hCurrent] at hNodup
  have hNot := (List.nodup_cons.mp hNodup).1
  apply hNot
  rcases hHeld with hHeld | hHeld | hHeld
  · simp [Option.mem_def.mp hHeld]
  · simp [hHeld]
  · simp [mem_unwritten hHeld]

/- A collected buffer is not one of the front end's. -/
theorem Once.ne_collected
    (hOnce : s.Once)
    {id x : BufferId}
    (hCollected : id ∈ s.buffersToWrite)
    (hHeld : x ∈ s.nextBuffer ∨ x ∈ s.frontBuffers) :
    x ≠ id := by
  rintro rfl
  have hOne := hOnce.le_one x
  have hBack := List.count_pos_iff.mpr hCollected
  rw [holders_eq] at hOne
  rcases hHeld with hHeld | hHeld
  · rw [Option.mem_def.mp hHeld] at hOne
    simp only [Option.toList_some,
      List.count_singleton_self] at hOne
    omega
  · have hFront := List.count_pos_iff.mpr hHeld
    unfold frontBuffers at hFront
    rw [List.count_append] at hFront
    omega

end AsyncLogging

end V3

end WebServer

------------------------------------------------------------
-- Front-End Steps
------------------------------------------------------------

namespace WebServer

namespace V3

namespace AsyncLogging

variable {s : AsyncLogging}
variable {h : LogRecord}

/- A message that fits goes behind the current buffer. -/
theorem InFlight.appendCurrent
    (hOwned : s.Owned)
    (hFlight : s.InFlight h)
    {id : BufferId}
    {logline : Bytes}
    (hCurrent : s.currentBuffer = some id)
    (hLen : logline.length < 2 ^ 31)
    (hRoom :
      (logline.length : Int) < (s.heap id).avail) :
    ∃ t,
      s.appendCurrent logline = some t ∧
        t.InFlight
          { h with appended := h.appended ++ [logline] } := by
  rcases (s.heap id).append_of_room hLen hRoom with
    ⟨b, hAppend, hData⟩
  refine
    ⟨s.setBuffer id b,
      by simp [AsyncLogging.appendCurrent, hCurrent,
        hAppend], ?_⟩
  have hOther :
      ∀ x,
        x ∈ s.nextBuffer ∨ x ∈ s.buffers ∨
            x ∈ s.unwritten →
          ((s.setBuffer id b).heap x).data =
            (s.heap x).data := by
    intro x hHeld
    have hNe := hOwned.once.ne_current hCurrent hHeld
    simp [setBuffer, hNe]
  have hFront := hFlight.front
  unfold frontBuffers at hFront
  rw [hCurrent] at hFront
  refine { next := ?_, front := ?_, back := ?_ }
  · intro x hNext
    rw [hOther x (.inl hNext)]
    exact hFlight.next x hNext
  · have hLast :=
      hFront.appendLast
        (fun x hHeld => hOther x (.inr (.inl hHeld)))
        (show
          ((s.setBuffer id b).heap id).data =
            (s.heap id).data ++ logline by
          simp [setBuffer, hData])
    simpa [frontBuffers, setBuffer, hCurrent] using hLast
  · rcases hFlight.back with ⟨written, hEq, hHolds⟩
    exact
      ⟨written, hEq,
        hHolds.frame fun x hHeld =>
          hOther x (.inr (.inr hHeld))⟩

/- The new current buffer is empty. -/
theorem InFlight.renewCurrent
    (hOwned : s.Owned)
    (hFlight : s.InFlight h)
    {id : BufferId}
    (hCurrent : s.currentBuffer = some id)
    {t : AsyncLogging}
    (hRenew :
      ({ s with
          buffers := s.buffers ++ [id]
          currentBuffer := none } :
        AsyncLogging).renewCurrent = t) :
    t.InFlight h ∧
      ∃ id',
        t.currentBuffer = some id' ∧
          (t.heap id').data = [] := by
  have hFront := hFlight.front
  unfold frontBuffers at hFront
  rw [hCurrent] at hFront
  unfold AsyncLogging.renewCurrent at hRenew
  cases hNext : s.nextBuffer with
  | some next =>
      simp only [hNext] at hRenew
      subst hRenew
      have hEmpty := hFlight.next next hNext
      refine ⟨?_, next, rfl, hEmpty⟩
      exact
        { next := by simp
          front := hFront.snoc hEmpty
          back := hFlight.back }
  | none =>
      simp only [hNext] at hRenew
      subst hRenew
      have hOther :
          ∀ x ∈ s.reachable,
            ((s.setBuffer s.nextId FixedBuffer.empty).heap
                x).data =
              (s.heap x).data := by
        intro x hHeld
        have hNe :=
          hOwned.once.ne_of_fresh (Nat.le_refl s.nextId)
            hHeld
        simp [setBuffer, hNe]
      have hEmpty :
          ((s.setBuffer s.nextId FixedBuffer.empty).heap
              s.nextId).data = [] := by
        simp [setBuffer, FixedBuffer.empty]
      refine ⟨?_, s.nextId, rfl, hEmpty⟩
      refine { next := ?_, front := ?_, back := ?_ }
      · intro x hNone
        exact absurd hNone (by simp [setBuffer])
      · have hSame :=
          hFront.frame fun x hHeld =>
            hOther x
              (mem_reachable
                (.inr (.inl (by
                  simpa [frontBuffers, hCurrent] using
                    hHeld))))
        exact hSame.snoc hEmpty
      · rcases hFlight.back with ⟨written, hEq, hHolds⟩
        exact
          ⟨written, hEq,
            hHolds.frame fun x hHeld =>
              hOther x (mem_reachable (.inr (.inr hHeld)))⟩

/-
  `append` keeps the message whole: a fresh buffer has room
  for each message shorter than it.
-/
theorem InFlight.append
    (hOwned : s.Owned)
    (hFlight : s.InFlight h)
    {logline : Bytes}
    (hLen : logline.length < kLargeBuffer) :
    ∃ t,
      s.append logline = some t ∧
        t.InFlight
          { h with appended := h.appended ++ [logline] } := by
  have hInt : logline.length < 2 ^ 31 := by
    unfold kLargeBuffer at hLen
    omega
  rcases Option.isSome_iff_exists.mp hOwned.current with
    ⟨id, hCurrent⟩
  by_cases hRoom :
      (logline.length : Int) < (s.heap id).avail
  · simpa [AsyncLogging.append, hCurrent, hRoom] using
      hFlight.appendCurrent hOwned hCurrent hInt hRoom
  · have hRenewed := hOwned.renewCurrent hCurrent
    rcases hFlight.renewCurrent hOwned hCurrent rfl with
      ⟨hMoved, id', hNew, hEmpty⟩
    have hFits :=
      hMoved.appendCurrent hRenewed hNew hInt (by
        unfold FixedBuffer.avail
        rw [hEmpty, List.length_nil]
        omega)
    simpa [AsyncLogging.append, hCurrent, hRoom] using
      hFits

end AsyncLogging

end V3

end WebServer

------------------------------------------------------------
-- Back-End Steps
------------------------------------------------------------

namespace WebServer

namespace V3

namespace AsyncLogging

variable {s t : AsyncLogging}
variable {h : LogRecord}

/- Nothing collected is left to write. -/
theorem InFlight.output_eq
    (hFlight : s.InFlight h)
    (hNone : s.unwritten = []) :
    s.output = h.swapped.flatten := by
  rcases hFlight.back with ⟨written, hEq, hHolds⟩
  rw [hNone] at hHolds
  rw [hEq, hHolds.eq_of_nil]

/-
  The swap hands all messages appended so far to the back
  end, and the front end goes on with an empty buffer.
-/
theorem InFlight.collect
    (hOwned : s.Owned)
    (hFlight : s.InFlight h)
    (hSpare : s.newBuffer1.isSome)
    (hNone : s.unwritten = [])
    (hWrite : s.buffersToWrite = [])
    (hCollect : s.collect = some t) :
    t.InFlight { h with swapped := h.appended } := by
  rcases Option.isSome_iff_exists.mp hOwned.current with
    ⟨id, hCurrent⟩
  rcases Option.isSome_iff_exists.mp hSpare with
    ⟨id₁, hFirst⟩
  have hEmpty := hOwned.spares id₁ (.inl hFirst)
  have hBack : s.HoldsWhole (s.buffers ++ [id])
      h.swapped h.appended := by
    simpa [frontBuffers, hCurrent] using hFlight.front
  have hFront :
      s.HoldsWhole (s.buffersToWrite ++ s.newBuffer1.toList)
        h.appended h.appended := by
    rw [hWrite, hFirst]
    exact (HoldsWhole.nil s h.appended).snoc hEmpty
  have hOutput := hFlight.output_eq hNone
  cases hNext : s.nextBuffer with
  | some next =>
      simp only [AsyncLogging.collect, hCurrent, hNext,
        Option.bind_eq_bind, Option.bind_some,
        Option.some.injEq] at hCollect
      subst hCollect
      exact
        { next := fun x hSpare =>
            hFlight.next x (hNext.trans hSpare)
          front := hFront
          back := ⟨h.swapped, hOutput, hBack⟩ }
  | none =>
      simp only [AsyncLogging.collect, hCurrent, hNext,
        Option.bind_eq_bind, Option.bind_some,
        Option.some.injEq] at hCollect
      subst hCollect
      exact
        { next := fun x hSecond =>
            hOwned.spares x (.inr hSecond)
          front := hFront
          back := ⟨h.swapped, hOutput, hBack⟩ }

/- A written buffer taken back is nobody else's. -/
theorem InFlight.takeBack
    (hOwned : s.Owned)
    (hFlight : s.InFlight h)
    (hNone : s.unwritten = [])
    {id : BufferId}
    (hWritten : id ∈ s.buffersToWrite)
    (hNext : t.nextBuffer = s.nextBuffer)
    (hFront : t.frontBuffers = s.frontBuffers)
    (hBack : t.unwritten = [])
    (hOutput : t.output = s.output)
    (hHeap :
      t.heap = (s.setBuffer id FixedBuffer.empty).heap) :
    t.InFlight h := by
  refine
    hFlight.frame hNext hFront (by rw [hBack, hNone])
      hOutput ?_
  intro x hHeld
  have hNe : x ≠ id := by
    rcases hHeld with hHeld | hHeld | hHeld
    · exact hOwned.once.ne_collected hWritten (.inl hHeld)
    · exact hOwned.once.ne_collected hWritten (.inr hHeld)
    · rw [hNone] at hHeld
      exact absurd hHeld List.not_mem_nil
  rw [hHeap]
  simp [setBuffer, hNe]

end AsyncLogging

end V3

end WebServer

------------------------------------------------------------
-- One Piece Of The Back End
------------------------------------------------------------

namespace WebServer

namespace V3

namespace AsyncLogging

variable {s t : AsyncLogging}
variable {h : LogRecord}

/- Without a swap the record of a thread step stays. -/
theorem note_thread_of_not_swaps
    (h : LogRecord)
    (hNot : s.swaps = false) :
    s.note .thread h = h := by
  simp [note, hNot]

theorem note_thread_of_swaps
    (h : LogRecord)
    (hSwaps : s.swaps = true) :
    s.note .thread h =
      { h with swapped := h.appended } := by
  simp [note, hSwaps]

/- A refill takes back a buffer already written. -/
theorem InFlight.refill
    (hOwned : s.Owned)
    (hFlight : s.InFlight h)
    (hPos : s.pos = .refilling1 ∨ s.pos = .refilling2)
    (hStep : s.threadFunc = some t) :
    t.InFlight h := by
  have hNone : s.unwritten = [] := by
    rcases hPos with hPos | hPos <;> simp [unwritten, hPos]
  rcases hPos with hPos | hPos
  · cases hFirst : s.newBuffer1 with
    | some id =>
        simp only [AsyncLogging.threadFunc, hPos, hFirst,
          Option.some.injEq] at hStep
        subst hStep
        exact
          hFlight.frame rfl rfl hNone.symm rfl
            fun _ _ => rfl
    | none =>
        simp only [AsyncLogging.threadFunc, hPos, hFirst,
          AsyncLogging.takeBack, Option.bind_eq_bind,
          Option.bind_eq_some_iff, Option.some.injEq]
          at hStep
        rcases hStep with ⟨_, ⟨id, hLast, rfl⟩, rfl⟩
        have hWritten := List.mem_of_getLast? hLast
        exact
          hFlight.takeBack hOwned hNone hWritten rfl rfl rfl
            rfl rfl
  · cases hSecond : s.newBuffer2 with
    | some id =>
        simp only [AsyncLogging.threadFunc, hPos, hSecond,
          Option.some.injEq] at hStep
        subst hStep
        exact
          hFlight.frame rfl rfl hNone.symm rfl
            fun _ _ => rfl
    | none =>
        simp only [AsyncLogging.threadFunc, hPos, hSecond,
          AsyncLogging.takeBack, Option.bind_eq_bind,
          Option.bind_eq_some_iff, Option.some.injEq]
          at hStep
        rcases hStep with ⟨_, ⟨id, hLast, rfl⟩, rfl⟩
        have hWritten := List.mem_of_getLast? hLast
        exact
          hFlight.takeBack hOwned hNone hWritten rfl rfl rfl
            rfl rfl

/- Writing one buffer moves its messages to the file. -/
theorem InFlight.write
    (hFlight : s.InFlight h)
    {i : Nat}
    (hPos : s.pos = .writing i)
    (hStep : s.threadFunc = some t) :
    t.InFlight h := by
  have hLeft : s.unwritten = s.buffersToWrite.drop i := by
    simp [unwritten, hPos]
  cases hNext : s.buffersToWrite[i]? with
  | none =>
      simp only [AsyncLogging.threadFunc, hPos, hNext,
        Option.some.injEq] at hStep
      subst hStep
      have hEnd := List.getElem?_eq_none_iff.mp hNext
      apply hFlight.setPos
      rw [hLeft, List.drop_eq_nil_of_le hEnd]
      rfl
  | some id =>
      simp only [AsyncLogging.threadFunc, hPos, hNext,
        Option.some.injEq] at hStep
      subst hStep
      rcases List.getElem?_eq_some_iff.mp hNext with
        ⟨hLt, hGet⟩
      rcases hFlight.back with ⟨written, hEq, hHolds⟩
      rw [hLeft, List.drop_eq_getElem_cons hLt, hGet]
        at hHolds
      rcases hHolds.writeFirst with ⟨group, hData, hRest⟩
      refine
        { next := hFlight.next
          front := hFlight.front
          back := ⟨written ++ group, ?_, hRest⟩ }
      rw [List.flatten_append, ← hEq, ← hData]

/-
  Each piece of `threadFunc` keeps the messages in flight;
  the swaps are those that the record notes.
-/
theorem InFlight.threadFunc
    (hOwned : s.Owned)
    (hFlight : s.InFlight h)
    (hLimit :
      s.pos = .collected → s.buffersToWrite.length ≤ 25)
    (hStep : s.threadFunc = some t) :
    t.InFlight (s.note .thread h) := by
  have hPosOk := hOwned.posOk
  unfold PosOk at hPosOk
  cases hPos : s.pos with
  | entry =>
      rw [hPos] at hPosOk
      rw [note_thread_of_not_swaps h (by
        simp [swaps, hPos])]
      simp only [AsyncLogging.threadFunc, hPos, hPosOk,
        if_true, Option.some.injEq] at hStep
      subst hStep
      refine
        hFlight.frame rfl rfl (by
          simp [unwritten, hPos, AsyncLogging.prepare]) rfl
          ?_
      intro x hHeld
      have hIn := mem_reachable hHeld
      have hNe₁ :=
        hOwned.once.ne_of_fresh (Nat.le_refl s.nextId) hIn
      have hNe₂ :=
        hOwned.once.ne_of_fresh (Nat.le_succ s.nextId) hIn
      simp [AsyncLogging.prepare, setBuffer, hNe₁, hNe₂]
  | loopHead =>
      rw [note_thread_of_not_swaps h (by
        simp [swaps, hPos])]
      have hNone : s.unwritten = [] := by
        simp [unwritten, hPos]
      simp only [AsyncLogging.threadFunc, hPos] at hStep
      split at hStep
      · split at hStep
        · rcases Option.some.inj hStep with rfl
          exact hFlight.setPos _ hNone.symm
        · cases hStep
      · rcases Option.some.inj hStep with rfl
        exact hFlight.setPos _ hNone.symm
  | beforeLock =>
      rw [hPos] at hPosOk
      have hNone : s.unwritten = [] := by
        simp [unwritten, hPos]
      simp only [AsyncLogging.threadFunc, hPos] at hStep
      split at hStep
      next hEmpty =>
        rw [note_thread_of_not_swaps h (by
          simp [swaps, hPos, hEmpty])]
        rcases Option.some.inj hStep with rfl
        exact hFlight.setPos _ hNone.symm
      next hSome =>
        rw [note_thread_of_swaps h (by
          simp [swaps, hPos, hSome])]
        exact
          hFlight.collect hOwned hPosOk.1 hNone hPosOk.2.2
            hStep
  | waiting =>
      rw [hPos] at hPosOk
      rw [note_thread_of_swaps h (by simp [swaps, hPos])]
      simp only [AsyncLogging.threadFunc, hPos] at hStep
      exact
        hFlight.collect hOwned hPosOk.1
          (by simp [unwritten, hPos]) hPosOk.2.2 hStep
  | collected =>
      rw [note_thread_of_not_swaps h (by
        simp [swaps, hPos])]
      have hFew := hLimit hPos
      simp only [AsyncLogging.threadFunc, hPos] at hStep
      split at hStep
      · cases hStep
      · rw [if_neg (by omega)] at hStep
        rcases Option.some.inj hStep with rfl
        apply hFlight.setPos
        simp [unwritten, hPos]
  | writing i =>
      rw [note_thread_of_not_swaps h (by
        simp [swaps, hPos])]
      exact hFlight.write hPos hStep
  | resizing =>
      rw [note_thread_of_not_swaps h (by
        simp [swaps, hPos])]
      have hNone : s.unwritten = [] := by
        simp [unwritten, hPos]
      simp only [AsyncLogging.threadFunc, hPos] at hStep
      split at hStep
      · rcases Option.some.inj hStep with rfl
        exact
          hFlight.frame rfl rfl hNone.symm rfl
            fun _ _ => rfl
      · rcases Option.some.inj hStep with rfl
        exact hFlight.setPos _ hNone.symm
  | refilling1 =>
      rw [note_thread_of_not_swaps h (by
        simp [swaps, hPos])]
      exact hFlight.refill hOwned (.inl hPos) hStep
  | refilling2 =>
      rw [note_thread_of_not_swaps h (by
        simp [swaps, hPos])]
      exact hFlight.refill hOwned (.inr hPos) hStep
  | clearing =>
      rw [note_thread_of_not_swaps h (by
        simp [swaps, hPos])]
      simp only [AsyncLogging.threadFunc, hPos,
        Option.some.injEq] at hStep
      subst hStep
      exact
        hFlight.frame rfl rfl
          (by simp [unwritten, hPos]) rfl fun _ _ => rfl
  | finished =>
      rw [note_thread_of_not_swaps h (by
        simp [swaps, hPos])]
      simp only [AsyncLogging.threadFunc, hPos,
        Option.some.injEq] at hStep
      subst hStep
      exact hFlight

end AsyncLogging

end V3

end WebServer

------------------------------------------------------------
-- All Interleavings
------------------------------------------------------------

namespace WebServer

namespace V3

/- The ownership of the buffers and what they hold. -/
structure Messages
    (r : AsyncLogging × LogRecord) : Prop where
  owned : r.1.Owned
  inFlight : r.1.InFlight r.2

theorem Messages.keepsMessages
    {r : AsyncLogging × LogRecord}
    (h : Messages r) :
    KeepsMessages r := by
  refine ⟨?_, h.inFlight.front, h.inFlight.back⟩
  intro hPos
  apply h.inFlight.output_eq
  rcases hPos with hPos | hPos <;>
    simp [AsyncLogging.unwritten, hPos]

theorem loggingStart_messages :
    Messages loggingStart where
  owned := AsyncLogging.init_owned
  inFlight :=
    { next := fun _ _ => rfl
      front := ⟨[[]], rfl, rfl⟩
      back := ⟨[], rfl, .nil _ _⟩ }

/- A step within the limits keeps every message. -/
theorem Messages.step
    (r : AsyncLogging × LogRecord)
    (e : LogEvent)
    (h : Messages r)
    (hEnabled : recordedLogging.enabled r e)
    (hLimits : LogsWithinLimits r e) :
    ∃ t, recordedLogging.step r e = some t ∧
      Messages t := by
  rcases r with ⟨s, record⟩
  rcases AsyncLogging.step_owned s e h.owned hEnabled with
    ⟨t, hStep, hOwned⟩
  refine
    ⟨(t, s.note e record),
      Machine.recording_step_some hStep, hOwned, ?_⟩
  change t.InFlight (s.note e record)
  cases e with
  | append logline =>
      rcases h.inFlight.append h.owned hLimits with
        ⟨u, hAppend, hFlight⟩
      have hSame :=
        Option.some.inj (hStep.symm.trans hAppend)
      rw [hSame]
      exact hFlight
  | stop =>
      rcases Option.some.inj hStep with rfl
      exact
        h.inFlight.frame rfl rfl rfl rfl fun _ _ => rfl
  | thread => exact h.inFlight.threadFunc h.owned hLimits hStep

/-
  Over every interleaving of `append` calls, each message
  shorter than a buffer, with iterations of the back end of
  at most 25 buffers each, the file has after an iteration
  exactly the messages appended before its swap, whole and
  in the order of the calls.
-/
theorem messages_whole_in_order
    (es : List LogEvent)
    (hLimits :
      recordedLogging.StepsMeet LogsWithinLimits
        loggingStart es) :
    recordedLogging.Throughout KeepsMessages
      loggingStart es :=
  (Machine.throughout_of_stepsMeet Messages.step
      loggingStart_messages hLimits).mono
    fun _ h => h.keepsMessages

/- One iteration, with messages before and after its swap. -/
def oneIteration : List LogEvent :=
  [.thread, .append [1], .thread, .thread, .append [2, 3],
    .thread, .append [4], .thread, .thread, .thread,
    .thread, .thread, .thread, .thread]

/- The file has the messages before the swap of that run. -/
theorem messages_whole_in_one_iteration :
    (∃ r,
        recordedLogging.Reaches loggingStart oneIteration
            r ∧
          r.1.pos = .loopHead ∧ r.1.output = [1, 2, 3]) ∧
      recordedLogging.Throughout KeepsMessages
        loggingStart oneIteration := by
  refine ⟨?_, messages_whole_in_order _ (by decide +kernel)⟩
  have hRun :
      (recordedLogging.exec loggingStart
          oneIteration).map
          (fun r => (r.1.pos, r.1.output)) =
        some (.loopHead, [1, 2, 3]) := by
    decide +kernel
  rcases Machine.reaches_of_exec_map hRun with
    ⟨r, hReach, hEnd⟩
  exact
    ⟨r, hReach, (Prod.mk.inj hEnd).1,
      (Prod.mk.inj hEnd).2⟩

end V3

end WebServer
