import WebServer.V3.Base.MessageOrder

/-
  What the asynchronous logger writes before `stop()`
  returns.

  The back end tests `running_` only at the head of its loop
  and writes what it swapped. A `stop()` that comes before a
  swap of the current iteration is followed by that swap and
  by no other, so the messages appended so far are written
  exactly when a swap is still to come or the front end's
  buffers hold no byte.

  Key definitions include:
    * `AsyncLogging.DrainsAtStop`
    * `AsyncLogging.remaining`

  Key theorems include:
    * `stop_returns`
    * `stop_drains_iff`
    * `stop_loses_the_tail`
-/

------------------------------------------------------------
-- After The Last Swap
------------------------------------------------------------

namespace WebServer

namespace V3

namespace AsyncLogging

/-
  The back end has tested `running_` and not swapped yet, or
  the front end has nothing to hand over.
-/
def DrainsAtStop
    (s : AsyncLogging) : Prop :=
  s.pos = .beforeLock ∨ s.pos = .waiting ∨
    ∀ id ∈ s.frontBuffers, (s.heap id).data = []

/- The thread started, and no swap is to come. -/
def PastSwap
    (s : AsyncLogging) : Prop :=
  s.pos ≠ .entry ∧ s.pos ≠ .beforeLock ∧ s.pos ≠ .waiting

variable {s t : AsyncLogging}

/- `append` moves neither `running_` nor the back end. -/
theorem append_frame
    {logline : Bytes}
    (hAppend : s.append logline = some t) :
    t.running = s.running ∧ t.pos = s.pos := by
  have hCurrent :
      ∀ u : AsyncLogging,
        u.appendCurrent logline = some t →
          t.running = u.running ∧ t.pos = u.pos := by
    intro u hWrite
    simp only [appendCurrent, Option.bind_eq_bind,
      Option.bind_eq_some_iff, Option.some.injEq] at hWrite
    rcases hWrite with ⟨id, _, b, _, rfl⟩
    exact ⟨rfl, rfl⟩
  simp only [append, Option.bind_eq_bind,
    Option.bind_eq_some_iff] at hAppend
  rcases hAppend with ⟨id, _, hAppend⟩
  split at hAppend
  · exact hCurrent s hAppend
  · rcases hCurrent _ hAppend with ⟨hRunning, hPos⟩
    rw [hRunning, hPos]
    unfold renewCurrent
    split <;> exact ⟨rfl, rfl⟩

/- The swap ends the wait and leaves `running_` alone. -/
theorem collect_frame
    (hCollect : s.collect = some t) :
    t.running = s.running ∧ t.pos = .collected ∧
      t.buffersToWrite.length = s.buffers.length + 1 := by
  simp only [collect, Option.bind_eq_bind,
    Option.bind_eq_some_iff] at hCollect
  rcases hCollect with ⟨id, _, hCollect⟩
  split at hCollect
  · rcases Option.some.inj hCollect with rfl
    exact ⟨rfl, rfl, by simp⟩
  · rcases Option.some.inj hCollect with rfl
    exact ⟨rfl, rfl, by simp⟩

/-
  How many pieces of `threadFunc` are left once `running_`
  is false.
-/
def remaining
    (s : AsyncLogging) : Nat :=
  match s.pos with
  | .entry => 0
  | .finished => 0
  | .loopHead => 1
  | .clearing => 2
  | .refilling2 => 3
  | .refilling1 => 4
  | .resizing => 5
  | .writing i => 6 + (s.buffersToWrite.length - i)
  | .collected => 7 + s.buffersToWrite.length
  | .waiting => 9 + s.buffers.length
  | .beforeLock => 10 + s.buffers.length

/-
  Each piece of `threadFunc` without `running_` is one of
  the pieces left, and none of them leads back to a swap.
-/
theorem threadFunc_stopped
    (hStopped : s.running = false)
    (hEntry : s.pos ≠ .entry)
    (hNotDone : s.pos ≠ .finished)
    (hStep : s.threadFunc = some t) :
    t.running = false ∧ t.pos ≠ .entry ∧
      t.remaining < s.remaining ∧
      (s.PastSwap → t.PastSwap) := by
  unfold threadFunc at hStep
  cases hPos : s.pos with
  | entry => exact absurd hPos hEntry
  | finished => exact absurd hPos hNotDone
  | loopHead =>
      simp only [hPos, hStopped, Bool.false_eq_true,
        if_false, Option.some.injEq] at hStep
      subst hStep
      simp [remaining, hPos, PastSwap]
  | beforeLock =>
      simp only [hPos] at hStep
      split at hStep
      · rcases Option.some.inj hStep with rfl
        simp [remaining, hPos, hStopped, PastSwap]
      · rcases collect_frame hStep with
          ⟨hRunning, hNext, hLength⟩
        simp [remaining, hPos, hNext, hRunning, hStopped,
          hLength, PastSwap]
        omega
  | waiting =>
      simp only [hPos] at hStep
      rcases collect_frame hStep with
        ⟨hRunning, hNext, hLength⟩
      simp [remaining, hPos, hNext, hRunning, hStopped,
        hLength, PastSwap]
      omega
  | collected =>
      simp only [hPos] at hStep
      split at hStep
      · cases hStep
      · split at hStep
        · rcases Option.some.inj hStep with rfl
          simp [remaining, hPos, hStopped, PastSwap]
          omega
        · rcases Option.some.inj hStep with rfl
          simp [remaining, hPos, hStopped, PastSwap]
  | writing i =>
      simp only [hPos] at hStep
      split at hStep
      · rcases Option.some.inj hStep with rfl
        simp [remaining, hPos, hStopped, PastSwap]
        omega
      next id hGet =>
        have hLt := (List.getElem?_eq_some_iff.mp hGet).1
        rcases Option.some.inj hStep with rfl
        simp [remaining, hPos, hStopped, PastSwap]
        omega
  | resizing =>
      simp only [hPos] at hStep
      split at hStep <;>
        rcases Option.some.inj hStep with rfl <;>
          simp [remaining, hPos, hStopped, PastSwap]
  | refilling1 =>
      simp only [hPos] at hStep
      split at hStep
      · rcases Option.some.inj hStep with rfl
        simp [remaining, hPos, hStopped, PastSwap]
      · simp only [takeBack, Option.bind_eq_bind,
          Option.bind_eq_some_iff, Option.some.injEq]
          at hStep
        rcases hStep with ⟨_, ⟨id, hLast, rfl⟩, rfl⟩
        simp [remaining, hPos, hStopped, PastSwap,
          setBuffer]
  | refilling2 =>
      simp only [hPos] at hStep
      split at hStep
      · rcases Option.some.inj hStep with rfl
        simp [remaining, hPos, hStopped, PastSwap]
      · simp only [takeBack, Option.bind_eq_bind,
          Option.bind_eq_some_iff, Option.some.injEq]
          at hStep
        rcases hStep with ⟨_, ⟨id, hLast, rfl⟩, rfl⟩
        simp [remaining, hPos, hStopped, PastSwap,
          setBuffer]
  | clearing =>
      simp only [hPos, Option.some.injEq] at hStep
      subst hStep
      simp [remaining, hPos, hStopped, PastSwap]

end AsyncLogging

end V3

end WebServer

------------------------------------------------------------
-- Returning From Stop
------------------------------------------------------------

namespace WebServer

namespace V3

/- The thread runs on alone until it returns. -/
theorem returns_of_stopped
    (r : AsyncLogging × LogRecord)
    (hOwned : r.1.Owned)
    (hStopped : r.1.running = false)
    (hEntry : r.1.pos ≠ .entry) :
    ∃ n r',
      recordedLogging.Reaches r
          (List.replicate n .thread) r' ∧
        r'.1.pos = .finished := by
  -- on the pieces that are left
  induction hLeft : r.1.remaining using Nat.strongRecOn
    generalizing r with
  | ind left ih =>
      by_cases hDone : r.1.pos = .finished
      · exact ⟨0, r, .nil r, hDone⟩
      · rcases hOwned.threadFunc with ⟨t, hStep, hNext⟩
        rcases AsyncLogging.threadFunc_stopped hStopped
          hEntry hDone hStep with
            ⟨hRunning, hPos, hLess, _⟩
        rcases ih t.remaining (by omega)
          (t, r.1.note .thread r.2) hNext hRunning hPos
            rfl with
              ⟨n, r', hReach, hEnd⟩
        refine ⟨n + 1, r', ?_, hEnd⟩
        rw [List.replicate_succ]
        exact
          .cons hDone (Machine.recording_step_some hStep)
            hReach

/- Every reachable state keeps the ownership. -/
theorem reaches_owned
    {es : List LogEvent}
    {r r' : AsyncLogging × LogRecord}
    (hOwned : r.1.Owned)
    (hReach : recordedLogging.Reaches r es r') :
    r'.1.Owned :=
  (Machine.throughout_of_preserved
      AsyncLogging.step_owned hOwned es).reached
    hReach.of_recording

/- Whenever `stop()` is called, the thread can return. -/
theorem stop_returns
    {es : List LogEvent}
    {r : AsyncLogging × LogRecord}
    (hRun : recordedLogging.Reaches loggingStart es r)
    (hStarted : r.1.pos ≠ .entry) :
    ∃ n r',
      recordedLogging.Reaches r
          (.stop :: List.replicate n .thread) r' ∧
        r'.1.pos = .finished := by
  have hOwned :=
    reaches_owned (r := loggingStart)
      AsyncLogging.init_owned hRun
  have hStop :
      recordedLogging.step r .stop =
        some (r.1.stop, r.2) :=
    rfl
  have hAfter :
      recordedLogging.Reaches r [.stop]
        (r.1.stop, r.2) :=
    .cons hStarted hStop (.nil _)
  rcases returns_of_stopped (r.1.stop, r.2)
    (reaches_owned hOwned hAfter) rfl hStarted with
      ⟨n, r', hReach, hEnd⟩
  exact ⟨n, r', .cons hStarted hStop hReach, hEnd⟩

end V3

end WebServer

------------------------------------------------------------
-- The Last Swap
------------------------------------------------------------

namespace WebServer

namespace V3

namespace AsyncLogging

variable {s t : AsyncLogging}

/- Past the swap no swap is next. -/
theorem PastSwap.not_swaps
    (hPast : s.PastSwap) :
    s.swaps = false := by
  rcases hPast with ⟨_, hLock, hWait⟩
  simp [swaps, hLock, hWait]

/- What leads past the swap is the swap. -/
theorem swaps_of_pastSwap
    (hEntry : s.pos ≠ .entry)
    (hBefore : ¬ s.PastSwap)
    (hStep : s.threadFunc = some t)
    (hPast : t.PastSwap) :
    s.swaps = true := by
  have hPos : s.pos = .beforeLock ∨ s.pos = .waiting := by
    by_contra hNot
    push Not at hNot
    exact hBefore ⟨hEntry, hNot.1, hNot.2⟩
  rcases hPos with hPos | hPos
  · simp only [threadFunc, hPos] at hStep
    split at hStep
    next hEmpty =>
      rcases Option.some.inj hStep with rfl
      exact absurd rfl hPast.2.2
    next hSome => simp [swaps, hPos, hSome]
  · simp [swaps, hPos]

/-
  All messages are among those done exactly when the buffers
  hold no byte.
-/
theorem HoldsWhole.flatten_front_iff
    {ids : List BufferId}
    {done all : List Bytes}
    (h : s.HoldsWhole ids done all) :
    all.flatten <+: done.flatten ↔
      ∀ id ∈ ids, (s.heap id).data = [] := by
  rcases h with ⟨groups, hContents, hAll⟩
  have hBytes :
      all.flatten =
        done.flatten ++ (s.contents ids).flatten := by
    rw [← hAll, List.flatten_append, hContents,
      List.flatten_flatten]
  have hEmpty :
      (s.contents ids).flatten = [] ↔
        ∀ id ∈ ids, (s.heap id).data = [] := by
    simp [contents, List.flatten_eq_nil_iff]
  rw [← hEmpty, hBytes]
  constructor
  · intro hFront
    have hLength := hFront.length_le
    rw [List.length_append] at hLength
    apply List.eq_nil_of_length_eq_zero
    omega
  · intro hNone
    simp only [hNone, List.append_nil, List.prefix_refl]

end AsyncLogging

/-
  After `stop()` in the state `r₀`: past the swap there is
  no other, and before it the messages appended so far are
  in the one to come.
-/
structure AfterStop
    (r₀ r : AsyncLogging × LogRecord) : Prop where
  messages : Messages r
  stopped : r.1.running = false
  started : r.1.pos ≠ .entry
  kept : r₀.2.appended <+: r.2.appended
  past :
    r₀.1.PastSwap →
      r.1.PastSwap ∧ r.2.swapped = r₀.2.swapped
  toCome :
    ¬ r₀.1.PastSwap → r.1.PastSwap →
      r₀.2.appended <+: r.2.swapped

/- Every step after `stop()` keeps that. -/
theorem AfterStop.step
    {r₀ : AsyncLogging × LogRecord}
    (r : AsyncLogging × LogRecord)
    (e : LogEvent)
    (h : AfterStop r₀ r)
    (hEnabled : recordedLogging.enabled r e)
    (hLimits : LogsWithinLimits r e) :
    ∃ t, recordedLogging.step r e = some t ∧
      AfterStop r₀ t := by
  rcases h.messages.step r e hEnabled hLimits with
    ⟨t, hStep, hMessages⟩
  refine ⟨t, hStep, ?_⟩
  rcases Option.map_eq_some_iff.mp hStep with
    ⟨u, hNext, rfl⟩
  cases e with
  | append logline =>
      rcases AsyncLogging.append_frame hNext with
        ⟨hRunning, hPos⟩
      have hSame : u.PastSwap ↔ r.1.PastSwap := by
        simp only [AsyncLogging.PastSwap, hPos]
      exact
        { messages := hMessages
          stopped := hRunning.trans h.stopped
          started := fun hAt => h.started (hPos.symm.trans hAt)
          kept := h.kept.trans (List.prefix_append _ _)
          past := fun hPast =>
            ⟨hSame.mpr (h.past hPast).1, (h.past hPast).2⟩
          toCome := fun hBefore hPast =>
            h.toCome hBefore (hSame.mp hPast) }
  | stop =>
      rcases Option.some.inj hNext with rfl
      exact
        { messages := hMessages
          stopped := rfl
          started := h.started
          kept := h.kept
          past := h.past
          toCome := h.toCome }
  | thread =>
      rcases AsyncLogging.threadFunc_stopped h.stopped
        h.started hEnabled hNext with
          ⟨hRunning, hPos, _, hStays⟩
      refine
        { messages := hMessages
          stopped := hRunning
          started := hPos
          kept := ?_
          past := ?_
          toCome := ?_ }
      · simp only [AsyncLogging.note]
        split <;> exact h.kept
      · intro hPast
        have hOld := h.past hPast
        refine ⟨hStays hOld.1, ?_⟩
        rw [AsyncLogging.note_thread_of_not_swaps r.2
          hOld.1.not_swaps]
        exact hOld.2
      · intro hBefore hPast
        by_cases hOld : r.1.PastSwap
        · rw [AsyncLogging.note_thread_of_not_swaps r.2
            hOld.not_swaps]
          exact h.toCome hBefore hOld
        · rw [AsyncLogging.note_thread_of_swaps r.2
            (AsyncLogging.swaps_of_pastSwap h.started hOld
              hNext hPast)]
          exact h.kept

/- `stop()` itself. -/
theorem AfterStop.of_stop
    {r : AsyncLogging × LogRecord}
    (h : Messages r)
    (hStarted : r.1.pos ≠ .entry) :
    AfterStop r (r.1.stop, r.2) := by
  rcases h.step r .stop hStarted trivial with
    ⟨t, hStep, hMessages⟩
  rcases Option.some.inj hStep with rfl
  exact
    { messages := hMessages
      stopped := rfl
      started := hStarted
      kept := List.prefix_refl _
      past := fun hPast => ⟨hPast, rfl⟩
      toCome := fun hBefore hPast =>
        absurd hPast hBefore }

/- Where the thread has returned, the last swap decides. -/
theorem AfterStop.drains_iff
    {r r' : AsyncLogging × LogRecord}
    (h : Messages r)
    (hStarted : r.1.pos ≠ .entry)
    (hAfter : AfterStop r r')
    (hReturn : r'.1.pos = .finished) :
    r.2.appended.flatten <+: r'.1.output ↔
      r.1.DrainsAtStop := by
  have hPast : r'.1.PastSwap := by
    simp [AsyncLogging.PastSwap, hReturn]
  rw [hAfter.messages.keepsMessages.1 (.inr hReturn)]
  by_cases hBefore : r.1.PastSwap
  · rw [(hAfter.past hBefore).2,
      h.inFlight.front.flatten_front_iff]
    constructor
    · exact fun hNone => .inr (.inr hNone)
    · rintro (hLock | hWait | hNone)
      · exact absurd hLock hBefore.2.1
      · exact absurd hWait hBefore.2.2
      · exact hNone
  · constructor
    · intro _
      by_contra hNot
      unfold AsyncLogging.DrainsAtStop at hNot
      push Not at hNot
      exact hBefore ⟨hStarted, hNot.1, hNot.2.1⟩
    · intro _
      rcases hAfter.toCome hBefore hPast with
        ⟨rest, hSwapped⟩
      rw [← hSwapped, List.flatten_append]
      exact List.prefix_append _ _

/-
  When `stop()` returns, the messages appended before it are
  in the file exactly when the back end still had its swap
  ahead of it or the front end's buffers held no byte.
-/
theorem stop_drains_iff
    {es es' : List LogEvent}
    {r r' : AsyncLogging × LogRecord}
    (hLimits :
      recordedLogging.StepsMeet LogsWithinLimits
        loggingStart (es ++ .stop :: es'))
    (hRun : recordedLogging.Reaches loggingStart es r)
    (hStop : recordedLogging.Reaches r (.stop :: es') r')
    (hReturn : r'.1.pos = .finished) :
    r.2.appended.flatten <+: r'.1.output ↔
      r.1.DrainsAtStop := by
  rcases hLimits.append hRun with ⟨hFront, hBack⟩
  have hMessages :=
    (Machine.throughout_of_stepsMeet Messages.step
      loggingStart_messages hFront).reached hRun
  cases hStop with
  | cons hEnabled hStep hRest =>
      rcases Option.some.inj hStep with rfl
      have hStart := AfterStop.of_stop hMessages hEnabled
      have hAfter :=
        (Machine.throughout_of_stepsMeet AfterStop.step
          hStart ((hBack hEnabled).2 _ rfl)).reached hRest
      exact hAfter.drains_iff hMessages hEnabled hReturn

/- A message before `stop()`, with the swap still to come. -/
def stopWhileWaiting : List LogEvent :=
  [.thread, .thread, .thread, .append [1]]

/- A message between the last swap and `stop()`. -/
def stopAfterSwap : List LogEvent :=
  [.thread, .thread, .thread, .thread, .append [1]]

/- With the swap to come the message is written. -/
theorem stop_drains_while_waiting :
    ∃ r r',
      recordedLogging.Reaches loggingStart
          stopWhileWaiting r ∧
        recordedLogging.Reaches r
            (.stop :: List.replicate 9 .thread) r' ∧
          r'.1.pos = .finished ∧
            (r.2.appended.flatten <+: r'.1.output ↔
              r.1.DrainsAtStop) := by
  have hBoth :
      ((recordedLogging.exec loggingStart
          stopWhileWaiting).bind fun r =>
        (recordedLogging.exec r
          (.stop :: List.replicate 9 .thread)).map
            fun r' => r'.1.pos) =
        some .finished := by
    decide +kernel
  rcases Machine.reaches_of_exec_exec hBoth with
    ⟨r, r', hRun, hStop, hReturn⟩
  exact
    ⟨r, r', hRun, hStop, hReturn,
      stop_drains_iff (by decide +kernel) hRun hStop
        hReturn⟩

/-
  A `stop()` during the writing of the swapped buffers: the
  thread returns and a message appended before is lost.
-/
theorem stop_loses_the_tail :
    ¬ ∀ es es' r r',
      recordedLogging.StepsMeet LogsWithinLimits
          loggingStart (es ++ .stop :: es') →
        recordedLogging.Reaches loggingStart es r →
          recordedLogging.Reaches r (.stop :: es') r' →
            r'.1.pos = .finished →
              r.2.appended.flatten <+: r'.1.output := by
  intro hClaim
  have hBoth :
      ((recordedLogging.exec loggingStart
          stopAfterSwap).bind fun r =>
        (recordedLogging.exec r
          (.stop :: List.replicate 8 .thread)).map
            fun r' =>
              (r'.1.pos, r.2.appended, r'.1.output)) =
        some (.finished, [[1]], []) := by
    decide +kernel
  rcases Machine.reaches_of_exec_exec hBoth with
    ⟨r, r', hRun, hStop, hEnd⟩
  simp only [Prod.mk.injEq] at hEnd
  rcases hEnd with ⟨hReturn, hAppended, hOutput⟩
  have hFront :=
    hClaim stopAfterSwap _ r r' (by decide +kernel) hRun
      hStop hReturn
  rw [hAppended, hOutput] at hFront
  exact absurd hFront (by decide)

end V3

end WebServer
