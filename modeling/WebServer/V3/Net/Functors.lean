import WebServer.V3.Net.LoopThread

/-
  Functors handed to an event loop.

  The record of a run lists the functors in the order in
  which they were queued and those executed. A functor is
  executed, or taken by the loop thread, or pending; and
  where the thread waits while one is pending, the wakeup
  descriptor has an unreported write or a thread is about to
  write to it.

  Key definitions include:
    * `FunctorRecord`
    * `recordedLoop`
    * `FunctorsServed`

  Key theorems include:
    * `Served.step`
    * `functors_run_once_in_order`
-/

------------------------------------------------------------
-- The Record Of A Run
------------------------------------------------------------

namespace WebServer

namespace V3

variable {F : Type}

/- Functors in insertion order, and those executed. -/
structure FunctorRecord (F : Type) where
  inserted : List F
  executed : List F
deriving DecidableEq, Repr

namespace LoopThread

/- The functors taken by the loop thread and not executed. -/
def taken
    (s : LoopThread F) : List F :=
  match s.pos with
  | .functors _ left => left
  | _ => []

/- What a step adds to the record. -/
def note
    (s : LoopThread F) :
    LoopStep F → FunctorRecord F → FunctorRecord F
| .queueInLoop _ cb, h =>
    { h with inserted := h.inserted ++ [cb] }
| .runInLoop isInLoopThread cb, h =>
    if isInLoopThread then
      h
    else
      { h with inserted := h.inserted ++ [cb] }
| .callFunctor, h =>
    { h with executed := h.executed ++ s.taken.take 1 }
| _, h => h

end LoopThread

/- The loop with the record of its functors. -/
def recordedLoop :
    Machine (LoopThread F × FunctorRecord F) (LoopStep F) :=
  loopMachine.recording LoopThread.note

instance
    [DecidableEq F]
    (r : LoopThread F × FunctorRecord F) :
    ∀ e, Decidable (recordedLoop.enabled r e) :=
  fun e => inferInstanceAs (Decidable (r.1.enabled e))

/- A loop just started, with nothing recorded. -/
def loopStart : LoopThread F × FunctorRecord F :=
  (.new, { inserted := [], executed := [] })

/-
  Each functor inserted was executed once and in order, or
  is taken or pending. Blocked with a functor pending, the
  loop has a wakeup to come.
-/
def FunctorsServed
    (r : LoopThread F × FunctorRecord F) : Prop :=
  r.2.inserted =
      r.2.executed ++ (r.1.taken ++ r.1.pendingFunctors) ∧
    (r.1.pos = .waiting → r.1.pendingFunctors ≠ [] →
      r.1.wakes = true ∨ 0 < r.1.owing)

end V3

end WebServer

------------------------------------------------------------
-- The Invariant
------------------------------------------------------------

namespace WebServer

namespace V3

variable {F : Type}

namespace LoopThread

/- Behind the swap of `doPendingFunctors`. -/
def pastSwap
    (s : LoopThread F) : Bool :=
  match s.pos with
  | .functors _ _ | .expiring | .waiting => true
  | _ => false

/- The loop thread calls `wakeup` for a push of its own. -/
def inFunctors
    (s : LoopThread F) : Bool :=
  match s.pos with
  | .functors _ _ => true
  | _ => false

end LoopThread

/-
  `registers` says that the wakeup channel never asks for
  other events, `wake` what `FunctorsServed` says of a loop
  that waits, from the swap of the functors on.
-/
structure Served
    (r : LoopThread F × FunctorRecord F) : Prop where
  inOrder :
    r.2.inserted =
      r.2.executed ++ (r.1.taken ++ r.1.pendingFunctors)
  registers :
    r.1.pwakeupChannel.lastEvents = .inEt ∧
      r.1.registered = .inEt
  calling : r.1.callingPendingFunctors = r.1.inFunctors
  owes : r.1.loopOwes = true → r.1.inFunctors = true
  wake :
    r.1.pastSwap = true → r.1.pendingFunctors ≠ [] →
      r.1.wakes = true ∨ 0 < r.1.owing ∨
        r.1.loopOwes = true

variable {s : LoopThread F}
variable {h : FunctorRecord F}

theorem Served.functorsServed
    {r : LoopThread F × FunctorRecord F}
    (hServed : Served r) :
    FunctorsServed r := by
  refine ⟨hServed.inOrder, ?_⟩
  intro hPos hPending
  have hPast : r.1.pastSwap = true := by
    simp [LoopThread.pastSwap, hPos]
  rcases hServed.wake hPast hPending with
    hWakes | hOwing | hOwes
  · exact .inl hWakes
  · exact .inr hOwing
  · have hIn := hServed.owes hOwes
    simp [LoopThread.inFunctors, hPos] at hIn

theorem loopStart_served :
    Served (loopStart : LoopThread F × FunctorRecord F) where
  inOrder := rfl
  registers := ⟨rfl, rfl⟩
  calling := rfl
  owes := by simp [loopStart, LoopThread.new]
  wake := by simp [loopStart, LoopThread.new]

end V3

end WebServer

------------------------------------------------------------
-- Pushes And Wakeups
------------------------------------------------------------

namespace WebServer

namespace V3

variable {F : Type}
variable {s : LoopThread F}
variable {h : FunctorRecord F}

/- A push leaves a wakeup to come, where one is needed. -/
theorem Served.queueInLoop
    (hServed : Served (s, h))
    {isInLoopThread : Bool}
    (cb : F)
    (hCallback :
      isInLoopThread = true → s.runsCallback = true) :
    Served
      (s.queueInLoop isInLoopThread cb,
        { h with inserted := h.inserted ++ [cb] }) := by
  have hOrder : h.inserted ++ [cb] =
      h.executed ++
        (s.taken ++ (s.pendingFunctors ++ [cb])) := by
    have hOld := hServed.inOrder
    simp only at hOld
    simp [hOld]
  cases isInLoopThread with
  | false =>
      exact
        { inOrder := hOrder
          registers := hServed.registers
          calling := hServed.calling
          owes := hServed.owes
          wake := fun _ _ =>
            .inr (.inl (Nat.succ_pos s.owing)) }
  | true =>
      have hCalls := hServed.calling
      simp only at hCalls
      cases hCalling : s.callingPendingFunctors with
      | true =>
          simp only [LoopThread.queueInLoop, Bool.not_true,
            Bool.false_eq_true, hCalling, if_true, if_false]
          exact
            { inOrder := hOrder
              registers := hServed.registers
              calling := hCalling.symm.trans hCalls
              owes := fun _ =>
                hCalls.symm.trans hCalling
              wake := fun _ _ => .inr (.inr rfl) }
      | false =>
          simp only [LoopThread.queueInLoop, Bool.not_true,
            Bool.false_eq_true, hCalling, if_false]
          refine
            { inOrder := hOrder
              registers := hServed.registers
              calling := hCalling.symm.trans hCalls
              owes := hServed.owes
              wake := ?_ }
          -- a handler runs, so the swap is still to come
          intro hPast
          have hRuns := hCallback rfl
          rw [hCalling] at hCalls
          cases hPos : s.pos <;>
            simp [LoopThread.runsCallback,
              LoopThread.pastSwap, LoopThread.inFunctors,
              hPos] at hRuns hPast hCalls

/- A write to the descriptor is a wakeup to come. -/
theorem Served.wakeup
    (hServed : Served (s, h))
    (isInLoopThread : Bool) :
    Served (s.wakeup isInLoopThread, h) := by
  have hWakes :
      (s.wakeup isInLoopThread).wakes = true := by
    have hRegistered := hServed.registers.2
    simp only at hRegistered
    cases isInLoopThread <;>
      simp [LoopThread.wakeup, LoopThread.wakes,
        hRegistered, Events.inEt]
  cases isInLoopThread with
  | true =>
      exact
        { inOrder := hServed.inOrder
          registers := hServed.registers
          calling := hServed.calling
          owes := fun hOwes => absurd hOwes (by
            simp [LoopThread.wakeup])
          wake := fun _ _ => .inl hWakes }
  | false =>
      exact
        { inOrder := hServed.inOrder
          registers := hServed.registers
          calling := hServed.calling
          owes := hServed.owes
          wake := fun _ _ => .inl hWakes }

theorem Served.setQuit
    (hServed : Served (s, h))
    (isInLoopThread : Bool) :
    Served (s.setQuit isInLoopThread, h) := by
  cases isInLoopThread with
  | true =>
      exact
        { inOrder := hServed.inOrder
          registers := hServed.registers
          calling := hServed.calling
          owes := hServed.owes
          wake := hServed.wake }
  | false =>
      exact
        { inOrder := hServed.inOrder
          registers := hServed.registers
          calling := hServed.calling
          owes := hServed.owes
          wake := fun _ _ =>
            .inr (.inl (Nat.succ_pos s.owing)) }

end V3

end WebServer

------------------------------------------------------------
-- Steps Of The Loop Thread
------------------------------------------------------------

namespace WebServer

namespace V3

variable {F : Type}
variable {s : LoopThread F}
variable {h : FunctorRecord F}

/- A wait that brings nothing leaves the loop as it is. -/
theorem Served.poll
    (hServed : Served (s, h))
    {result : WaitResult}
    (hPos : s.pos = .waiting) :
    Served (s.poll result, h) := by
  have hCalling := hServed.calling
  have hOwes := hServed.owes
  have hOrder := hServed.inOrder
  simp only [LoopThread.inFunctors, hPos] at hCalling hOwes
  simp only [LoopThread.taken, hPos] at hOrder
  by_cases hIdle : result.active = []
  · have hSame : s.poll result = s := by
      simp [LoopThread.poll, hIdle]
    rw [hSame]
    exact hServed
  · unfold LoopThread.poll
    rw [if_neg hIdle]
    split
    · exact
        { inOrder := hOrder
          registers := hServed.registers
          calling := hCalling
          owes := hOwes
          wake := fun hPast => by cases hPast }
    · exact
        { inOrder := hOrder
          registers := hServed.registers
          calling := hCalling
          owes := hOwes
          wake := fun hPast => by cases hPast }

/-
  The wakeup handler asks for the events that are already
  registered, so the poller does not touch the kernel.
-/
theorem handleWakeup_eq
    (hLast : s.pwakeupChannel.lastEvents = .inEt) :
    s.handleWakeup =
      { s with
        counter := 0
        pwakeupChannel := ⟨.inEt, .inEt⟩ } := by
  simp [LoopThread.handleWakeup, Channel.setEvents,
    Channel.equalAndUpdateLastEvents, hLast]

/- A handler returns; the swap is still to come. -/
theorem Served.handleEvents
    (hServed : Served (s, h))
    {c : ActiveChannel}
    {active : List ActiveChannel}
    (hPos : s.pos = .handling (c :: active)) :
    Served (s.handleEvents, h) := by
  have hCalling := hServed.calling
  have hOwes := hServed.owes
  have hOrder := hServed.inOrder
  simp only [LoopThread.inFunctors, hPos] at hCalling hOwes
  simp only [LoopThread.taken, hPos] at hOrder
  cases c with
  | wakeup =>
      simp only [LoopThread.handleEvents, hPos,
        handleWakeup_eq hServed.registers.1]
      exact
        { inOrder := hOrder
          registers := ⟨rfl, hServed.registers.2⟩
          calling := hCalling
          owes := hOwes
          wake := fun hPast => by cases hPast }
  | other =>
      simp only [LoopThread.handleEvents, hPos]
      exact
        { inOrder := hOrder
          registers := hServed.registers
          calling := hCalling
          owes := hOwes
          wake := fun hPast => by cases hPast }

/- The swap takes all pending functors. -/
theorem Served.swapFunctors
    (hServed : Served (s, h))
    (hPos : s.pos = .handling []) :
    Served (s.swapFunctors, h) := by
  have hOrder := hServed.inOrder
  simp only [LoopThread.taken, hPos] at hOrder
  exact
    { inOrder := by
        simpa [LoopThread.swapFunctors, LoopThread.taken]
          using hOrder
      registers := hServed.registers
      calling := rfl
      owes := fun _ => rfl
      wake := fun _ hPending => absurd rfl hPending }

/- The oldest functor taken is executed. -/
theorem Served.callFunctor
    (hServed : Served (s, h))
    {running : Bool}
    {cb : F}
    {left : List F}
    (hPos : s.pos = .functors running (cb :: left)) :
    Served
      (s.callFunctor,
        { h with executed := h.executed ++ [cb] }) := by
  have hCalling := hServed.calling
  have hOrder := hServed.inOrder
  simp only [LoopThread.inFunctors, hPos] at hCalling
  simp only [LoopThread.taken, hPos] at hOrder
  simp only [LoopThread.callFunctor, hPos]
  exact
    { inOrder := by
        simpa [LoopThread.taken] using hOrder
      registers := hServed.registers
      calling := hCalling
      owes := fun _ => rfl
      wake := fun _ =>
        hServed.wake (by
          simp [LoopThread.pastSwap, hPos]) }

theorem Served.endFunctors
    (hServed : Served (s, h))
    {running : Bool}
    (hPos : s.pos = .functors running [])
    (hOwes : s.loopOwes = false) :
    Served (s.endFunctors, h) := by
  have hOrder := hServed.inOrder
  simp only [LoopThread.taken, hPos] at hOrder
  exact
    { inOrder := hOrder
      registers := hServed.registers
      calling := rfl
      owes := fun hStill => by
        rw [← hStill]
        exact hOwes.symm
      wake := fun _ =>
        hServed.wake (by
          simp [LoopThread.pastSwap, hPos]) }

theorem Served.handleExpired
    (hServed : Served (s, h))
    (hPos : s.pos = .expiring) :
    Served (s.handleExpired, h) := by
  have hCalling := hServed.calling
  have hOwes := hServed.owes
  have hOrder := hServed.inOrder
  simp only [LoopThread.inFunctors, hPos] at hCalling hOwes
  simp only [LoopThread.taken, hPos] at hOrder
  have hWake :=
    hServed.wake (by simp [LoopThread.pastSwap, hPos])
  unfold LoopThread.handleExpired
  cases s.quit with
  | true =>
      exact
        { inOrder := hOrder
          registers := hServed.registers
          calling := hCalling
          owes := hOwes
          wake := fun hPast => by cases hPast }
  | false =>
      exact
        { inOrder := hOrder
          registers := hServed.registers
          calling := hCalling
          owes := hOwes
          wake := fun _ => hWake }

/- Every step of every thread keeps the invariant. -/
theorem Served.step
    (r : LoopThread F × FunctorRecord F)
    (e : LoopStep F)
    (hServed : Served r)
    (hEnabled : recordedLoop.enabled r e) :
    ∃ t, recordedLoop.step r e = some t ∧ Served t := by
  rcases r with ⟨s, h⟩
  refine ⟨_, rfl, ?_⟩
  cases e with
  | queueInLoop isInLoopThread cb =>
      exact hServed.queueInLoop cb hEnabled
  | runInLoop isInLoopThread cb =>
      cases isInLoopThread with
      | true => exact hServed
      | false =>
          have hOther :
              false = true → s.runsCallback = true := by
            intro hLoop
            cases hLoop
          exact hServed.queueInLoop cb hOther
  | wakeup isInLoopThread =>
      exact hServed.wakeup isInLoopThread
  | quit isInLoopThread =>
      exact hServed.setQuit isInLoopThread
  | epollWait result => exact hServed.poll hEnabled.1
  | handleEvents =>
      rcases hEnabled.2 with ⟨c, active, hPos⟩
      exact hServed.handleEvents hPos
  | swapFunctors => exact hServed.swapFunctors hEnabled
  | callFunctor =>
      rcases hEnabled.2 with ⟨running, cb, left, hPos⟩
      change s.pos = _ at hPos
      have hFirst : s.taken.take 1 = [cb] := by
        simp [LoopThread.taken, hPos]
      have hNext := hServed.callFunctor hPos
      rw [← hFirst] at hNext
      exact hNext
  | endFunctors =>
      rcases hEnabled.2 with ⟨running, hPos⟩
      exact hServed.endFunctors hPos hEnabled.1
  | handleExpired => exact hServed.handleExpired hEnabled

end V3

end WebServer

------------------------------------------------------------
-- Running All Functors
------------------------------------------------------------

namespace WebServer

namespace V3

variable {F : Type}

/- Steps that go on with what was queued. -/
def LoopStep.goesOn :
    LoopStep F → Bool
| .queueInLoop _ _ | .runInLoop _ _ | .quit _ => false
| .epollWait result => result == .ready [some .wakeup]
| _ => true

namespace LoopThread

/-
  At most how many steps go on. With a functor pending
  behind the swap the loop has one more round ahead.
-/
def stepsLeft
    (s : LoopThread F) : Nat :=
  let round :=
    if s.pendingFunctors = [] then
      0
    else
      5 + s.pendingFunctors.length
  let ahead :=
    match s.pos with
    | .finished => 0
    | .waiting => round
    | .expiring => 1 + round
    | .functors _ left => 2 + left.length + round
    | .handling active =>
        3 + active.length + s.pendingFunctors.length
  ahead + s.owing + s.loopOwes.toNat

/- Each step that goes on is one of those left. -/
theorem stepsLeft_lt
    {s : LoopThread F}
    {e : LoopStep F}
    {h : FunctorRecord F}
    (hServed : Served (s, h))
    (hPending : s.pos = .waiting → s.pendingFunctors ≠ [])
    (hEnabled : s.enabled e)
    (hGoesOn : e.goesOn = true)
    (hQuit : s.quit = false) :
    (s.step e).stepsLeft < s.stepsLeft := by
  cases e with
  | queueInLoop isInLoopThread cb => cases hGoesOn
  | runInLoop isInLoopThread cb => cases hGoesOn
  | quit isInLoopThread => cases hGoesOn
  | wakeup isInLoopThread =>
      cases isInLoopThread with
      | true =>
          have hOwes : s.loopOwes = true := hEnabled
          simp only [step, wakeup, stepsLeft, hOwes,
            if_true, Bool.toNat_true, Bool.toNat_false]
          omega
      | false =>
          have hOwing : 0 < s.owing := hEnabled
          simp only [step, wakeup, stepsLeft,
            Bool.false_eq_true, if_false]
          omega
  | epollWait result =>
      have hResult : result = .ready [some .wakeup] :=
        eq_of_beq hGoesOn
      subst hResult
      have hPos : s.pos = .waiting := hEnabled.1
      simp [step, poll, WaitResult.active, stepsLeft, hPos,
        hPending hPos]
  | handleEvents =>
      rcases hEnabled.2 with ⟨c, active, hPos⟩
      cases c with
      | wakeup =>
          simp only [step, handleEvents, hPos, stepsLeft,
            handleWakeup_eq hServed.registers.1,
            List.length_cons]
          omega
      | other =>
          simp only [step, handleEvents, hPos, stepsLeft,
            List.length_cons]
          omega
  | swapFunctors =>
      have hPos : s.pos = .handling [] := hEnabled
      simp [step, swapFunctors, stepsLeft, hPos]
  | callFunctor =>
      rcases hEnabled.2 with ⟨running, cb, left, hPos⟩
      simp only [step, callFunctor, hPos, stepsLeft,
        List.length_cons]
      omega
  | endFunctors =>
      rcases hEnabled.2 with ⟨running, hPos⟩
      by_cases hNil : s.pendingFunctors = []
      · simp only [step, endFunctors, hPos, stepsLeft, hNil,
          if_true, List.length_nil]
        omega
      · simp only [step, endFunctors, hPos, stepsLeft, hNil,
          if_false, List.length_nil]
        omega
  | handleExpired =>
      have hPos : s.pos = .expiring := hEnabled
      simp only [step, handleExpired, hPos, stepsLeft,
        hQuit, Bool.false_eq_true, if_false]
      omega

/- Where no step goes on, the loop waits and nothing pends. -/
theorem waits_of_no_step
    {s : LoopThread F}
    {h : FunctorRecord F}
    (hServed : Served (s, h))
    (hOpen : s.pos ≠ .finished)
    (hNone :
      ∀ e : LoopStep F, e.goesOn = true → ¬ s.enabled e) :
    s.taken = [] ∧ s.pendingFunctors = [] := by
  have hOwes : s.loopOwes = false := by
    rw [← Bool.not_eq_true]
    exact hNone (.wakeup true) rfl
  have hOwing : ¬ 0 < s.owing := hNone (.wakeup false) rfl
  cases hPos : s.pos with
  | finished => exact absurd hPos hOpen
  | expiring => exact absurd hPos (hNone .handleExpired rfl)
  | functors running left =>
      cases left with
      | nil =>
          exact
            absurd ⟨hOwes, running, hPos⟩
              (hNone .endFunctors rfl)
      | cons cb left =>
          exact
            absurd ⟨hOwes, running, cb, left, hPos⟩
              (hNone .callFunctor rfl)
  | handling active =>
      cases active with
      | nil => exact absurd hPos (hNone .swapFunctors rfl)
      | cons c active =>
          exact
            absurd ⟨hOwes, c, active, hPos⟩
              (hNone .handleEvents rfl)
  | waiting =>
      refine ⟨by simp [taken, hPos], ?_⟩
      by_cases hPending : s.pendingFunctors = []
      · exact hPending
      · have hWakes :=
          hServed.functorsServed.2 hPos hPending
        rcases hWakes with hWakes | hMore
        · exact
            absurd
              ⟨hPos, fun _ => hWakes, by
                simp [WaitResult.active]⟩
              (hNone (.epollWait (.ready [some .wakeup]))
                rfl)
        · exact absurd hMore hOwing

/- Only `queueInLoop` and `quit` make more to do. -/
theorem frame_of_goesOn
    {s : LoopThread F}
    {h : FunctorRecord F}
    {e : LoopStep F}
    (hEnabled : s.enabled e)
    (hGoesOn : e.goesOn = true)
    (hQuit : s.quit = false)
    (hOpen : s.pos ≠ .finished) :
    (s.note e h).inserted = h.inserted ∧
      (s.step e).quit = false ∧
        (s.step e).pos ≠ .finished := by
  cases e with
  | queueInLoop isInLoopThread cb => cases hGoesOn
  | runInLoop isInLoopThread cb => cases hGoesOn
  | quit isInLoopThread => cases hGoesOn
  | wakeup isInLoopThread =>
      cases isInLoopThread <;> exact ⟨rfl, hQuit, hOpen⟩
  | epollWait result =>
      have hResult : result = .ready [some .wakeup] :=
        eq_of_beq hGoesOn
      subst hResult
      exact ⟨rfl, hQuit, by simp [step, poll,
        WaitResult.active]⟩
  | handleEvents =>
      rcases hEnabled.2 with ⟨c, active, hPos⟩
      cases c with
      | wakeup =>
          refine ⟨rfl, ?_, by
            simp [step, handleEvents, hPos]⟩
          simp only [step, handleEvents, hPos, handleWakeup]
          split <;> exact hQuit
      | other =>
          simp [note, step, handleEvents, hPos, hQuit]
  | swapFunctors =>
      exact ⟨rfl, hQuit, by simp [step, swapFunctors]⟩
  | callFunctor =>
      rcases hEnabled.2 with ⟨running, cb, left, hPos⟩
      simp [note, step, callFunctor, hPos, hQuit]
  | endFunctors =>
      exact ⟨rfl, hQuit, by simp [step, endFunctors]⟩
  | handleExpired =>
      exact ⟨rfl, hQuit, by
        simp [step, handleExpired, hQuit]⟩

end LoopThread

/- The threads go on until every functor is executed. -/
theorem Served.drains
    (r : LoopThread F × FunctorRecord F)
    (hServed : Served r)
    (hQuit : r.1.quit = false)
    (hOpen : r.1.pos ≠ .finished) :
    ∃ es r',
      (∀ e ∈ es, e.goesOn = true) ∧
        recordedLoop.Reaches r es r' ∧
          r'.2.executed = r.2.inserted := by
  -- on the steps that are left
  induction hLeft : r.1.stepsLeft using Nat.strongRecOn
    generalizing r with
  | ind left ih =>
      by_cases hDone :
          r.1.taken = [] ∧ r.1.pendingFunctors = []
      · refine
          ⟨[], r, fun _ hMem => absurd hMem List.not_mem_nil,
            .nil r, ?_⟩
        rw [hServed.inOrder, hDone.1, hDone.2]
        simp
      · have hMore :
            ∃ e : LoopStep F,
              e.goesOn = true ∧ r.1.enabled e := by
          apply Classical.byContradiction
          intro hNone
          exact
            hDone
              (LoopThread.waits_of_no_step hServed hOpen
                fun e hGoesOn hOn =>
                  hNone ⟨e, hGoesOn, hOn⟩)
        rcases hMore with ⟨e, hGoesOn, hEnabled⟩
        have hPending :
            r.1.pos = .waiting →
              r.1.pendingFunctors ≠ [] := by
          intro hPos hNil
          exact
            hDone ⟨by simp [LoopThread.taken, hPos], hNil⟩
        have hLess :=
          LoopThread.stepsLeft_lt hServed hPending hEnabled
            hGoesOn hQuit
        rcases hServed.step r e hEnabled with
          ⟨t, hStep, hNext⟩
        rcases Option.some.inj hStep with rfl
        rcases LoopThread.frame_of_goesOn (h := r.2) hEnabled
          hGoesOn hQuit hOpen with
            ⟨hInserted, hStill, hWaits⟩
        rcases ih (r.1.step e).stepsLeft (by omega) _ hNext
          hStill hWaits rfl with
            ⟨es, r', hAll, hReach, hExecuted⟩
        refine ⟨e :: es, r', ?_, ?_, ?_⟩
        · intro e' hMem
          rcases List.mem_cons.mp hMem with rfl | hMem
          · exact hGoesOn
          · exact hAll e' hMem
        · exact .cons hEnabled hStep hReach
        · exact hExecuted.trans hInserted

/- Without `quit` the loop goes on. -/
theorem open_of_no_quit
    {es : List (LoopStep F)}
    {s t : LoopThread F}
    (hQuit : s.quit = false)
    (hOpen : s.pos ≠ .finished)
    (hNone : ∀ b, .quit b ∉ es)
    (hReach : loopMachine.Reaches s es t) :
    t.quit = false ∧ t.pos ≠ .finished := by
  induction hReach with
  | nil s => exact ⟨hQuit, hOpen⟩
  | @cons s u t e es hEnabled hStep _ ih =>
      rcases Option.some.inj hStep with rfl
      have hNext :
          (s.step e).quit = false ∧
            (s.step e).pos ≠ .finished := by
        cases hGoesOn : e.goesOn with
        | true =>
            exact
              (LoopThread.frame_of_goesOn
                (h := ⟨[], []⟩) hEnabled hGoesOn hQuit
                  hOpen).2
        | false =>
            cases e with
            | quit b =>
                exact absurd List.mem_cons_self (hNone b)
            | queueInLoop isInLoopThread cb =>
                simp only [LoopThread.step,
                  LoopThread.queueInLoop]
                split_ifs <;> exact ⟨hQuit, hOpen⟩
            | runInLoop isInLoopThread cb =>
                cases isInLoopThread <;>
                  exact ⟨hQuit, hOpen⟩
            | epollWait result =>
                simp only [LoopThread.step, LoopThread.poll]
                split_ifs <;>
                  first
                    | exact ⟨hQuit, hOpen⟩
                    | exact ⟨hQuit, by simp⟩
            | _ => cases hGoesOn
      exact
        ih hNext.1 hNext.2 fun b hMem =>
          hNone b (List.mem_cons_of_mem e hMem)

/-
  Over every interleaving of the loop thread with threads
  that queue functors, each functor is executed once and in
  insertion order or still to be executed, and a loop that
  waits has a wakeup to come. While nobody quits the loop,
  its threads can go on until all are executed.
-/
theorem functors_run_once_in_order
    (es : List (LoopStep F))
    (hNoQuit : ∀ b, .quit b ∉ es) :
    recordedLoop.Throughout FunctorsServed loopStart es ∧
      ∀ r, recordedLoop.Reaches loopStart es r →
        ∃ es' r',
          (∀ e ∈ es', e.goesOn = true) ∧
            recordedLoop.Reaches r es' r' ∧
              r'.2.executed = r.2.inserted := by
  have hServed :=
    Machine.throughout_of_preserved Served.step
      (loopStart_served (F := F)) es
  refine ⟨hServed.mono fun _ h => h.functorsServed, ?_⟩
  intro r hReach
  have hStart : (loopStart (F := F)).1.pos ≠ .finished := by
    simp [loopStart, LoopThread.new]
  rcases open_of_no_quit rfl hStart hNoQuit
    hReach.of_recording with ⟨hQuit, hOpen⟩
  exact (hServed.reached hReach).drains r hQuit hOpen

/-
  A functor queued by another thread, and one that it queues
  in turn while it runs.
-/
def twoFunctors : List (LoopStep Nat) :=
  [.queueInLoop false 7, .wakeup false,
    .epollWait (.ready [some .wakeup]), .handleEvents,
    .swapFunctors, .callFunctor, .queueInLoop true 8,
    .wakeup true, .endFunctors, .handleExpired,
    .epollWait (.ready [])]

/- Both are queued, and the second waits for a wakeup. -/
theorem functors_run_once_two :
    (∃ r,
        recordedLoop.Reaches loopStart twoFunctors r ∧
          r.1.pos = .waiting ∧ r.2 = ⟨[7, 8], [7]⟩) ∧
      recordedLoop.Throughout FunctorsServed loopStart
        twoFunctors := by
  have hNoQuit : ∀ b, .quit b ∉ twoFunctors := by decide
  refine ⟨?_, (functors_run_once_in_order _ hNoQuit).1⟩
  have hRun :
      (recordedLoop.exec loopStart twoFunctors).map
          (fun r => (r.1.pos, r.2)) =
        some (.waiting, ⟨[7, 8], [7]⟩) := by
    decide +kernel
  rcases Machine.reaches_of_exec_map hRun with
    ⟨r, hReach, hEnd⟩
  exact
    ⟨r, hReach, (Prod.mk.inj hEnd).1,
      (Prod.mk.inj hEnd).2⟩

end V3

end WebServer
