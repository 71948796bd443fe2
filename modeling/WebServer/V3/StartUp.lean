import Mathlib.Data.Fintype.Basic
import WebServer.Common
import WebServer.Library.Monitor

/-
  How the threads of version 3.0 are started
  (`base/CountDownLatch.h`, `base/Condition.h`,
  `net/EventLoopThread.cpp`, `net/EventLoopThreadPool.cpp`).

  A thread that starts another waits until the other has
  done something: `AsyncLogging::start` until a latch is
  counted down, `EventLoopThread::startLoop` until `loop_`
  is set. Both wait in a loop under a lock. The counter of a
  latch is decremented without a test, so the number of
  calls is bounded where a result needs it in `int`.

  Key definitions include:
    * `countDownLatch`
    * `eventLoopThread`
    * `PoolStart`
    * `poolMachine`

  Key theorems include:
    * `latch_opens_iff`
    * `pool_start_returns`
-/

------------------------------------------------------------
-- Latches
------------------------------------------------------------

namespace WebServer

namespace V3

/-
  `count_`, with `await()` and `countDown()`: who waits
  tests `count_ > 0`, and all are woken where it is 0.
-/
def countDownLatch : Guarded Int where
  ready count := !decide (0 < count)
  update count := count - 1
  notice count := if count = 0 then .all else .nobody

theorem countDownLatch_announces
    (ω : Type) :
    countDownLatch.Announces ω := by
  intro count hWaits hOpen
  simp only [countDownLatch, Bool.not_eq_false',
    Bool.not_eq_true', decide_eq_true_eq,
    decide_eq_false_iff_not] at hWaits hOpen
  have hZero : count - 1 = 0 := by omega
  exact .inl (by simp [countDownLatch, hZero])

theorem countDownLatch_stable
    (count : Int)
    (hOpen : countDownLatch.ready count = true) :
    countDownLatch.ready (countDownLatch.update count) =
      true := by
  simp only [countDownLatch, Bool.not_eq_true',
    decide_eq_false_iff_not] at hOpen ⊢
  omega

/- The count after some calls of `countDown()`. -/
theorem countDownLatch_iterate
    (count : Int)
    (n : Nat) :
    countDownLatch.update^[n] count = count - n := by
  induction n with
  | zero => simp
  | succ n ih =>
      rw [Function.iterate_succ_apply', ih]
      simp only [countDownLatch]
      omega

variable {ω υ : Type}
variable [Fintype ω] [Fintype υ]
variable [DecidableEq ω] [DecidableEq υ]

/-
  Any number of threads call `await()` and as many call
  `countDown()` as the count allows in `int`, in any order
  and with any wake-ups for no reason. The count stays in
  `int`. A call of `await()` returns only where it has come
  down, every run ends up where no thread can go on, and
  there all calls of `await()` have returned exactly when
  there were enough calls of `countDown()`.
-/
theorem latch_opens_iff
    {count : Int}
    {es : List (MonitorEvent ω υ)}
    {m : Monitor Int ω υ}
    (hCount : IsInt32 count)
    (hCalls : IsInt32 (count - Fintype.card υ))
    (hRun :
      (monitorMachine countDownLatch).Reaches
        (.start count) es m) :
    IsInt32 m.shared ∧
      (∀ w, m.waiters w = .returned → m.shared ≤ 0) ∧
      es.length ≤
        2 * Fintype.card ω +
            Fintype.card υ * (2 * Fintype.card ω + 3) +
          3 * es.countP MonitorEvent.isWake ∧
      (m.Settled countDownLatch →
        ∀ w,
          m.waiters w =
            if count ≤ Fintype.card υ then
              .returned
            else
              .asleep) := by
  rcases Monitor.reaches_sound (countDownLatch_announces ω)
    countDownLatch_stable hRun with ⟨hSound, hUpdated⟩
  refine ⟨?_, ?_, Monitor.length_le_of_reaches hRun, ?_⟩
  · have hDone : m.done.card ≤ Fintype.card υ :=
      Finset.card_le_univ _
    rw [hUpdated.shared, countDownLatch_iterate]
    unfold IsInt32 at hCount hCalls ⊢
    omega
  · intro w hBack
    have hOpen := hUpdated.returned w hBack
    simp only [countDownLatch, Bool.not_eq_true',
      decide_eq_false_iff_not] at hOpen
    omega
  · intro hSettled w
    have hShared := hSettled.shared hSound hUpdated
    rw [countDownLatch_iterate] at hShared
    rw [hSettled.waiters hSound hUpdated.returned w, hShared]
    by_cases hEnough : count ≤ Fintype.card υ
    · simp [countDownLatch, hEnough]
    · simp [countDownLatch, hEnough]

/- A thread that comes to the latch before the other. -/
def latchWaitsFirst : List (MonitorEvent Unit Unit) :=
  [.lockWaiter (), .test (), .lockUpdater (), .update (),
    .notify () none, .lockWaiter (), .test ()]

/- It sleeps, is woken and returns. -/
theorem latch_opens_for_one :
    ∃ m : Monitor Int Unit Unit,
      (monitorMachine countDownLatch).Reaches (.start 1)
          latchWaitsFirst m ∧
        m.waiters () = .returned ∧ m.shared ≤ 0 := by
  have hRun :
      ((monitorMachine countDownLatch).exec
          (.start 1 : Monitor Int Unit Unit)
          latchWaitsFirst).map
          (fun m => m.waiters ()) =
        some .returned := by
    decide +kernel
  rcases Machine.reaches_of_exec_map hRun with
    ⟨m, hReach, hBack⟩
  exact
    ⟨m, hReach, hBack,
      (latch_opens_iff (by decide) (by decide) hReach).2.1 ()
        hBack⟩

end V3

end WebServer

------------------------------------------------------------
-- Loops
------------------------------------------------------------

namespace WebServer

namespace V3

/-
  `loop_` of an `EventLoopThread`: `startLoop` waits while
  it is null, and `threadFunc` sets it to its own loop and
  signals.
-/
def eventLoopThread
    (loop : Nat) : Guarded (Option Nat) where
  ready loop_ := loop_.isSome
  update _ := some loop
  notice _ := .one

/-
  `EventLoopThreadPool::start`: `loops_`, and the threads
  with their locks. The thread of each is its own updater,
  and the main thread waits for them in turn.
-/
structure PoolStart (numThreads : Nat) where
  loops : List (Option Nat)
  threads : Fin numThreads → Monitor (Option Nat) Unit Unit

/-
  A step of `startLoop` or of `threadFunc` of one thread, or
  `loops_.push_back(t->startLoop())`.
-/
inductive PoolEvent (numThreads : Nat)
| thread
    (i : Fin numThreads)
    (e : MonitorEvent Unit Unit)
| pushBack
deriving DecidableEq

namespace PoolStart

variable {numThreads : Nat}

/- At the head of the loop of `start`, for the first time. -/
def init
    (numThreads : Nat) : PoolStart numThreads where
  loops := []
  threads := fun _ => .start none

/-
  The threads up to the one that the main thread waits for
  exist. It goes on where `startLoop` has returned.
-/
def enabled
    (s : PoolStart numThreads) :
    PoolEvent numThreads → Prop
| .thread i e =>
    i.val ≤ s.loops.length ∧
      (s.threads i).enabled (eventLoopThread i) e
| .pushBack =>
    ∃ h : s.loops.length < numThreads,
      (s.threads ⟨_, h⟩).waiters () = .returned

def step
    (s : PoolStart numThreads) :
    PoolEvent numThreads → Option (PoolStart numThreads)
| .thread i e =>
    some
      { s with
        threads :=
          Function.update s.threads i
            ((s.threads i).step (eventLoopThread i) e) }
| .pushBack =>
    if h : s.loops.length < numThreads then
      some
        { s with
          loops := s.loops ++ [(s.threads ⟨_, h⟩).shared] }
    else
      none

end PoolStart

/- The start of the pool as a machine. -/
def poolMachine
    (numThreads : Nat) :
    Machine (PoolStart numThreads)
      (PoolEvent numThreads) where
  enabled := PoolStart.enabled
  step := PoolStart.step

instance
    {numThreads : Nat}
    (s : PoolStart numThreads) :
    ∀ e, Decidable ((poolMachine numThreads).enabled s e)
| .thread _ _ => inferInstanceAs (Decidable (_ ∧ _))
| .pushBack =>
    inferInstanceAs
      (Decidable
        (∃ h : s.loops.length < numThreads,
          (s.threads ⟨_, h⟩).waiters () = .returned))

/- A wake-up for no reason. -/
def PoolEvent.isWake
    {numThreads : Nat} :
    PoolEvent numThreads → Bool
| .thread _ e => e.isWake
| .pushBack => false

end V3

end WebServer

------------------------------------------------------------
-- The Pool Starts
------------------------------------------------------------

namespace WebServer

namespace V3

/- The thread that waits for a loop is the only one. -/
theorem eventLoopThread_announces
    (loop : Nat) :
    (eventLoopThread loop).Announces Unit :=
  fun _ _ _ => .inr ⟨rfl, inferInstance⟩

/- What `loop_` is once it is not null. -/
theorem eventLoopThread_iterate
    {loop n : Nat}
    (hSome :
      ((eventLoopThread loop).update^[n] none).isSome) :
    (eventLoopThread loop).update^[n] none = some loop := by
  cases n with
  | zero => cases hSome
  | succ n =>
      rw [Function.iterate_succ_apply']
      rfl

namespace PoolStart

variable {numThreads : Nat}
variable {s t : PoolStart numThreads}

/-
  The loops pushed are those of the first threads, each its
  own, and every thread is sound.
-/
structure Started
    (s : PoolStart numThreads) : Prop where
  length : s.loops.length ≤ numThreads
  loops : s.loops = (List.range s.loops.length).map some
  sound :
    ∀ i, (s.threads i).Sound (eventLoopThread i)
  updated :
    ∀ i, (s.threads i).Updated (eventLoopThread i) none

theorem init_started
    (numThreads : Nat) :
    (init numThreads).Started where
  length := Nat.zero_le _
  loops := rfl
  sound := fun _ => Monitor.start_sound none
  updated := fun _ => Monitor.start_updated none

/- `startLoop` returns the loop of its thread. -/
theorem Started.shared
    (h : s.Started)
    {i : Fin numThreads}
    (hBack : (s.threads i).waiters () = .returned) :
    (s.threads i).shared = some i.val := by
  have hSome := (h.updated i).returned () hBack
  rw [(h.updated i).shared] at hSome ⊢
  exact eventLoopThread_iterate hSome

/- Every step of a thread keeps that. -/
theorem Started.step
    (h : s.Started)
    {e : PoolEvent numThreads}
    (hEnabled : s.enabled e)
    (hStep : s.step e = some t) :
    t.Started := by
  cases e with
  | thread i e =>
      rcases Option.some.inj hStep with rfl
      refine
        { length := h.length
          loops := h.loops
          sound := ?_
          updated := ?_ }
      · intro j
        by_cases hEq : j = i
        · subst hEq
          simp only [Function.update_self]
          exact
            (h.sound j).step (eventLoopThread_announces j)
              hEnabled.2
        · simp only [Function.update_of_ne hEq]
          exact h.sound j
      · intro j
        by_cases hEq : j = i
        · subst hEq
          simp only [Function.update_self]
          exact
            (h.updated j).step (fun _ _ => rfl) hEnabled.2
        · simp only [Function.update_of_ne hEq]
          exact h.updated j
  | pushBack =>
      rcases hEnabled with ⟨hLess, hBack⟩
      simp only [PoolStart.step, dif_pos hLess,
        Option.some.injEq] at hStep
      subst hStep
      refine
        { length := ?_
          loops := ?_
          sound := h.sound
          updated := h.updated }
      · rw [List.length_append]
        exact hLess
      · rw [h.shared hBack, List.length_append,
          List.length_singleton, List.range_succ,
          List.map_append, ← h.loops]
        rfl

/- The steps that are left to all threads. -/
def weight
    (s : PoolStart numThreads) : Nat :=
  (∑ i, (s.threads i).weight) +
    (numThreads - s.loops.length)

theorem weight_init
    (numThreads : Nat) :
    (init numThreads).weight = 8 * numThreads := by
  have hThreads :
      (∑ i, ((init numThreads).threads i).weight) =
        (Finset.univ : Finset (Fin numThreads)).card * 7 :=
    Finset.sum_const_nat fun _ _ => rfl
  rw [Finset.card_fin] at hThreads
  rw [weight, hThreads, init, List.length_nil]
  omega

theorem weight_step
    {e : PoolEvent numThreads}
    (hEnabled : s.enabled e)
    (hStep : s.step e = some t) :
    t.weight < s.weight + if e.isWake then 3 else 0 := by
  unfold weight
  cases e with
  | thread i e =>
      rcases Option.some.inj hStep with rfl
      have hSum :=
        sum_update_add s.threads Monitor.weight i
          ((s.threads i).step (eventLoopThread i) e)
      have hLess :
          ((s.threads i).step
              (eventLoopThread i) e).weight <
            (s.threads i).weight +
              if (PoolEvent.thread i e).isWake then
                3
              else
                0 :=
        (s.threads i).weight_step hEnabled.2
      simp only
      omega
  | pushBack =>
      rcases hEnabled with ⟨hLess, _⟩
      simp only [step, dif_pos hLess, Option.some.injEq]
        at hStep
      subst hStep
      rw [List.length_append, List.length_singleton]
      simp only [PoolEvent.isWake, Bool.false_eq_true,
        if_false]
      omega

/-
  While a loop is missing, its thread, the main thread or an
  earlier one can go on.
-/
theorem Started.goes_on
    (h : s.Started)
    (hLess : s.loops.length < numThreads) :
    ∃ e, s.enabled e ∧ e.isWake = false := by
  by_contra hNone
  push Not at hNone
  have hSettled :
      (s.threads ⟨_, hLess⟩).Settled
        (eventLoopThread s.loops.length) := by
    intro e hEnabled
    have hWake :=
      hNone (.thread ⟨_, hLess⟩ e)
        ⟨Nat.le_refl _, hEnabled⟩
    exact Bool.eq_true_of_not_eq_false hWake
  have hSound := h.sound ⟨_, hLess⟩
  have hUpdated := h.updated ⟨_, hLess⟩
  have hBack :=
    hSettled.waiters hSound hUpdated.returned ()
  rw [hSettled.shared hSound hUpdated] at hBack
  exact hNone .pushBack ⟨hLess, hBack⟩ rfl

end PoolStart

/-
  Over every interleaving of the main thread in
  `EventLoopThreadPool::start` with the threads it starts,
  and any wake-ups for no reason: the loops handed on are
  those of the threads, in order and none of them null; a
  run is at most eight steps a thread long, and three for
  each such wake-up; no run is stuck before the last loop;
  and each run can go on to it.
-/
theorem pool_start_returns
    {numThreads : Nat}
    {es : List (PoolEvent numThreads)}
    {s : PoolStart numThreads}
    (hRun :
      (poolMachine numThreads).Reaches
        (PoolStart.init numThreads) es s) :
    s.loops = (List.range s.loops.length).map some ∧
      es.length ≤
        8 * numThreads + 3 * es.countP PoolEvent.isWake ∧
      ((∀ e, s.enabled e → e.isWake = true) →
        s.loops.length = numThreads) ∧
      ∃ es' t,
        (poolMachine numThreads).Reaches s es' t ∧
          t.loops.length = numThreads := by
  have hKept :
      ∀ s e t,
        PoolStart.Started s →
          (poolMachine numThreads).enabled s e →
          (poolMachine numThreads).step s e = some t →
          PoolStart.Started t :=
    fun s e t h hEnabled hStep => h.step hEnabled hStep
  have hStarted :=
    hRun.invariant hKept (PoolStart.init_started numThreads)
  refine ⟨hStarted.loops, ?_, ?_, ?_⟩
  · have hLength :=
      hRun.length_le PoolStart.weight PoolEvent.isWake
        fun s e t hEnabled hStep =>
          PoolStart.weight_step hEnabled hStep
    rw [PoolStart.weight_init] at hLength
    omega
  · intro hStuck
    by_contra hNot
    have hLess :=
      Nat.lt_of_le_of_ne hStarted.length hNot
    rcases hStarted.goes_on hLess with ⟨e, hEnabled, hOwn⟩
    rw [hStuck e hEnabled] at hOwn
    cases hOwn
  · refine
      Machine.exists_reaches (I := PoolStart.Started)
        PoolStart.weight ?_ hStarted
    intro s h hNot
    have hLess := Nat.lt_of_le_of_ne h.length hNot
    rcases h.goes_on hLess with ⟨e, hEnabled, hOwn⟩
    have hSome : ∃ t, s.step e = some t := by
      cases e with
      | thread i e => exact ⟨_, rfl⟩
      | pushBack => exact ⟨_, dif_pos hLess⟩
    rcases hSome with ⟨t, hStep⟩
    have hWeight := PoolStart.weight_step hEnabled hStep
    rw [hOwn] at hWeight
    exact
      ⟨e, t, hEnabled, hStep, h.step hEnabled hStep,
        hWeight⟩

/- One loop, and a main thread that wakes too early. -/
def wakesTooEarly : List (PoolEvent 1) :=
  [.thread 0 (.lockWaiter ()), .thread 0 (.test ()),
    .thread 0 (.wake ()), .thread 0 (.lockWaiter ()),
    .thread 0 (.test ()), .thread 0 (.lockUpdater ()),
    .thread 0 (.update ()), .thread 0 (.notify () (some ())),
    .thread 0 (.lockWaiter ()), .thread 0 (.test ()),
    .pushBack]

/- It is given the loop all the same. -/
theorem pool_start_returns_for_one :
    ∃ s,
      (poolMachine 1).Reaches (PoolStart.init 1)
          wakesTooEarly s ∧
        s.loops.length = 1 ∧
          s.loops = (List.range s.loops.length).map some := by
  have hRun :
      ((poolMachine 1).exec (PoolStart.init 1)
          wakesTooEarly).map
          (fun s => s.loops.length) =
        some 1 := by
    decide +kernel
  rcases Machine.reaches_of_exec_map hRun with
    ⟨s, hReach, hOne⟩
  exact ⟨s, hReach, hOne, (pool_start_returns hReach).1⟩

end V3

end WebServer
