import WebServer.V2.Threadpool.ThreadPool

/-
  The bound on the thread pool's queue.

  `append` refuses a request when the queue is longer than
  `m_max_requests`, so it still accepts one at that length.
  A run is recorded with the pool before and after each call.

  Key definitions include:
    * `Appended`
    * `Appended.Obeys`
    * `Bounded`
    * `HasRoom`

  Key theorems include:
    * `ThreadPool.workqueue_step`
    * `ThreadPool.append_of_room`
    * `pool_bounded_iff`
-/

------------------------------------------------------------
-- Calls Of `append`
------------------------------------------------------------

namespace WebServer

namespace V2

variable {T : Type}

/- The pool before and after a call of `append`. -/
structure Appended (T : Type) where
  before : ThreadPool T
  after : ThreadPool T

namespace Appended

/- The call returned false. -/
def refused
    (c : Appended T) : Prop :=
  c.after.calls.getLast?.map AppendCall.pos = some .refused

/-
  The call is refused exactly at the limit, and then neither
  the queue nor the semaphore changes.
-/
structure Obeys
    (limit : Nat)
    (c : Appended T) : Prop where
  refused_iff :
    c.refused ↔ c.before.workqueue.length = limit
  unchanged :
    c.refused →
      c.after.workqueue = c.before.workqueue ∧
        c.after.queuestat = c.before.queuestat

end Appended

/- What a step adds to the record of the calls. -/
def noteAppend
    (s : ThreadPool T) :
    PoolEvent T → List (Appended T) → List (Appended T)
| .append request, calls =>
    calls ++ [⟨s, s.append request⟩]
| _, calls => calls

/- The pool with the calls of `append` so far. -/
def appendMachine :
    Machine (ThreadPool T × List (Appended T))
      (PoolEvent T) :=
  poolMachine.recording noteAppend

/- The queue is within the limit, and each call obeyed it. -/
structure Bounded
    (limit : Nat)
    (r : ThreadPool T × List (Appended T)) : Prop where
  bound : r.1.workqueue.length ≤ limit
  obeyed : ∀ c ∈ r.2, c.Obeys limit

/- A call of `append` finds fewer requests than the limit. -/
def HasRoom
    (limit : Nat)
    (r : ThreadPool T × List (Appended T)) :
    PoolEvent T → Prop
| .append _ => r.1.workqueue.length < limit
| _ => True

end V2

end WebServer

------------------------------------------------------------
-- Steps And The Queue
------------------------------------------------------------

namespace WebServer

namespace V2

variable {T : Type}

namespace ThreadPool

variable {s t : ThreadPool T}

/- The limit is set once. -/
theorem maxRequests_step
    {e : PoolEvent T}
    (hStep : s.step e = some t) :
    t.maxRequests = s.maxRequests := by
  cases e with
  | append request =>
      rcases Option.some.inj hStep with rfl
      unfold append
      split <;> rfl
  | post call =>
      rcases Option.bind_eq_some_iff.mp hStep with
        ⟨c, _, hEq⟩
      rcases Option.some.inj hEq with rfl
      rfl
  | wait worker | waitError worker | processed worker =>
      rcases Option.some.inj hStep with rfl
      rfl
  | take worker =>
      rcases Option.some.inj hStep with rfl
      unfold take
      split <;> rfl

/- Only `append` makes the queue longer. -/
theorem workqueue_step
    {e : PoolEvent T}
    (hStep : s.step e = some t)
    (hOther : ∀ request, e ≠ .append request) :
    t.workqueue.length ≤ s.workqueue.length := by
  cases e with
  | append request => exact absurd rfl (hOther request)
  | post call =>
      rcases Option.bind_eq_some_iff.mp hStep with
        ⟨c, _, hEq⟩
      rcases Option.some.inj hEq with rfl
      exact Nat.le_refl _
  | wait worker | waitError worker | processed worker =>
      rcases Option.some.inj hStep with rfl
      exact Nat.le_refl _
  | take worker =>
      rcases Option.some.inj hStep with rfl
      unfold take
      cases hQueue : s.workqueue with
      | nil =>
          exact Nat.le_of_eq (congrArg List.length hQueue)
      | cons request rest => exact Nat.le_succ _

/- A request is queued up to and at the limit. -/
theorem append_of_room
    (hRoom : s.workqueue.length ≤ s.maxRequests)
    (request : Option T) :
    s.append request =
      { s with
        workqueue := s.workqueue ++ [request]
        calls := s.calls ++ [⟨request, .pushed⟩] } := by
  unfold append
  rw [if_neg (by omega)]

theorem append_not_refused
    (hRoom : s.workqueue.length ≤ s.maxRequests)
    (request : Option T) :
    ¬ (⟨s, s.append request⟩ : Appended T).refused := by
  unfold Appended.refused
  rw [append_of_room hRoom]
  simp

end ThreadPool

end V2

end WebServer

------------------------------------------------------------
-- Runs Of The Pool
------------------------------------------------------------

namespace WebServer

namespace V2

variable {T : Type}
variable {limit : Nat}

/- A call with room keeps the bound. -/
theorem Bounded.step
    {r r' : ThreadPool T × List (Appended T)}
    {e : PoolEvent T}
    (h : Bounded limit r)
    (hLimit : r.1.maxRequests = limit)
    (hRoom : HasRoom limit r e)
    (hStep : appendMachine.step r e = some r') :
    Bounded limit r' ∧ r'.1.maxRequests = limit := by
  rcases r with ⟨s, calls⟩
  rcases Option.map_eq_some_iff.mp hStep with
    ⟨t, hNext, rfl⟩
  change s.step e = some t at hNext
  have hKept : t.maxRequests = limit :=
    (ThreadPool.maxRequests_step hNext).trans hLimit
  refine ⟨?_, hKept⟩
  have hBound : s.workqueue.length ≤ limit := h.bound
  cases e with
  | append request =>
      have hLess : s.workqueue.length < limit := hRoom
      have hIn : s.workqueue.length ≤ s.maxRequests :=
        Nat.le_trans hBound (Nat.le_of_eq hLimit.symm)
      have hAccepted :=
        ThreadPool.append_not_refused hIn request
      rcases Option.some.inj hNext with rfl
      refine { bound := ?_, obeyed := ?_ }
      · rw [ThreadPool.append_of_room hIn,
          List.length_append]
        exact hLess
      · intro c hIs
        rcases List.mem_append.mp hIs with hOld | hNew
        · exact h.obeyed c hOld
        · rw [List.mem_singleton.mp hNew]
          exact
            { refused_iff :=
                iff_of_false hAccepted (Nat.ne_of_lt hLess)
              unchanged := fun hIs => absurd hIs hAccepted }
  | post _ | wait _ | waitError _ | take _ | processed _ =>
      refine { bound := ?_, obeyed := h.obeyed }
      exact
        Nat.le_trans
          (ThreadPool.workqueue_step hNext (by simp)) hBound

/- A call at the limit is accepted: the queue outgrows it. -/
theorem Bounded.append_at_limit
    {r : ThreadPool T × List (Appended T)}
    (h : Bounded limit r)
    (hLimit : r.1.maxRequests = limit)
    (request : Option T)
    (hFull : ¬ r.1.workqueue.length < limit) :
    ¬ Bounded limit
      (r.1.append request,
        noteAppend r.1 (.append request) r.2) := by
  have hIn : r.1.workqueue.length ≤ r.1.maxRequests :=
    Nat.le_trans h.bound (Nat.le_of_eq hLimit.symm)
  intro hNext
  have hBound := hNext.bound
  rw [ThreadPool.append_of_room hIn] at hBound
  simp only [List.length_append, List.length_singleton]
    at hBound
  omega

/-
  Over every run of a new pool, the queue keeps to its limit
  and calls are refused at the limit, with no effect, exactly
  when each call finds fewer requests than the limit.
-/
theorem pool_bounded_iff
    {threadNumber maxRequests : Int}
    {s : ThreadPool T}
    (hNew :
      ThreadPool.new threadNumber maxRequests = some s)
    (es : List (PoolEvent T)) :
    appendMachine.Always (Bounded maxRequests.toNat)
        (s, []) es ↔
      appendMachine.StepsMeet (HasRoom maxRequests.toNat)
        (s, []) es := by
  have hInit :
      Bounded maxRequests.toNat (s, []) ∧
        s.maxRequests = maxRequests.toNat := by
    unfold ThreadPool.new at hNew
    split at hNew
    · cases hNew
    · rcases Option.some.inj hNew with rfl
      exact
        ⟨{ bound := Nat.zero_le _, obeyed := by simp }, rfl⟩
  apply Machine.always_iff_stepsMeet
    (I := fun r =>
      Bounded maxRequests.toNat r ∧
        r.1.maxRequests = maxRequests.toNat)
    (fun r h => h.1) _ _ hInit
  · intro r e r' h _ hRoom hStep
    exact h.1.step h.2 hRoom hStep
  · intro r e h _ hFull
    cases e with
    | append request =>
        exact
          ⟨_, rfl, h.1.append_at_limit h.2 request hFull⟩
    | post _ | wait _ | waitError _ | take _ | processed _ =>
        exact absurd trivial hFull

/- A queue for two requests, used by one worker. -/
theorem pool_bounded_iff_two :
    appendMachine.Always (Bounded 2)
        ((⟨2, [], 0, [], [.waiting]⟩ : ThreadPool Nat), [])
        [.append (some 7), .post 0, .wait 0, .take 0] ↔
      appendMachine.StepsMeet (HasRoom 2)
        ((⟨2, [], 0, [], [.waiting]⟩ : ThreadPool Nat), [])
        [.append (some 7), .post 0, .wait 0, .take 0] :=
  @pool_bounded_iff Nat 1 2 _ rfl _

/- A second request enters a queue for one. -/
theorem queue_outgrows_limit :
    ∃ s : ThreadPool Nat,
      ThreadPool.new 1 1 = some s ∧
        ¬ appendMachine.Always (Bounded 1) (s, [])
          [.append (some 7), .append (some 8)] := by
  refine ⟨⟨1, [], 0, [], [.waiting]⟩, rfl, ?_⟩
  intro hAll
  have hSecond :=
    (hAll.2 trivial _ rfl).2 trivial _ rfl
  have hBound := hSecond.bound
  revert hBound
  decide

end V2

end WebServer
