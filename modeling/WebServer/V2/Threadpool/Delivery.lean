import WebServer.V2.Threadpool.ThreadPool

/-
  Delivery of requests by the thread pool.

  The record of a run lists which worker took which request.
  The accepted requests are, in the order of their critical
  sections, those taken followed by those queued. The queue
  is never longer than what the semaphore, the woken workers
  and the calls before `post` stand for, so a request is
  never queued while all workers sleep and none is woken.

  Key definitions include:
    * `recordedPool`
    * `Delivers`

  Key theorems include:
    * `Balanced.step`
    * `Balanced.drains`
    * `requests_delivered`
-/

------------------------------------------------------------
-- The Record Of A Run
------------------------------------------------------------

namespace WebServer

namespace V2

variable {T : Type}

/- A request and the worker that took it. -/
structure Dequeue (T : Type) where
  worker : Nat
  request : Option T
deriving DecidableEq, Repr

namespace ThreadPool

/- What a step adds to the list of requests taken. -/
def note
    (s : ThreadPool T) :
    PoolEvent T → List (Dequeue T) → List (Dequeue T)
| .take worker, taken =>
    match s.workqueue with
    | [] => taken
    | request :: _ => taken ++ [⟨worker, request⟩]
| _, taken => taken

end ThreadPool

/- The pool with the requests taken so far. -/
def recordedPool :
    Machine (ThreadPool T × List (Dequeue T))
      (PoolEvent T) :=
  poolMachine.recording ThreadPool.note

/- The request of a call that returned true or will. -/
def AppendCall.accepted
    (c : AppendCall T) : Option (Option T) :=
  match c.pos with
  | .refused => none
  | .pushed | .posted => some c.request

def AppendCall.isPushed
    (c : AppendCall T) : Bool :=
  c.pos == .pushed

def WorkerPos.isWoken :
    WorkerPos T → Bool
| .woken => true
| _ => false

namespace ThreadPool

/- The accepted requests in append order. -/
def accepted
    (s : ThreadPool T) : List (Option T) :=
  s.calls.filterMap AppendCall.accepted

/- Calls of `append` between `push_back` and `post`. -/
def posting
    (s : ThreadPool T) : Nat :=
  s.calls.countP AppendCall.isPushed

/- Workers that passed `wait` and not yet the lock. -/
def woken
    (s : ThreadPool T) : Nat :=
  s.workers.countP WorkerPos.isWoken

end ThreadPool

/-
  Each accepted request was taken once, by one worker and in
  append order, or is still queued; the worker processes the
  request it took last. The queue is balanced, and when all
  workers wait with nothing to wake them it is empty.
-/
structure Delivers
    (r : ThreadPool T × List (Dequeue T)) : Prop where
  inOrder :
    r.1.accepted = r.2.map Dequeue.request ++ r.1.workqueue
  held :
    ∀ worker request,
      r.1.workers[worker]? = some (.processing request) →
        (r.2.filter fun d => d.worker == worker).getLast? =
          some ⟨worker, some request⟩
  balance :
    r.1.workqueue.length ≤
      r.1.queuestat + r.1.woken + r.1.posting
  notStranded :
    (∀ pos ∈ r.1.workers, pos = .waiting) →
      r.1.queuestat = 0 → r.1.posting = 0 →
        r.1.accepted = r.2.map Dequeue.request

end V2

end WebServer

------------------------------------------------------------
-- Counting Threads
------------------------------------------------------------

namespace WebServer

namespace V2

variable {T : Type}

/- One entry of a list replaced, as to a count. -/
theorem countP_set_add
    {α : Type}
    {p : α → Bool}
    {l : List α}
    {i : Nat}
    {a b : α}
    (hAt : l[i]? = some a) :
    (l.set i b).countP p + (p a).toNat =
      l.countP p + (p b).toNat := by
  induction l generalizing i with
  | nil => simp at hAt
  | cons x l ih =>
      cases i with
      | zero =>
          rcases Option.some.inj hAt with rfl
          simp only [List.set_cons_zero, List.countP_cons]
          cases p x <;> cases p b <;> simp
      | succ i =>
          have hTail := ih hAt
          simp only [List.set_cons_succ, List.countP_cons]
          omega

/- One entry replaced by another that maps to the same. -/
theorem filterMap_set_same
    {α β : Type}
    {f : α → Option β}
    {l : List α}
    {i : Nat}
    {a b : α}
    (hAt : l[i]? = some a)
    (hSame : f b = f a) :
    (l.set i b).filterMap f = l.filterMap f := by
  induction l generalizing i with
  | nil => simp at hAt
  | cons x l ih =>
      cases i with
      | zero =>
          rcases Option.some.inj hAt with rfl
          simp only [List.set_cons_zero,
            List.filterMap_cons, hSame]
      | succ i =>
          simp only [List.set_cons_succ,
            List.filterMap_cons, ih hAt]

namespace ThreadPool

variable {s : ThreadPool T}

/- Moving a worker, as to the number of woken ones. -/
theorem woken_setWorker
    {worker : Nat}
    {old : WorkerPos T}
    (new : WorkerPos T)
    (hAt : s.workers[worker]? = some old) :
    (s.setWorker worker new).woken + old.isWoken.toNat =
      s.woken + new.isWoken.toNat :=
  countP_set_add hAt

/- What a moved worker and the others do. -/
theorem workers_setWorker
    {worker other : Nat}
    {pos : WorkerPos T}
    {found : WorkerPos T}
    (hFound :
      (s.setWorker worker pos).workers[other]? =
        some found) :
    (other = worker ∧ found = pos) ∨
      (other ≠ worker ∧ s.workers[other]? = some found) := by
  change (s.workers.set worker pos)[other]? = some found
    at hFound
  rw [List.getElem?_set] at hFound
  split at hFound
  next hEq =>
    split at hFound
    · exact .inl ⟨hEq.symm, (Option.some.inj hFound).symm⟩
    · cases hFound
  next hNe => exact .inr ⟨Ne.symm hNe, hFound⟩

end ThreadPool

end V2

end WebServer

------------------------------------------------------------
-- The Invariant
------------------------------------------------------------

namespace WebServer

namespace V2

variable {T : Type}

/- What every step keeps. -/
structure Balanced
    (r : ThreadPool T × List (Dequeue T)) : Prop where
  inOrder :
    r.1.accepted = r.2.map Dequeue.request ++ r.1.workqueue
  held :
    ∀ worker request,
      r.1.workers[worker]? = some (.processing request) →
        (r.2.filter fun d => d.worker == worker).getLast? =
          some ⟨worker, some request⟩
  balance :
    r.1.workqueue.length ≤
      r.1.queuestat + r.1.woken + r.1.posting

variable {s : ThreadPool T}
variable {taken : List (Dequeue T)}

/- With all threads at rest nothing is queued. -/
theorem Balanced.queue_empty
    (h : Balanced (s, taken))
    (hWaiting : ∀ pos ∈ s.workers, pos = .waiting)
    (hStat : s.queuestat = 0)
    (hPosting : s.posting = 0) :
    s.workqueue = [] := by
  have hWoken : s.woken = 0 := by
    apply List.countP_eq_zero.mpr
    intro pos hPos
    rw [hWaiting pos hPos]
    simp [WorkerPos.isWoken]
  have hBalance := h.balance
  apply List.eq_nil_of_length_eq_zero
  simp only at hBalance
  omega

theorem Balanced.delivers
    {r : ThreadPool T × List (Dequeue T)}
    (h : Balanced r) :
    Delivers r where
  inOrder := h.inOrder
  held := h.held
  balance := h.balance
  notStranded := by
    intro hWaiting hStat hPosting
    rw [h.inOrder,
      h.queue_empty hWaiting hStat hPosting,
      List.append_nil]

/- A worker moved to where it processes nothing. -/
theorem Balanced.held_setWorker
    (h : Balanced (s, taken))
    (worker : Nat)
    {pos : WorkerPos T}
    (hIdle : ∀ request, pos ≠ .processing request) :
    ∀ other request,
      (s.setWorker worker pos).workers[other]? =
          some (.processing request) →
        (taken.filter fun d => d.worker == other).getLast? =
          some ⟨other, some request⟩ := by
  intro other request hAt
  rcases ThreadPool.workers_setWorker hAt with
    ⟨_, hPos⟩ | ⟨_, hOld⟩
  · exact absurd hPos.symm (hIdle request)
  · exact h.held other request hOld

/- `append` queues what it accepts, with a post to come. -/
theorem Balanced.append
    (h : Balanced (s, taken))
    (request : Option T) :
    Balanced (s.append request, taken) := by
  unfold ThreadPool.append
  split
  · refine
      { inOrder := ?_, held := h.held, balance := ?_ }
    · have hOrder := h.inOrder
      simp only [ThreadPool.accepted] at hOrder ⊢
      rw [List.filterMap_append, hOrder]
      exact List.append_nil _
    · have hBalance := h.balance
      simpa [ThreadPool.posting, ThreadPool.woken,
        AppendCall.isPushed] using hBalance
  · refine
      { inOrder := ?_, held := h.held, balance := ?_ }
    · have hOrder := h.inOrder
      simp only [ThreadPool.accepted] at hOrder ⊢
      rw [List.filterMap_append, hOrder, List.append_assoc]
      rfl
    · have hBalance := h.balance
      simp only [ThreadPool.posting, ThreadPool.woken,
        List.length_append, List.countP_append,
        List.countP_singleton, AppendCall.isPushed]
        at hBalance ⊢
      simp
      omega

/- `post` turns a call into a unit of the semaphore. -/
theorem Balanced.post
    (h : Balanced (s, taken))
    {call : Nat}
    (hPushed :
      (s.calls[call]?).map AppendCall.pos = some .pushed) :
    ∃ t, s.post call = some t ∧ Balanced (t, taken) := by
  rcases Option.map_eq_some_iff.mp hPushed with
    ⟨c, hCall, hPos⟩
  refine
    ⟨_, by
      simp only [ThreadPool.post, hCall,
        Option.bind_eq_bind, Option.bind_some]
      rfl, ?_⟩
  refine { inOrder := ?_, held := h.held, balance := ?_ }
  · have hOrder := h.inOrder
    have hSame :
        ({ c with pos := .posted } : AppendCall T).accepted =
          c.accepted := by
      simp [AppendCall.accepted, hPos]
    simpa only [ThreadPool.accepted,
      filterMap_set_same hCall hSame] using hOrder
  · have hBalance := h.balance
    have hCount :=
      countP_set_add (p := AppendCall.isPushed)
        (b := { c with pos := .posted }) hCall
    simp only [AppendCall.isPushed, hPos, beq_self_eq_true,
      Bool.toNat_true] at hCount
    simp only [ThreadPool.posting, ThreadPool.woken]
      at hBalance ⊢
    have hDone :
        (AppendPos.posted == AppendPos.pushed).toNat = 0 :=
      rfl
    omega

/- A worker passes the wait. -/
theorem Balanced.wait
    (h : Balanced (s, taken))
    {worker : Nat}
    (hWaiting : s.workers[worker]? = some .waiting) :
    Balanced (s.wait worker, taken) := by
  refine
    { inOrder := h.inOrder
      held := h.held_setWorker worker (by simp)
      balance := ?_ }
  have hBalance := h.balance
  have hWoken := ThreadPool.woken_setWorker .woken hWaiting
  simp only [ThreadPool.wait, ThreadPool.posting,
    ThreadPool.woken, ThreadPool.setWorker,
    WorkerPos.isWoken, Bool.toNat_true, Bool.toNat_false]
    at hBalance hWoken ⊢
  omega

/- A wait that fails leaves the semaphore alone. -/
theorem Balanced.waitError
    (h : Balanced (s, taken))
    {worker : Nat}
    (hWaiting : s.workers[worker]? = some .waiting) :
    Balanced (s.waitError worker, taken) := by
  refine
    { inOrder := h.inOrder
      held := h.held_setWorker worker (by simp)
      balance := ?_ }
  have hBalance := h.balance
  have hWoken := ThreadPool.woken_setWorker .woken hWaiting
  simp only [ThreadPool.waitError, ThreadPool.posting,
    ThreadPool.woken, ThreadPool.setWorker,
    WorkerPos.isWoken, Bool.toNat_true, Bool.toNat_false]
    at hBalance hWoken ⊢
  omega

/- A woken worker takes the oldest request, if any. -/
theorem Balanced.take
    (h : Balanced (s, taken))
    {worker : Nat}
    (hWoken : s.workers[worker]? = some .woken) :
    Balanced
      (s.take worker, s.note (.take worker) taken) := by
  have hBalance := h.balance
  unfold ThreadPool.take ThreadPool.note
  cases hQueue : s.workqueue with
  | nil =>
      have hCount :=
        ThreadPool.woken_setWorker .waiting hWoken
      refine
        { inOrder := h.inOrder
          held := h.held_setWorker worker (by simp)
          balance := ?_ }
      simp [ThreadPool.setWorker, hQueue]
  | cons request rest =>
      have hCount :=
        ThreadPool.woken_setWorker (ThreadPool.goOn request)
          hWoken
      refine { inOrder := ?_, held := ?_, balance := ?_ }
      · have hOrder := h.inOrder
        simp only [hQueue] at hOrder
        simpa [ThreadPool.accepted, ThreadPool.setWorker]
          using hOrder
      · intro other found hAt
        rcases ThreadPool.workers_setWorker hAt with
          ⟨rfl, hPos⟩ | ⟨hNe, hOld⟩
        · cases request with
          | none => cases hPos
          | some request =>
              cases hPos
              simp
        · simpa [Ne.symm hNe] using h.held other found hOld
      · simp only [hQueue, List.length_cons,
          ThreadPool.posting, ThreadPool.woken,
          ThreadPool.setWorker, WorkerPos.isWoken,
          Bool.toNat_true] at hBalance hCount ⊢
        omega

/- A worker done with its request waits again. -/
theorem Balanced.processed
    (h : Balanced (s, taken))
    {worker : Nat}
    {request : T}
    (hAt :
      s.workers[worker]? = some (.processing request)) :
    Balanced (s.processed worker, taken) := by
  refine
    { inOrder := h.inOrder
      held := h.held_setWorker worker (by simp)
      balance := ?_ }
  have hBalance := h.balance
  have hWoken := ThreadPool.woken_setWorker .waiting hAt
  simp only [ThreadPool.processed, ThreadPool.posting,
    ThreadPool.woken, ThreadPool.setWorker,
    WorkerPos.isWoken, Bool.toNat_false]
    at hBalance hWoken ⊢
  omega

end V2

end WebServer

------------------------------------------------------------
-- All Interleavings
------------------------------------------------------------

namespace WebServer

namespace V2

variable {T : Type}
variable {s : ThreadPool T}

/- Every step of a thread keeps the balance. -/
theorem Balanced.step
    (r : ThreadPool T × List (Dequeue T))
    (e : PoolEvent T)
    (h : Balanced r)
    (hEnabled : recordedPool.enabled r e) :
    ∃ t, recordedPool.step r e = some t ∧ Balanced t := by
  rcases r with ⟨s, taken⟩
  cases e with
  | append request => exact ⟨_, rfl, h.append request⟩
  | post call =>
      rcases h.post hEnabled with ⟨t, hStep, hNext⟩
      exact
        ⟨(t, taken), Machine.recording_step_some hStep,
          hNext⟩
  | wait worker => exact ⟨_, rfl, h.wait hEnabled.1⟩
  | waitError worker =>
      exact ⟨_, rfl, h.waitError hEnabled⟩
  | take worker => exact ⟨_, rfl, h.take hEnabled⟩
  | processed worker =>
      rcases hEnabled with ⟨request, hAt⟩
      exact ⟨_, rfl, h.processed hAt⟩

/- A new pool has no request. -/
theorem balanced_new
    {threadNumber maxRequests : Int}
    (hNew :
      ThreadPool.new threadNumber maxRequests = some s) :
    Balanced (s, []) := by
  unfold ThreadPool.new at hNew
  split at hNew
  · cases hNew
  · rcases Option.some.inj hNew with rfl
    refine
      { inOrder := rfl
        held := ?_
        balance := Nat.zero_le _ }
    intro worker request hAt
    have hMem := List.mem_of_getElem? hAt
    cases List.eq_of_mem_replicate hMem

end V2

end WebServer

------------------------------------------------------------
-- Draining The Queue
------------------------------------------------------------

namespace WebServer

namespace V2

variable {T : Type}

/- Steps of the threads in the pool, without new calls. -/
def PoolEvent.goesOn :
    PoolEvent T → Bool
| .append _ => false
| .waitError _ => false
| _ => true

def WorkerPos.isProcessing :
    WorkerPos T → Bool
| .processing _ => true
| _ => false

namespace ThreadPool

/- Workers inside `process()`. -/
def processing
    (s : ThreadPool T) : Nat :=
  s.workers.countP WorkerPos.isProcessing

/- At most how many steps go on without new calls. -/
def stepsLeft
    (s : ThreadPool T) : Nat :=
  3 * s.posting + 2 * s.queuestat + s.woken +
    s.processing + 2 * s.workqueue.length

variable {s t : ThreadPool T}

/- Moving a worker, as to the number inside `process()`. -/
theorem processing_setWorker
    {worker : Nat}
    {old : WorkerPos T}
    (new : WorkerPos T)
    (hAt : s.workers[worker]? = some old) :
    (s.setWorker worker new).processing +
        old.isProcessing.toNat =
      s.processing + new.isProcessing.toNat :=
  countP_set_add hAt

/- Each step that goes on is one of those left. -/
theorem stepsLeft_lt
    {e : PoolEvent T}
    (hEnabled : s.enabled e)
    (hGoesOn : e.goesOn = true)
    (hStep : s.step e = some t) :
    t.stepsLeft < s.stepsLeft := by
  cases e with
  | append request => cases hGoesOn
  | waitError worker => cases hGoesOn
  | post call =>
      rcases Option.map_eq_some_iff.mp hEnabled with
        ⟨c, hCall, hPos⟩
      simp only [step, post, hCall, Option.bind_eq_bind,
        Option.bind_some, Option.some.injEq] at hStep
      subst hStep
      have hCount :=
        countP_set_add (p := AppendCall.isPushed)
          (b := { c with pos := .posted }) hCall
      simp only [AppendCall.isPushed, hPos,
        beq_self_eq_true, Bool.toNat_true] at hCount
      have hDone :
          (AppendPos.posted == AppendPos.pushed).toNat = 0 :=
        rfl
      simp only [stepsLeft, posting, woken, processing]
      omega
  | wait worker =>
      rcases hEnabled with ⟨hAt, hPositive⟩
      rcases Option.some.inj hStep with rfl
      have hWoken := woken_setWorker .woken hAt
      have hBusy := processing_setWorker .woken hAt
      simp only [wait, stepsLeft, posting, woken,
        processing, setWorker, WorkerPos.isWoken,
        WorkerPos.isProcessing, Bool.toNat_true,
        Bool.toNat_false] at hWoken hBusy ⊢
      omega
  | take worker =>
      rcases Option.some.inj hStep with rfl
      unfold take
      cases hQueue : s.workqueue with
      | nil =>
          have hWoken := woken_setWorker .waiting hEnabled
          have hBusy :=
            processing_setWorker .waiting hEnabled
          simp only [stepsLeft, posting, woken,
            processing, setWorker, WorkerPos.isWoken,
            WorkerPos.isProcessing, Bool.toNat_true,
            Bool.toNat_false, hQueue] at hWoken hBusy ⊢
          omega
      | cons request rest =>
          have hWoken :=
            woken_setWorker (goOn request) hEnabled
          have hBusy :=
            processing_setWorker (goOn request) hEnabled
          have hSleeps :
              (goOn request).isWoken.toNat = 0 := by
            cases request <;> rfl
          have hOne :
              (goOn request).isProcessing.toNat ≤ 1 :=
            Bool.toNat_le _
          simp only [stepsLeft, posting, woken,
            processing, setWorker, WorkerPos.isWoken,
            WorkerPos.isProcessing, Bool.toNat_true,
            Bool.toNat_false, hQueue, List.length_cons]
            at hWoken hBusy hSleeps hOne ⊢
          omega
  | processed worker =>
      rcases hEnabled with ⟨request, hAt⟩
      rcases Option.some.inj hStep with rfl
      have hWoken := woken_setWorker .waiting hAt
      have hBusy := processing_setWorker .waiting hAt
      simp only [processed, stepsLeft, posting, woken,
        processing, setWorker, WorkerPos.isWoken,
        WorkerPos.isProcessing, Bool.toNat_true,
        Bool.toNat_false] at hWoken hBusy ⊢
      omega

/- Nothing is on its way in a pool whose threads rest. -/
theorem rests_of_no_step
    (hWorkers : s.workers ≠ [])
    (hNone :
      ∀ e : PoolEvent T, e.goesOn = true → ¬ s.enabled e) :
    s.posting = 0 ∧ s.queuestat = 0 ∧
      ∀ pos ∈ s.workers, pos = .waiting := by
  have hWaiting : ∀ pos ∈ s.workers, pos = .waiting := by
    intro pos hPos
    rcases List.getElem?_of_mem hPos with ⟨worker, hAt⟩
    cases pos with
    | waiting => rfl
    | woken =>
        exact absurd hAt (hNone (.take worker) rfl)
    | processing request =>
        exact
          absurd ⟨request, hAt⟩
            (hNone (.processed worker) rfl)
  refine ⟨?_, ?_, hWaiting⟩
  · apply List.countP_eq_zero.mpr
    intro c hCall hPushed
    rcases List.getElem?_of_mem hCall with ⟨call, hAt⟩
    apply hNone (.post call) rfl
    change (s.calls[call]?).map AppendCall.pos = _
    rw [hAt]
    exact congrArg some (eq_of_beq hPushed)
  · rcases List.exists_mem_of_ne_nil _ hWorkers with
      ⟨pos, hPos⟩
    rcases List.getElem?_of_mem hPos with ⟨worker, hAt⟩
    rw [hWaiting pos hPos] at hAt
    apply Nat.eq_zero_of_not_pos
    intro hPositive
    exact hNone (.wait worker) rfl ⟨hAt, hPositive⟩

/- Only `append` changes which requests were accepted. -/
theorem accepted_of_goesOn
    {e : PoolEvent T}
    (hEnabled : s.enabled e)
    (hGoesOn : e.goesOn = true)
    (hStep : s.step e = some t) :
    t.accepted = s.accepted ∧
      t.workers.length = s.workers.length := by
  cases e with
  | append request => cases hGoesOn
  | waitError worker => cases hGoesOn
  | post call =>
      rcases Option.map_eq_some_iff.mp hEnabled with
        ⟨c, hCall, hPos⟩
      simp only [step, post, hCall, Option.bind_eq_bind,
        Option.bind_some, Option.some.injEq] at hStep
      subst hStep
      have hSame :
          ({ c with pos := .posted } :
              AppendCall T).accepted =
            c.accepted := by
        simp [AppendCall.accepted, hPos]
      exact ⟨filterMap_set_same hCall hSame, rfl⟩
  | wait worker =>
      rcases Option.some.inj hStep with rfl
      exact ⟨rfl, List.length_set⟩
  | take worker =>
      rcases Option.some.inj hStep with rfl
      unfold take
      split
      · exact ⟨rfl, List.length_set⟩
      · exact ⟨rfl, List.length_set⟩
  | processed worker =>
      rcases Option.some.inj hStep with rfl
      exact ⟨rfl, List.length_set⟩

end ThreadPool

/-
  The threads of the pool go on until every accepted request
  is taken.
-/
theorem Balanced.drains
    (r : ThreadPool T × List (Dequeue T))
    (h : Balanced r)
    (hWorkers : r.1.workers ≠ []) :
    ∃ es r',
      (∀ e ∈ es, e.goesOn = true) ∧
        recordedPool.Reaches r es r' ∧
          r'.2.map Dequeue.request = r.1.accepted := by
  -- on the steps that are left
  induction hLeft : r.1.stepsLeft using Nat.strongRecOn
    generalizing r with
  | ind left ih =>
      by_cases hMore :
          ∃ e : PoolEvent T,
            e.goesOn = true ∧ r.1.enabled e
      · rcases hMore with ⟨e, hGoesOn, hEnabled⟩
        rcases h.step r e hEnabled with ⟨t, hStep, hNext⟩
        rcases Option.map_eq_some_iff.mp hStep with
          ⟨u, hPool, rfl⟩
        have hLess :=
          ThreadPool.stepsLeft_lt hEnabled hGoesOn hPool
        rcases ThreadPool.accepted_of_goesOn hEnabled
          hGoesOn hPool with ⟨hAccepted, hLength⟩
        have hStill : u.workers ≠ [] := by
          rw [← List.length_pos_iff] at hWorkers ⊢
          omega
        rcases ih u.stepsLeft (by omega) _ hNext hStill
          rfl with ⟨es, r', hAll, hReach, hTaken⟩
        refine ⟨e :: es, r', ?_, ?_, ?_⟩
        · intro e' hMem
          rcases List.mem_cons.mp hMem with rfl | hMem
          · exact hGoesOn
          · exact hAll e' hMem
        · exact .cons hEnabled hStep hReach
        · rw [hTaken, hAccepted]
      · rcases ThreadPool.rests_of_no_step hWorkers
          (fun e hGoesOn hOn =>
            hMore ⟨e, hGoesOn, hOn⟩) with
            ⟨hPosting, hStat, hWaiting⟩
        refine
          ⟨[], r, fun _ hMem => absurd hMem List.not_mem_nil,
            .nil r, ?_⟩
        exact
          (h.delivers.notStranded hWaiting hStat
            hPosting).symm

end V2

end WebServer

------------------------------------------------------------
-- Delivery
------------------------------------------------------------

namespace WebServer

namespace V2

variable {T : Type}
variable {s : ThreadPool T}

/- The workers of the constructor stay. -/
theorem workers_ne_nil
    {threadNumber maxRequests : Int}
    (hNew :
      ThreadPool.new threadNumber maxRequests = some s)
    {es : List (PoolEvent T)}
    {t : ThreadPool T}
    (hReach : poolMachine.Reaches s es t) :
    t.workers ≠ [] := by
  refine
    Machine.Reaches.invariant
      (I := fun u : ThreadPool T => u.workers ≠ []) ?_ ?_
        hReach
  · intro u e v hOld _ hStep
    cases e with
    | append request =>
        rcases Option.some.inj hStep with rfl
        simp only [ThreadPool.append]
        split <;> exact hOld
    | post call =>
        rcases Option.bind_eq_some_iff.mp hStep with
          ⟨c, _, hSome⟩
        rcases Option.some.inj hSome with rfl
        exact hOld
    | take worker =>
        rcases Option.some.inj hStep with rfl
        simp only [ThreadPool.take]
        split <;>
          simpa [ThreadPool.setWorker] using hOld
    | _ =>
        rcases Option.some.inj hStep with rfl
        simpa [ThreadPool.wait, ThreadPool.waitError,
          ThreadPool.processed, ThreadPool.setWorker]
          using hOld
  · unfold ThreadPool.new at hNew
    split at hNew
    · cases hNew
    next hCounts =>
      rcases Option.some.inj hNew with rfl
      have hSome : threadNumber.toNat ≠ 0 := by omega
      simpa using hSome

/-
  Over every interleaving of `append` calls with the workers
  of a pool, each accepted request is taken once and in
  order or still queued, and none is stranded; the threads
  can always go on until all are taken.
-/
theorem requests_delivered
    {threadNumber maxRequests : Int}
    (hNew :
      ThreadPool.new threadNumber maxRequests = some s)
    (es : List (PoolEvent T)) :
    recordedPool.Throughout Delivers (s, []) es ∧
      ∀ r, recordedPool.Reaches (s, []) es r →
        ∃ es' r',
          (∀ e ∈ es', e.goesOn = true) ∧
            recordedPool.Reaches r es' r' ∧
              r'.2.map Dequeue.request = r.1.accepted := by
  have hBalanced :=
    Machine.throughout_of_preserved Balanced.step
      (balanced_new hNew) es
  refine ⟨hBalanced.mono fun _ h => h.delivers, ?_⟩
  intro r hReach
  exact
    (hBalanced.reached hReach).drains r
      (workers_ne_nil hNew hReach.of_recording)

/- Two workers, one null request and one that is not. -/
theorem requests_delivered_two_workers :
    ∃ s : ThreadPool Nat,
      ThreadPool.new 2 1 = some s ∧
        recordedPool.Throughout Delivers (s, [])
          [.append (some 5), .waitError 0, .append none,
            .take 0, .post 1, .post 0, .wait 1, .take 1] :=
  ⟨_, rfl, (@requests_delivered Nat _ 2 1 rfl _).1⟩

end V2

end WebServer
