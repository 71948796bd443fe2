import WebServer.V2.ConnectionTimers
import WebServer.V2.MainLoop
import WebServer.V2.Threadpool.Delivery

/-
  Who has a connection of the version 2.0 server.

  An open connection is armed in epoll, or queued for the
  workers, or with the main thread, or with one worker, and
  each step hands it on. Two steps can lose this: `append`
  may refuse a connection, and `accept` may return a
  descriptor while an earlier connection of that number is
  still queued or with a worker. No other step does.

  Key definitions include:
    * `ThreadPool.holds`
    * `Serving.places`
    * `Serving.OnePlace`
    * `Serving.HandsOver`
    * `Serving.Held`

  Key theorems include:
    * `Serving.Held.step`
    * `Serving.Held.step_loses`
    * `connections_handed_over_iff`
    * `full_queue_strands`
-/

------------------------------------------------------------
-- Places
------------------------------------------------------------

namespace WebServer

namespace V2

/- How often a request is queued or with a worker. -/
def ThreadPool.holds
    {T : Type}
    [DecidableEq T]
    (s : ThreadPool T)
    (request : T) : Nat :=
  s.workqueue.count (some request) +
    s.workers.count (.processing request)

namespace Serving

/-
  How often the main thread has the connection: reported, or
  about to be closed without being armed. A handler that has
  called `modfd` or `append` has handed it on.
-/
def mainHas
    (st : Serving)
    (fd : Fd) : Nat :=
  (st.events.map Report.fd).count (some fd) +
    if st.pos = .closing fd false then 1 else 0

/- 1 if the connection is armed in epoll. -/
def armed
    (st : Serving)
    (fd : Fd) : Nat :=
  if (st.interest fd).isSome then 1 else 0

/- In how many places the connection is. -/
def places
    (st : Serving)
    (fd : Fd) : Nat :=
  st.armed fd + st.mainHas fd + st.pool.holds fd

/- Each open connection is in exactly one place. -/
def OnePlace
    (st : Serving) : Prop :=
  ∀ fd, (st.server.conns fd).isSome → st.places fd = 1

/-
  A report is handed on: `append` finds the queue no longer
  than its limit, and `accept` returns no descriptor that is
  still queued or with a worker, unless the connection is
  turned away.
-/
def Passes
    (st : Serving)
    (a : Answers) :
    Report → Prop
| .listen =>
    (maxFd : Int) ≤ st.server.userCount ∨
      st.pool.holds a.accepted = 0
| .conn _ ev =>
    (ev.hangsUp = false ∧ ev.epollIn = true ∧
        a.read = true) →
      st.pool.workqueue.length ≤ st.pool.maxRequests

/- Only handling a report can lose a connection. -/
def HandsOver
    (st : Serving) :
    ServingEvent → Prop
| .handle a => ∀ r ∈ st.events.head?, st.Passes a r
| _ => True

instance
    (st : Serving)
    (a : Answers) :
    DecidablePred (st.Passes a)
| .listen => inferInstanceAs (Decidable (_ ∨ _))
| .conn _ _ => inferInstanceAs (Decidable (_ → _))

instance
    (st : Serving) :
    ∀ e, Decidable (st.HandsOver e)
| .handle a =>
    inferInstanceAs
      (Decidable (∀ r ∈ st.events.head?, st.Passes a r))
| .epollWait _ => isTrue trivial
| .goOn _ => isTrue trivial
| .tick _ => isTrue trivial
| .wait _ => isTrue trivial
| .waitError _ => isTrue trivial
| .take _ => isTrue trivial
| .process _ _ _ => isTrue trivial
| .endClose _ => isTrue trivial

end Serving

end V2

end WebServer

------------------------------------------------------------
-- The Pool's Part
------------------------------------------------------------

namespace WebServer

namespace V2

namespace ThreadPool

variable {T : Type}
variable {s : ThreadPool T}

theorem requestOf_eq_some
    {worker : Nat}
    {request : T} :
    s.requestOf worker = some request ↔
      s.workers[worker]? = some (.processing request) := by
  unfold requestOf
  split
  next found hAt =>
    rw [hAt, Option.some_inj, Option.some_inj,
      WorkerPos.processing.injEq]
  next hNot =>
    constructor
    · intro hNone
      cases hNone
    · intro hAt
      exact absurd hAt (hNot request)

/- Moving one worker leaves the others where they are. -/
theorem requestOf_setWorker
    {worker other : Nat}
    (pos : WorkerPos T)
    (hOther : other ≠ worker) :
    (s.setWorker worker pos).requestOf other =
      s.requestOf other := by
  have hSame :
      (s.setWorker worker pos).workers[other]? =
        s.workers[other]? :=
    List.getElem?_set_ne hOther.symm
  unfold requestOf
  rw [hSame]

/- The end of `append` moves no request. -/
theorem finishAppend_frame
    {t : ThreadPool T}
    (hStep : s.finishAppend = some t) :
    t.workqueue = s.workqueue ∧ t.workers = s.workers ∧
      t.maxRequests = s.maxRequests := by
  unfold finishAppend at hStep
  split at hStep
  · rcases Option.bind_eq_some_iff.mp hStep with
      ⟨call, _, hSome⟩
    rcases Option.some.inj hSome with rfl
    exact ⟨rfl, rfl, rfl⟩
  · rcases Option.some.inj hStep with rfl
    exact ⟨rfl, rfl, rfl⟩

/- A call of `append` comes to its end. -/
theorem exists_finishAppend
    (s : ThreadPool T) :
    ∃ t, s.finishAppend = some t := by
  unfold finishAppend
  split
  next request hLast =>
    rw [List.getLast?_eq_getElem?] at hLast
    unfold post
    rw [hLast]
    exact ⟨_, rfl⟩
  · exact ⟨_, rfl⟩

variable [DecidableEq T]

/- A worker that is moved, as to one request. -/
theorem count_setWorker
    {worker : Nat}
    {old : WorkerPos T}
    (new : WorkerPos T)
    (request : T)
    (hAt : s.workers[worker]? = some old) :
    (s.setWorker worker new).workers.count
          (.processing request) +
        (if old = .processing request then 1 else 0) =
      s.workers.count (.processing request) +
        if new = .processing request then 1 else 0 := by
  have hSet :
      (s.workers.set worker new).countP
            (· == .processing request) +
          (old == .processing request).toNat =
        s.workers.countP (· == .processing request) +
          (new == .processing request).toNat :=
    countP_set_add hAt
  simpa [Bool.toNat, Bool.cond_eq_ite, List.count,
    setWorker] using hSet

theorem holds_append
    {request : T}
    (hRoom : s.workqueue.length ≤ s.maxRequests)
    (other : T) :
    (s.append (some request)).holds other =
      s.holds other + if request = other then 1 else 0 := by
  unfold append holds
  rw [if_neg (Nat.not_lt.mpr hRoom), List.count_append,
    List.count_singleton]
  simp only [Option.some_beq_some, beq_iff_eq]
  omega

theorem holds_append_refused
    {request : T}
    (hFull : s.maxRequests < s.workqueue.length)
    (other : T) :
    (s.append (some request)).holds other =
      s.holds other := by
  unfold append holds
  rw [if_pos hFull]

/- A worker that is moved without a request. -/
theorem holds_setWorker
    {worker : Nat}
    {old new : WorkerPos T}
    {request : T}
    (hAt : s.workers[worker]? = some old)
    (hOld : old ≠ .processing request)
    (hNew : new ≠ .processing request) :
    (s.setWorker worker new).holds request =
      s.holds request := by
  have hCount := count_setWorker new request hAt
  rw [if_neg hOld, if_neg hNew] at hCount
  exact congrArg (s.workqueue.count (some request) + ·) hCount

theorem holds_wait
    {worker : Nat}
    (hAt : s.workers[worker]? = some .waiting)
    (request : T) :
    (s.wait worker).holds request = s.holds request := by
  have hMoved :
      (s.setWorker worker .woken).holds request =
        s.holds request :=
    holds_setWorker hAt (by simp) (by simp)
  exact hMoved

/- What a worker takes it holds. -/
theorem holds_take
    {worker : Nat}
    (hAt : s.workers[worker]? = some .woken)
    (request : T) :
    (s.take worker).holds request = s.holds request := by
  unfold take
  split
  next hEmpty =>
    exact holds_setWorker hAt (by simp) (by simp)
  next head rest hQueue =>
    have hCount := count_setWorker (goOn head) request hAt
    have hHead :
        (goOn head = .processing request) =
          (head = some request) := by
      cases head <;> simp [goOn]
    simp only [hHead, reduceCtorEq, if_false] at hCount
    unfold holds
    rw [hQueue, List.count_cons]
    simp only [beq_iff_eq]
    change
      rest.count (some request) +
          (s.setWorker worker (goOn head)).workers.count
            (.processing request) = _
    omega

/- A request that is processed is held no more. -/
theorem holds_processed
    {worker : Nat}
    {request : T}
    (hAt : s.requestOf worker = some request)
    (other : T) :
    (s.processed worker).holds other +
        (if request = other then 1 else 0) =
      s.holds other := by
  have hCount :=
    count_setWorker .waiting other
      (requestOf_eq_some.mp hAt)
  simp only [WorkerPos.processing.injEq, reduceCtorEq,
    if_false] at hCount
  change
    s.workqueue.count (some other) +
          (s.setWorker worker .waiting).workers.count
            (.processing other) + _ = _
  unfold holds
  omega

theorem holds_of_requestOf
    {worker : Nat}
    {request : T}
    (hAt : s.requestOf worker = some request) :
    0 < s.holds request := by
  have hSame := holds_processed hAt request
  rw [if_pos rfl] at hSame
  omega

end ThreadPool

end V2

end WebServer

------------------------------------------------------------
-- The Invariant
------------------------------------------------------------

namespace WebServer

namespace V2

namespace Serving

/-
  What every step keeps. In the middle of a step the
  connection `hand` is in no place: the running handler or
  worker is about to hand it on.
-/
structure Held
    (st : Serving)
    (hand : Option Fd) : Prop where
  users :
    ∀ fd, (st.server.conns fd).isSome →
      st.server.users fd = some fd
  own :
    ∀ fd sockfd, st.server.users fd = some sockfd →
      sockfd = fd
  one :
    ∀ fd, (st.server.conns fd).isSome →
      st.places fd + (if hand = some fd then 1 else 0) = 1
  shut :
    ∀ fd, st.server.conns fd = none →
      st.interest fd = none ∧ st.mainHas fd = 0
  halfClosed :
    ∀ worker ∈ st.halfClosed, ∃ fd,
      st.pool.requestOf worker = some fd ∧
        st.server.conns fd = none
  closing :
    ∀ fd, st.pos = .closing fd true →
      (st.server.conns fd).isSome → (st.interest fd).isSome
  reported :
    ∀ fd ev, Report.conn fd ev ∈ st.events →
      (ev.hangsUp || ev.epollIn || ev.epollOut) = true

theorem held_init :
    init.Held none where
  users := by
    intro fd hOpen
    cases hOpen
  own := by
    intro fd sockfd hUser
    cases hUser
  one := by
    intro fd hOpen
    cases hOpen
  shut := by
    intro fd _
    exact ⟨rfl, rfl⟩
  halfClosed := by
    intro worker hMem
    cases hMem
  closing := by
    intro fd hPos
    cases hPos
  reported := by
    intro fd ev hMem
    cases hMem

variable {st : Serving}
variable {hand hand' : Option Fd}
variable {fd : Fd}

theorem Held.onePlace
    (h : st.Held none) :
    st.OnePlace :=
  h.one

theorem Held.open_of_mainHas
    (h : st.Held hand)
    (hMain : 0 < st.mainHas fd) :
    (st.server.conns fd).isSome := by
  cases hConn : st.server.conns fd with
  | some c => rfl
  | none =>
      have hNone := (h.shut fd hConn).2
      omega

/- What is about to be handed on is in no place. -/
theorem Held.hand_apart
    (h : st.Held (some fd))
    (hOpen : (st.server.conns fd).isSome) :
    st.interest fd = none ∧ st.mainHas fd = 0 ∧
      st.pool.holds fd = 0 := by
  have hOne := h.one fd hOpen
  rw [if_pos rfl] at hOne
  unfold places armed at hOne
  refine ⟨?_, by omega, by omega⟩
  cases hInterest : st.interest fd with
  | none => rfl
  | some interest =>
      rw [hInterest, Option.isSome_some, if_pos rfl] at hOne
      omega

/- A closed connection need not be handed on. -/
theorem Held.drop
    (h : st.Held (some fd))
    (hClosed : st.server.conns fd = none) :
    st.Held none :=
  { h with
    one := by
      intro other hOpen
      have hOne := h.one other hOpen
      have hNe : (some fd : Option Fd) ≠ some other := by
        rintro ⟨⟩
        rw [hClosed] at hOpen
        cases hOpen
      rw [if_neg hNe] at hOne
      rw [if_neg (by simp)]
      exact hOne }

/- The server may close connections that nobody handles. -/
theorem Held.serve
    {t : ServerState}
    (h : st.Held hand)
    (hConns :
      ∀ fd,
        t.conns fd = st.server.conns fd ∨ t.conns fd = none)
    (hUsers :
      ∀ fd,
        t.users fd = st.server.users fd ∨
          t.users fd = none ∧ t.conns fd = none)
    (hMain : ∀ fd, t.conns fd = none → st.mainHas fd = 0) :
    (st.serve t).Held hand := by
  have hOld : ∀ {fd}, (t.conns fd).isSome →
      (st.server.conns fd).isSome := by
    intro fd hOpen
    rcases hConns fd with hSame | hNone
    · rw [← hSame]
      exact hOpen
    · rw [hNone] at hOpen
      cases hOpen
  have hKept : ∀ {fd}, (t.conns fd).isSome →
      (st.serve t).interest fd = st.interest fd := by
    intro fd hOpen
    exact if_pos hOpen
  exact
    { users := by
        intro fd hOpen
        rcases hUsers fd with hSame | ⟨_, hNone⟩
        · exact hSame.trans (h.users fd (hOld hOpen))
        · have hOpen' : (t.conns fd).isSome := hOpen
          rw [hNone] at hOpen'
          cases hOpen'
      own := by
        intro fd sockfd hUser
        have hUser' : t.users fd = some sockfd := hUser
        rcases hUsers fd with hSame | ⟨hNone, _⟩
        · exact h.own fd sockfd (hSame.symm.trans hUser')
        · rw [hNone] at hUser'
          cases hUser'
      one := by
        intro fd hOpen
        have hOne := h.one fd (hOld hOpen)
        unfold places armed at hOne ⊢
        rw [hKept hOpen]
        exact hOne
      shut := by
        intro fd hNone
        have hNone' : t.conns fd = none := hNone
        refine ⟨?_, hMain fd hNone⟩
        show (if (t.conns fd).isSome then _ else _) = _
        rw [hNone']
        rfl
      halfClosed := by
        intro worker hMem
        rcases h.halfClosed worker hMem with
          ⟨fd, hRequest, hNone⟩
        refine ⟨fd, hRequest, ?_⟩
        rcases hConns fd with hSame | hNone'
        · exact hSame.trans hNone
        · exact hNone'
      closing := by
        intro fd hPos hOpen
        rw [hKept hOpen]
        exact h.closing fd hPos (hOld hOpen)
      reported := h.reported }

/- What `modfd` does to an open connection. -/
theorem modfd_open
    (hOpen : (st.server.conns fd).isSome)
    (ev : Interest) :
    st.modfd (some fd) ev =
      { st with
        interest :=
          Function.update st.interest fd (some ev) } :=
  if_pos hOpen

theorem modfd_closed
    (hClosed : st.server.conns fd = none)
    (ev : Interest) :
    st.modfd (some fd) ev = st := by
  refine if_neg ?_
  rw [hClosed]
  exact Bool.noConfusion

theorem armed_update
    (st : Serving)
    (fd : Fd)
    (ev : Interest)
    (other : Fd) :
    ({ st with
        interest :=
          Function.update st.interest fd
            (some ev) } : Serving).armed other =
      if other = fd then 1 else st.armed other := by
  unfold armed
  change
    (if (Function.update st.interest fd (some ev)
        other).isSome then 1 else 0) = _
  by_cases hSame : other = fd
  · rw [hSame, Function.update_self, if_pos rfl]
    rfl
  · rw [Function.update_of_ne hSame, if_neg hSame]

/- Arming hands the connection on to epoll. -/
theorem Held.modfd
    (h : st.Held (some fd))
    (hOpen : (st.server.conns fd).isSome)
    (ev : Interest) :
    (st.modfd (some fd) ev).Held none := by
  have hApart := h.hand_apart hOpen
  rw [modfd_open hOpen]
  exact
    { users := h.users
      own := h.own
      one := by
        intro other hOpen'
        have hOne := h.one other hOpen'
        unfold places at hOne ⊢
        rw [armed_update]
        change
          (if other = fd then 1 else st.armed other) +
                st.mainHas other +
              st.pool.holds other + 0 =
            1
        by_cases hSame : other = fd
        · subst hSame
          rw [if_pos rfl, hApart.2.1, hApart.2.2]
        · rw [if_neg hSame]
          have hNe : (some fd : Option Fd) ≠ some other := by
            rintro ⟨⟩
            exact hSame rfl
          rw [if_neg hNe] at hOne
          exact hOne
      shut := by
        intro other hNone
        have hNe : other ≠ fd := by
          rintro rfl
          have hNone' : st.server.conns other = none := hNone
          rw [hNone'] at hOpen
          cases hOpen
        refine ⟨?_, (h.shut other hNone).2⟩
        show Function.update st.interest fd (some ev) other = _
        rw [Function.update_of_ne hNe]
        exact (h.shut other hNone).1
      halfClosed := h.halfClosed
      closing := by
        intro other hPos hOpen'
        show
          (Function.update st.interest fd (some ev)
            other).isSome
        by_cases hSame : other = fd
        · rw [hSame, Function.update_self]
          rfl
        · rw [Function.update_of_ne hSame]
          exact h.closing other hPos hOpen'
      reported := h.reported }

/- The pool and the running step exchange a connection. -/
theorem Held.withPool
    {pool : ThreadPool Fd}
    (h : st.Held hand)
    (hHolds :
      ∀ fd, (st.server.conns fd).isSome →
        pool.holds fd + (if hand' = some fd then 1 else 0) =
          st.pool.holds fd + if hand = some fd then 1 else 0)
    (hRequest :
      ∀ worker ∈ st.halfClosed,
        pool.requestOf worker = st.pool.requestOf worker) :
    ({ st with pool := pool }).Held hand' :=
  { users := h.users
    own := h.own
    one := by
      intro fd hOpen
      have hOne := h.one fd hOpen
      have hSame := hHolds fd hOpen
      unfold places at hOne ⊢
      change
        st.armed fd + st.mainHas fd + pool.holds fd + _ = 1
      omega
    shut := h.shut
    halfClosed := by
      intro worker hMem
      rcases h.halfClosed worker hMem with
        ⟨fd, hWorker, hNone⟩
      exact
        ⟨fd, (hRequest worker hMem).trans hWorker, hNone⟩
    closing := h.closing
    reported := h.reported }

/- The main thread takes a connection or hands it on. -/
theorem Held.withMain
    (h : st.Held hand)
    (events : List Report)
    (pos : MainPos)
    (hSub : ∀ r ∈ events, r ∈ st.events)
    (hHand :
      ∀ fd, hand = some fd → (st.server.conns fd).isSome)
    (hMain :
      ∀ fd,
        ({ st with
            events := events
            pos := pos } : Serving).mainHas fd +
            (if hand' = some fd then 1 else 0) =
          st.mainHas fd + if hand = some fd then 1 else 0)
    (hClosing :
      ∀ fd, pos = .closing fd true →
        (st.interest fd).isSome) :
    ({ st with events := events, pos := pos }).Held hand' :=
  { users := h.users
    own := h.own
    one := by
      intro fd hOpen
      have hOne := h.one fd hOpen
      have hSame := hMain fd
      unfold places at hOne ⊢
      change
        st.armed fd + _ + st.pool.holds fd + _ = 1
      omega
    shut := by
      intro fd hNone
      have hShut := h.shut fd hNone
      have hSame := hMain fd
      have hNe : hand ≠ some fd := by
        intro hFd
        have hOpen := hHand fd hFd
        have hNone' : st.server.conns fd = none := hNone
        rw [hNone'] at hOpen
        cases hOpen
      rw [if_neg hNe] at hSame
      exact ⟨hShut.1, by omega⟩
    halfClosed := h.halfClosed
    closing := by
      intro fd hPos _
      exact hClosing fd hPos
    reported := by
      intro fd ev hMem
      exact h.reported fd ev (hSub _ hMem) }

end Serving

end V2

end WebServer

------------------------------------------------------------
-- What The Server's Handlers Change
------------------------------------------------------------

namespace WebServer

namespace V2

namespace ServerState

variable {st t : ServerState}
variable {fd : Fd}

/- Prolonging a timer leaves the connections alone. -/
theorem prolong_frame
    {timer : Option Addr}
    {cur : Int}
    (hStep : st.prolong timer cur = some t) :
    t.conns = st.conns ∧ t.users = st.users := by
  unfold prolong at hStep
  split at hStep
  · rcases Option.some.inj hStep with rfl
    exact ⟨rfl, rfl⟩
  · rcases Option.bind_eq_some_iff.mp hStep with
      ⟨_, _, hAdjust⟩
    rcases Option.bind_eq_some_iff.mp hAdjust with
      ⟨_, _, hSome⟩
    rcases Option.some.inj hSome with rfl
    exact ⟨rfl, rfl⟩

theorem retire_frame
    {timer : Option Addr}
    (hStep : st.retire fd timer = some t) :
    t.conns = (st.closeConn fd).conns ∧
      t.users = (st.closeConn fd).users := by
  unfold retire at hStep
  split at hStep
  · rcases Option.some.inj hStep with rfl
    exact ⟨rfl, rfl⟩
  · rcases Option.bind_eq_some_iff.mp hStep with
      ⟨_, _, hSome⟩
    rcases Option.some.inj hSome with rfl
    exact ⟨rfl, rfl⟩

theorem closeConn_of_user
    (hUser : st.users fd = some fd) :
    (st.closeConn fd).conns =
        Function.update st.conns fd none ∧
      (st.closeConn fd).users =
        Function.update st.users fd none := by
  unfold closeConn
  rw [hUser]
  exact ⟨rfl, rfl⟩

/- Callbacks close connections and change no `m_sockfd`. -/
theorem runCallbacks_frame
    (fired : List (Addr × Fd))
    (st : ServerState)
    (fd : Fd) :
    (st.runCallbacks fired).users = st.users ∧
      ((st.runCallbacks fired).conns fd = st.conns fd ∨
        (st.runCallbacks fired).conns fd = none) := by
  induction fired generalizing st with
  | nil => exact ⟨rfl, .inl rfl⟩
  | cons f fired ih =>
      rw [runCallbacks_cons]
      rcases ih (st.cbFunc f.1 f.2) with ⟨hUsers, hConns⟩
      refine ⟨hUsers, ?_⟩
      rcases hConns with hSame | hNone
      · rw [hSame]
        by_cases hFd : fd = (st.usersTimer f.2).sockfd
        · right
          rw [hFd]
          exact Function.update_self _ _ _
        · left
          exact Function.update_of_ne hFd _ _
      · exact .inr hNone

theorem tick_frame
    {cur : Int}
    (hStep : st.tick cur = some t) :
    t.users = st.users ∧
      ∀ fd, t.conns fd = st.conns fd ∨ t.conns fd = none := by
  rcases Option.bind_eq_some_iff.mp hStep with
    ⟨⟨lst, fired⟩, _, hSome⟩
  rcases Option.some.inj hSome with rfl
  exact
    ⟨(runCallbacks_frame fired st 0).1,
      fun fd => (runCallbacks_frame fired st fd).2⟩

/- An accepted connection is set up or turned away. -/
theorem dealListenEvent_frame
    {timer : Addr}
    {cur : Int}
    (hFree : st.conns fd = none)
    (hStep : st.dealListenEvent fd timer cur = some t) :
    (maxFd : Int) ≤ st.userCount ∧ t.conns = st.conns ∧
        t.users = st.users ∨
      ¬ (maxFd : Int) ≤ st.userCount ∧
        t.conns =
            Function.update st.conns fd (some st.nextConn) ∧
          t.users =
            Function.update st.users fd (some fd) := by
  unfold dealListenEvent at hStep
  split at hStep
  next hFull =>
    rcases Option.some.inj hStep with rfl
    left
    refine ⟨hFull, ?_, rfl⟩
    change
      Function.update
          (Function.update st.conns fd (some st.nextConn)) fd
          none =
        st.conns
    rw [Function.update_idem, ← hFree,
      Function.update_eq_self]
  next hRoom =>
    unfold addClient at hStep
    split at hStep
    · rcases Option.bind_eq_some_iff.mp hStep with
        ⟨_, _, hSome⟩
      rcases Option.some.inj hSome with rfl
      exact .inr ⟨hRoom, rfl, rfl⟩
    · cases hStep

end ServerState

end V2

end WebServer

------------------------------------------------------------
-- Steps Of The Main Thread
------------------------------------------------------------

namespace WebServer

namespace V2

/- What is reported is armed, and the report is not empty. -/
theorem EpollEvents.Fits.isSome
    {ev : EpollEvents}
    {interest : Option Interest}
    (h : ev.Fits interest) :
    interest.isSome ∧
      (ev.hangsUp || ev.epollIn || ev.epollOut) = true := by
  cases interest with
  | none => exact h.elim
  | some interest =>
      refine ⟨rfl, ?_⟩
      cases interest with
      | epollIn =>
          rw [h.2]
          rfl
      | epollOut =>
          rw [Bool.or_right_comm, h.2]
          rfl

namespace Serving

variable {st t : Serving}
variable {hand : Option Fd}
variable {fd : Fd}
variable {rest : List Report}
variable {a : Answers}
variable {cur : Int}

/- Closing a connection that nobody handles. -/
theorem Held.close
    {server : ServerState}
    (h : st.Held hand)
    (hConns :
      server.conns = Function.update st.server.conns fd none)
    (hUsers :
      server.users = st.server.users ∨
        server.users =
          Function.update st.server.users fd none)
    (hMain : st.mainHas fd = 0) :
    (st.serve server).Held hand := by
  have hClosed : server.conns fd = none := by
    rw [hConns, Function.update_self]
  have hSame : ∀ {other}, other ≠ fd →
      server.conns other = st.server.conns other := by
    intro other hNe
    rw [hConns, Function.update_of_ne hNe]
  apply h.serve
  · intro other
    by_cases hFd : other = fd
    · exact .inr (hFd ▸ hClosed)
    · exact .inl (hSame hFd)
  · intro other
    rcases hUsers with hKept | hGone
    · exact .inl (congrFun hKept other)
    · by_cases hFd : other = fd
      · right
        rw [hFd, hGone, Function.update_self]
        exact ⟨rfl, hClosed⟩
      · left
        rw [hGone, Function.update_of_ne hFd]
  · intro other hNone
    by_cases hFd : other = fd
    · rw [hFd]
      exact hMain
    · exact (h.shut other ((hSame hFd).symm.trans hNone)).2

theorem interest_of_mem
    {reports : List Report}
    (hReport : ∀ r ∈ reports, st.Reportable r)
    (hMem : some fd ∈ reports.map Report.fd) :
    (st.interest fd).isSome := by
  rcases List.mem_map.mp hMem with ⟨r, hIn, hFd⟩
  cases r with
  | listen => cases hFd
  | conn fd' ev =>
      rcases Option.some.inj hFd with rfl
      have hFits : ev.Fits (st.interest fd') :=
        hReport _ hIn
      exact hFits.isSome.1

theorem mainHas_of_idle
    (hPos : st.pos = .looping)
    (hEvents : st.events = [])
    (fd : Fd) :
    st.mainHas fd = 0 := by
  unfold mainHas
  rw [hPos, hEvents]
  rfl

/- `epoll_wait` takes what it reports out of epoll. -/
theorem Held.epollWait
    {reports : List Report}
    (h : st.Held none)
    (hPos : st.pos = .looping)
    (hEvents : st.events = [])
    (hNodup : (reports.map Report.fd).Nodup)
    (hReport : ∀ r ∈ reports, st.Reportable r) :
    (st.epollWait reports).Held none := by
  have hMain : ∀ fd, (st.epollWait reports).mainHas fd =
      (reports.map Report.fd).count (some fd) := by
    intro fd
    unfold mainHas Serving.epollWait
    rw [if_neg (by rw [hPos]; exact MainPos.noConfusion)]
    rfl
  have hInterest : ∀ fd, (st.epollWait reports).interest fd =
      if some fd ∈ reports.map Report.fd then none
      else st.interest fd :=
    fun _ => rfl
  exact
    { users := h.users
      own := h.own
      one := by
        intro fd hOpen
        have hOne := h.one fd hOpen
        unfold places armed at hOne ⊢
        rw [mainHas_of_idle hPos hEvents] at hOne
        rw [hMain, hInterest]
        by_cases hMem : some fd ∈ reports.map Report.fd
        · have hArmed := interest_of_mem hReport hMem
          rw [if_pos hArmed] at hOne
          rw [if_pos hMem,
            List.count_eq_one_of_mem hNodup hMem]
          change 0 + 1 + st.pool.holds fd + _ = 1
          omega
        · rw [if_neg hMem, List.count_eq_zero_of_not_mem hMem]
          exact hOne
      shut := by
        intro fd hNone
        have hShut := (h.shut fd hNone).1
        have hMem : some fd ∉ reports.map Report.fd := by
          intro hMem
          have hArmed := interest_of_mem hReport hMem
          rw [hShut] at hArmed
          cases hArmed
        rw [hMain, hInterest, if_neg hMem]
        exact ⟨hShut, List.count_eq_zero_of_not_mem hMem⟩
      halfClosed := h.halfClosed
      closing := by
        intro fd hClosing
        have hClosing' : st.pos = .closing fd true := hClosing
        rw [hPos] at hClosing'
        cases hClosing'
      reported := by
        intro fd ev hMem
        have hFits : ev.Fits (st.interest fd) :=
          hReport _ hMem
        exact hFits.isSome.2 }

/- The next report is in the hands of its handler. -/
theorem Held.pop
    {ev : EpollEvents}
    (h : st.Held none)
    (hPos : st.pos = .looping)
    (hEvents : st.events = .conn fd ev :: rest) :
    ({ st with events := rest } : Serving).Held (some fd) ∧
      (st.server.conns fd).isSome := by
  have hMain : ∀ other,
      ({ st with events := rest } : Serving).mainHas other +
          (if some fd = some other then 1 else 0) =
        st.mainHas other := by
    intro other
    unfold mainHas
    rw [hEvents, List.map_cons, List.count_cons]
    simp only [Report.fd, beq_iff_eq]
    omega
  refine ⟨?_, ?_⟩
  · refine h.withMain rest st.pos ?_ ?_ hMain ?_
    · intro r hMem
      rw [hEvents]
      exact List.mem_cons_of_mem _ hMem
    · intro other hNone
      cases hNone
    · intro other hClosing
      rw [hPos] at hClosing
      cases hClosing
  · apply h.open_of_mainHas
    have hHere := hMain fd
    rw [if_pos rfl] at hHere
    omega

theorem Held.popListen
    (h : st.Held none)
    (hPos : st.pos = .looping)
    (hEvents : st.events = .listen :: rest) :
    ({ st with events := rest } : Serving).Held none := by
  refine h.withMain rest st.pos ?_ ?_ ?_ ?_
  · intro r hMem
    rw [hEvents]
    exact List.mem_cons_of_mem _ hMem
  · intro other hNone
    cases hNone
  · intro other
    unfold mainHas
    rw [hEvents, List.map_cons, List.count_cons]
    rfl
  · intro other hClosing
    rw [hPos] at hClosing
    cases hClosing

/- A new connection is armed and nowhere else. -/
theorem Held.accept
    {server : ServerState}
    (h : st.Held none)
    (hPos : st.pos = .looping)
    (hFree : st.server.conns fd = none)
    (hHolds : st.pool.holds fd = 0)
    (hConns :
      server.conns =
        Function.update st.server.conns fd
          (some st.server.nextConn))
    (hUsers :
      server.users =
        Function.update st.server.users fd (some fd)) :
    ((st.serve server).modfd (some fd) .epollIn).Held
      none := by
  have hOpen : (server.conns fd).isSome := by
    rw [hConns, Function.update_self]
    rfl
  have hOther : ∀ {other}, other ≠ fd →
      server.conns other = st.server.conns other := by
    intro other hNe
    rw [hConns, Function.update_of_ne hNe]
  have hOld : ∀ {other}, other ≠ fd →
      (server.conns other).isSome →
        (st.server.conns other).isSome ∧
          (st.serve server).interest other =
            st.interest other := by
    intro other hNe hIsOpen
    rw [← hOther hNe]
    exact ⟨hIsOpen, if_pos hIsOpen⟩
  rw [modfd_open hOpen]
  exact
    { users := by
        intro other hIsOpen
        change server.users other = some other
        rw [hUsers]
        by_cases hNe : other = fd
        · rw [hNe, Function.update_self]
        · rw [Function.update_of_ne hNe]
          exact h.users other (hOld hNe hIsOpen).1
      own := by
        intro other sockfd hUser
        have hUser' : server.users other = some sockfd := hUser
        rw [hUsers] at hUser'
        by_cases hNe : other = fd
        · rw [hNe, Function.update_self] at hUser'
          rw [hNe]
          exact (Option.some.inj hUser').symm
        · rw [Function.update_of_ne hNe] at hUser'
          exact h.own other sockfd hUser'
      one := by
        intro other hIsOpen
        unfold places
        rw [armed_update]
        change
          (if other = fd then 1
            else (st.serve server).armed other) +
                st.mainHas other +
              st.pool.holds other + 0 =
            1
        by_cases hNe : other = fd
        · rw [if_pos hNe, hNe, hHolds, (h.shut fd hFree).2]
        · rw [if_neg hNe]
          have hKept := hOld hNe hIsOpen
          have hOne := h.one other hKept.1
          unfold places armed at hOne
          unfold armed
          rw [hKept.2]
          exact hOne
      shut := by
        intro other hNone
        have hNone' : server.conns other = none := hNone
        have hNe : other ≠ fd := by
          rintro rfl
          rw [hNone'] at hOpen
          cases hOpen
        have hShut :=
          h.shut other ((hOther hNe).symm.trans hNone')
        refine ⟨?_, hShut.2⟩
        change
          Function.update (st.serve server).interest fd _
            other = none
        rw [Function.update_of_ne hNe]
        change (if (server.conns other).isSome then _ else _) = _
        rw [hNone']
        rfl
      halfClosed := by
        intro worker hMem
        rcases h.halfClosed worker hMem with
          ⟨other, hWorker, hNone⟩
        refine ⟨other, hWorker, ?_⟩
        have hNe : other ≠ fd := by
          rintro rfl
          have hHeld :=
            ThreadPool.holds_of_requestOf hWorker
          omega
        exact (hOther hNe).trans hNone
      closing := by
        intro other hClosing
        have hClosing' : st.pos = .closing other true :=
          hClosing
        rw [hPos] at hClosing'
        cases hClosing'
      reported := h.reported }

end Serving

end V2

end WebServer

------------------------------------------------------------
-- Handling A Report
------------------------------------------------------------

namespace WebServer

namespace V2

namespace Serving

variable {st t : Serving}
variable {fd : Fd}
variable {a : Answers}
variable {cur : Int}

theorem Held.dealListenEvent
    (h : st.Held none)
    (hPos : st.pos = .looping)
    (hFree : st.server.conns a.accepted = none)
    (hPasses : st.Passes a .listen)
    (hStep : st.dealListenEvent a = some t) :
    t.Held none := by
  rcases Option.bind_eq_some_iff.mp hStep with
    ⟨server, hListen, hSome⟩
  rcases Option.some.inj hSome with rfl
  rcases ServerState.dealListenEvent_frame hFree hListen with
    ⟨_, hConns, hUsers⟩ | ⟨hRoom, hConns, hUsers⟩
  · have hServed : (st.serve server).Held none := by
      apply h.serve
      · exact fun other => .inl (congrFun hConns other)
      · exact fun other => .inl (congrFun hUsers other)
      · intro other hNone
        rw [hConns] at hNone
        exact (h.shut other hNone).2
    have hClosed :
        (st.serve server).server.conns a.accepted = none :=
      (congrFun hConns _).trans hFree
    rw [modfd_closed hClosed]
    exact hServed
  · rcases hPasses with hFull | hHolds
    · exact absurd hFull hRoom
    · exact h.accept hPos hFree hHolds hConns hUsers

/- A connection that is to be closed stays with `main`. -/
theorem Held.toClosing
    (h : st.Held (some fd))
    (hOpen : (st.server.conns fd).isSome)
    (hPos : st.pos = .looping) :
    ({ st with pos := .closing fd false } : Serving).Held
      none := by
  refine
    h.withMain st.events (.closing fd false)
      (fun _ hMem => hMem) ?_ ?_ ?_
  · rintro other ⟨⟩
    exact hOpen
  · intro other
    unfold mainHas
    rw [hPos]
    simp
  · intro other hClosing
    cases hClosing

theorem Held.dealReadEvent
    (h : st.Held (some fd))
    (hOpen : (st.server.conns fd).isSome)
    (hPos : st.pos = .looping)
    (hRoom :
      a.read = true →
        st.pool.workqueue.length ≤ st.pool.maxRequests) :
    (st.dealReadEvent fd a).Held none := by
  unfold Serving.dealReadEvent
  split_ifs with hRead
  · have hQueued :
        ({ st with
            pool := st.pool.append (some fd) } : Serving).Held
          none := by
      refine h.withPool ?_ ?_
      · intro other _
        rw [ThreadPool.holds_append (hRoom hRead)]
        simp
      · intro worker _
        unfold ThreadPool.append
        split <;> rfl
    refine
      hQueued.withMain st.events (.appended fd)
        (fun _ hMem => hMem) ?_ ?_ ?_
    · intro other hNone
      cases hNone
    · intro other
      unfold mainHas
      change
        _ + (if MainPos.appended fd = _ then 1 else 0) + 0 =
          _ + (if st.pos = _ then 1 else 0) + 0
      rw [hPos]
      rfl
    · intro other hClosing
      cases hClosing
  · exact h.toClosing hOpen hPos

/- What `write()` has armed is closed from epoll. -/
theorem Held.toClosingArmed
    (h : st.Held none)
    (hPos : st.pos = .looping)
    (hArmed : (st.interest fd).isSome) :
    ({ st with pos := .closing fd true } : Serving).Held
      none := by
  refine
    h.withMain st.events (.closing fd true)
      (fun _ hMem => hMem) ?_ ?_ ?_
  · intro other hNone
    cases hNone
  · intro other
    unfold mainHas
    rw [hPos]
    simp
  · rintro other ⟨⟩
    exact hArmed

theorem Held.dealWriteEvent
    (h : st.Held (some fd))
    (hOpen : (st.server.conns fd).isSome)
    (hPos : st.pos = .looping)
    (hStep : st.dealWriteEvent fd a = some t) :
    t.Held none := by
  have hUser := h.users fd hOpen
  unfold Serving.dealWriteEvent at hStep
  rw [hUser] at hStep
  cases hEv : a.write.modfd with
  | none =>
      have hRet : a.write.ret = false := by
        cases hEnd : a.write <;> rw [hEnd] at hEv <;>
          first | rfl | cases hEv
      rw [hEv, hRet] at hStep
      rcases Option.some.inj hStep with rfl
      exact h.toClosing hOpen hPos
  | some ev =>
      have hArmed := h.modfd hOpen ev
      have hInterest :
          ((st.modfd (some fd) ev).interest fd).isSome := by
        rw [modfd_open hOpen]
        change
          (Function.update st.interest fd (some ev) fd).isSome
        rw [Function.update_self]
        rfl
      have hPos' :
          (st.modfd (some fd) ev).pos = .looping := by
        rw [modfd_open hOpen]
        exact hPos
      rw [hEv] at hStep
      cases hRet : a.write.ret with
      | false =>
          rw [hRet] at hStep
          rcases Option.some.inj hStep with rfl
          exact hArmed.toClosingArmed hPos' hInterest
      | true =>
          rw [hRet] at hStep
          rcases Option.bind_eq_some_iff.mp hStep with
            ⟨server, hWrite, hSome⟩
          rcases Option.some.inj hSome with rfl
          have hFrame := ServerState.prolong_frame hWrite
          have hServer :
              (st.modfd (some fd) ev).server = st.server := by
            rw [modfd_open hOpen]
          rw [← hServer] at hFrame
          apply hArmed.serve
          · exact fun _ => .inl (congrFun hFrame.1 _)
          · exact fun _ => .inl (congrFun hFrame.2 _)
          · intro other hNone
            rw [hFrame.1] at hNone
            exact (hArmed.shut other hNone).2

theorem Held.handle
    (h : st.Held none)
    (hEnabled : st.enabled (.handle a))
    (hHandsOver : st.HandsOver (.handle a))
    (hStep : st.handle a = some t) :
    t.Held none := by
  rcases hEnabled with ⟨⟨hPos, _⟩, hFree, _⟩
  unfold Serving.handle at hStep
  split at hStep
  · cases hStep
  next rest hEvents =>
    have hPasses : st.Passes a .listen := by
      apply hHandsOver
      rw [hEvents]
      rfl
    exact
      (h.popListen hPos hEvents).dealListenEvent hPos hFree
        hPasses hStep
  next fd ev rest hEvents =>
    rcases h.pop hPos hEvents with ⟨hPopped, hOpen⟩
    have hPasses : st.Passes a (.conn fd ev) := by
      apply hHandsOver
      rw [hEvents]
      rfl
    split_ifs at hStep with hHangsUp hIn hOut
    · rcases Option.some.inj hStep with rfl
      have hFrame :=
        ServerState.closeConn_of_user (h.users fd hOpen)
      have hMain := (hPopped.hand_apart hOpen).2.1
      refine
        (hPopped.close hFrame.1 (.inr hFrame.2) hMain).drop ?_
      change (st.server.closeConn fd).conns fd = none
      rw [hFrame.1, Function.update_self]
    · rcases Option.some.inj hStep with rfl
      apply hPopped.dealReadEvent hOpen hPos
      intro hRead
      exact hPasses ⟨Bool.eq_false_iff.mpr hHangsUp, hIn, hRead⟩
    · exact hPopped.dealWriteEvent hOpen hPos hStep
    · have hBit :=
        h.reported fd ev (hEvents ▸ List.mem_cons_self)
      simp [hHangsUp, hIn, hOut] at hBit

end Serving

end V2

end WebServer

------------------------------------------------------------
-- The Other Steps
------------------------------------------------------------

namespace WebServer

namespace V2

namespace Serving

variable {st t : Serving}
variable {fd : Fd}
variable {cur : Int}
variable {worker : Nat}

/- A handler comes to its end. -/
theorem Held.toLooping
    (h : st.Held none)
    (hMain :
      ∀ fd, ({ st with pos := .looping } : Serving).mainHas fd =
        st.mainHas fd) :
    ({ st with pos := .looping } : Serving).Held none := by
  refine
    h.withMain st.events .looping
      (fun _ hMem => hMem) ?_ ?_ ?_
  · intro other hNone
    cases hNone
  · intro other
    rw [← hMain]
  · intro other hClosing
    cases hClosing

/- What happens to a connection that a handler closes. -/
theorem Held.closeConn
    {hand : Option Fd}
    {server : ServerState}
    (h : st.Held hand)
    (hMain : st.mainHas fd = 0)
    (hFrame :
      server.conns = (st.server.closeConn fd).conns ∧
        server.users = (st.server.closeConn fd).users) :
    (st.serve server).Held hand := by
  rcases hFrame with ⟨hConns, hUsers⟩
  cases hUser : st.server.users fd with
  | none =>
      have hSame : st.server.closeConn fd = st.server := by
        unfold ServerState.closeConn
        rw [hUser]
      rw [hSame] at hConns hUsers
      apply h.serve
      · exact fun other => .inl (congrFun hConns other)
      · exact fun other => .inl (congrFun hUsers other)
      · intro other hNone
        rw [hConns] at hNone
        exact (h.shut other hNone).2
  | some sockfd =>
      rcases h.own fd sockfd hUser with rfl
      rcases ServerState.closeConn_of_user hUser with
        ⟨hConns', hUsers'⟩
      exact
        h.close (hConns.trans hConns')
          (.inr (hUsers.trans hUsers')) hMain

/- The `close_conn` at the end of a handler. -/
theorem Held.endClosing
    {server : ServerState}
    {armed : Bool}
    (h : st.Held none)
    (hPos : st.pos = .closing fd armed)
    (hFrame :
      server.conns = (st.server.closeConn fd).conns ∧
        server.users = (st.server.closeConn fd).users) :
    (({ st with pos := .looping } : Serving).serve
      server).Held none := by
  cases armed with
  | true =>
      have hMain : ∀ other,
          ({ st with pos := .looping } : Serving).mainHas
              other =
            st.mainHas other := by
        intro other
        unfold mainHas
        rw [hPos]
        simp
      refine (h.toLooping hMain).closeConn ?_ hFrame
      rw [hMain]
      cases hConn : st.server.conns fd with
      | none => exact (h.shut fd hConn).2
      | some c =>
          have hOpen : (st.server.conns fd).isSome := by
            rw [hConn]
            rfl
          have hOne := h.one fd hOpen
          unfold places armed at hOne
          rw [if_pos (h.closing fd hPos hOpen)] at hOne
          omega
  | false =>
      have hMain : ∀ other,
          ({ st with pos := .looping } : Serving).mainHas
                other +
              (if some fd = some other then 1 else 0) =
            st.mainHas other := by
        intro other
        unfold mainHas
        rw [hPos]
        simp
      have hOpen : (st.server.conns fd).isSome := by
        apply h.open_of_mainHas
        have hHere := hMain fd
        rw [if_pos rfl] at hHere
        omega
      have hTaken :
          ({ st with pos := .looping } : Serving).Held
            (some fd) := by
        refine
          h.withMain st.events .looping
            (fun _ hMem => hMem) ?_ hMain ?_
        · intro other hNone
          cases hNone
        · intro other hClosing
          cases hClosing
      have hUser := h.users fd hOpen
      refine
        (hTaken.closeConn (hTaken.hand_apart hOpen).2.1
          hFrame).drop ?_
      change server.conns fd = none
      rw [hFrame.1,
        (ServerState.closeConn_of_user hUser).1,
        Function.update_self]

theorem Held.goOn
    (h : st.Held none)
    (hStep : st.goOn cur = some t) :
    t.Held none := by
  unfold Serving.goOn at hStep
  split at hStep
  · cases hStep
  next fd hPos =>
    rcases Option.bind_eq_some_iff.mp hStep with
      ⟨pool, hPool, hRest⟩
    rcases Option.bind_eq_some_iff.mp hRest with
      ⟨server, hRead, hSome⟩
    rcases Option.some.inj hSome with rfl
    have hFrame := ServerState.prolong_frame hRead
    rcases ThreadPool.finishAppend_frame hPool with
      ⟨hQueue, hWorkers, _⟩
    have hPosted :
        ({ st with pool := pool } : Serving).Held none := by
      refine h.withPool ?_ ?_
      · intro other _
        unfold ThreadPool.holds
        rw [hQueue, hWorkers]
      · intro worker _
        unfold ThreadPool.requestOf
        rw [hWorkers]
    have hDone := hPosted.toLooping (by
      intro other
      unfold mainHas
      change _ + 0 = _ + if st.pos = _ then 1 else 0
      rw [hPos]
      rfl)
    apply hDone.serve
    · exact fun _ => .inl (congrFun hFrame.1 _)
    · exact fun _ => .inl (congrFun hFrame.2 _)
    · intro other hNone
      rw [hFrame.1] at hNone
      exact (hDone.shut other hNone).2
  next fd armed hPos =>
    rcases Option.bind_eq_some_iff.mp hStep with
      ⟨server, hRetire, hSome⟩
    rcases Option.some.inj hSome with rfl
    exact h.endClosing hPos (ServerState.retire_frame hRetire)

theorem Held.tick
    (h : st.Held none)
    (hPos : st.pos = .looping)
    (hEvents : st.events = [])
    (hStep : st.tick cur = some t) :
    t.Held none := by
  rcases Option.bind_eq_some_iff.mp hStep with
    ⟨server, hTick, hSome⟩
  rcases Option.some.inj hSome with rfl
  rcases ServerState.tick_frame hTick with ⟨hUsers, hConns⟩
  apply h.serve
  · exact hConns
  · exact fun other => .inl (congrFun hUsers other)
  · exact fun other _ => mainHas_of_idle hPos hEvents other

/- A worker that waits or is woken has no request. -/
theorem requestOf_of_idle
    {pos : WorkerPos Fd}
    (hAt : st.pool.workers[worker]? = some pos)
    (hIdle : ∀ request, pos ≠ .processing request) :
    st.pool.requestOf worker = none := by
  cases hRequest : st.pool.requestOf worker with
  | none => rfl
  | some request =>
      have hBusy := ThreadPool.requestOf_eq_some.mp hRequest
      rw [hAt] at hBusy
      exact absurd (Option.some.inj hBusy) (hIdle request)

theorem Held.not_halfClosed
    (h : st.Held none)
    (hRequest : st.pool.requestOf worker = none) :
    worker ∉ st.halfClosed := by
  intro hMem
  rcases h.halfClosed worker hMem with ⟨fd, hBusy, _⟩
  rw [hRequest] at hBusy
  cases hBusy

/- Moving a worker that is not closing anything. -/
theorem Held.withWorker
    {pool : ThreadPool Fd}
    {pos : WorkerPos Fd}
    (h : st.Held none)
    (hNot : worker ∉ st.halfClosed)
    (hHolds :
      ∀ fd, (st.server.conns fd).isSome →
        pool.holds fd = st.pool.holds fd)
    (hWorkers :
      pool.workers = (st.pool.setWorker worker pos).workers) :
    ({ st with pool := pool } : Serving).Held none := by
  refine h.withPool ?_ ?_
  · intro other hOpen
    rw [hHolds other hOpen]
  · intro other hMem
    have hNe : other ≠ worker := by
      rintro rfl
      exact hNot hMem
    have hSame :=
      ThreadPool.requestOf_setWorker (s := st.pool) pos hNe
    rw [← hSame]
    unfold ThreadPool.requestOf
    rw [hWorkers]

theorem Held.wait
    (h : st.Held none)
    (hAt : st.pool.workers[worker]? = some .waiting) :
    ({ st with pool := st.pool.wait worker } : Serving).Held
      none := by
  have hNone := requestOf_of_idle hAt fun _ => by simp
  exact
    h.withWorker (h.not_halfClosed hNone)
      (fun other _ => ThreadPool.holds_wait hAt other) rfl

theorem Held.waitError
    (h : st.Held none)
    (hAt : st.pool.workers[worker]? = some .waiting) :
    ({ st with
        pool := st.pool.waitError worker } : Serving).Held
      none := by
  have hNone := requestOf_of_idle hAt fun _ => by simp
  refine h.withWorker (h.not_halfClosed hNone) ?_ rfl
  intro other _
  exact ThreadPool.holds_setWorker hAt (by simp) (by simp)

theorem Held.take
    (h : st.Held none)
    (hAt : st.pool.workers[worker]? = some .woken) :
    ({ st with pool := st.pool.take worker } : Serving).Held
      none := by
  have hNone := requestOf_of_idle hAt fun _ => by simp
  have hNot := h.not_halfClosed hNone
  have hHolds : ∀ other,
      (st.pool.take worker).holds other =
        st.pool.holds other :=
    ThreadPool.holds_take hAt
  unfold ThreadPool.take at hHolds ⊢
  split at hHolds
  · exact h.withWorker hNot (fun other _ => hHolds other) rfl
  · exact h.withWorker hNot (fun other _ => hHolds other) rfl

/- The worker that moves is not one that is closing. -/
theorem requestOf_processed_other
    (hNot : worker ∉ st.halfClosed) :
    ∀ other ∈ st.halfClosed,
      (st.pool.processed worker).requestOf other =
        st.pool.requestOf other := by
  intro other hMem
  apply ThreadPool.requestOf_setWorker
  rintro rfl
  exact hNot hMem

/- A worker lets go of a connection that was closed. -/
theorem Held.leave
    (h : st.Held none)
    (hRequest : st.pool.requestOf worker = some fd)
    (hNot : worker ∉ st.halfClosed)
    (hClosed : st.server.conns fd = none) :
    ({ st with
        pool := st.pool.processed worker } : Serving).Held
      none := by
  refine h.withPool ?_ (requestOf_processed_other hNot)
  intro other hOpen
  have hNe : fd ≠ other := by
    rintro rfl
    rw [hClosed] at hOpen
    cases hOpen
  have hGone := ThreadPool.holds_processed hRequest other
  rw [if_neg hNe] at hGone
  simp only [reduceCtorEq, if_false]
  exact hGone

/- A worker arms the connection it has processed. -/
theorem Held.rearm
    (h : st.Held none)
    (hRequest : st.pool.requestOf worker = some fd)
    (hNot : worker ∉ st.halfClosed)
    (ev : Interest) :
    (st.rearm worker fd ev).Held none := by
  unfold Serving.rearm
  cases hConn : st.server.conns fd with
  | some c =>
      have hOpen : (st.server.conns fd).isSome := by
        rw [hConn]
        rfl
      rw [h.users fd hOpen]
      have hTaken :
          ({ st with
              pool := st.pool.processed worker } :
            Serving).Held (some fd) := by
        refine h.withPool ?_ (requestOf_processed_other hNot)
        intro other _
        have hGone :=
          ThreadPool.holds_processed hRequest other
        simp only [Option.some_inj, reduceCtorEq, if_false]
        exact hGone
      exact hTaken.modfd hOpen ev
  | none =>
      have hLeft := h.leave hRequest hNot hConn
      cases hUser : st.server.users fd with
      | none => exact hLeft
      | some sockfd =>
          rcases h.own fd sockfd hUser with rfl
          have hConn' :
              ({ st with
                  pool := st.pool.processed worker } :
                Serving).server.conns sockfd =
                none :=
            hConn
          rw [modfd_closed hConn']
          exact hLeft

/- What a worker processes the main thread does not have. -/
theorem Held.mainHas_of_request
    (h : st.Held none)
    (hRequest : st.pool.requestOf worker = some fd) :
    st.mainHas fd = 0 := by
  cases hConn : st.server.conns fd with
  | none => exact (h.shut fd hConn).2
  | some c =>
      have hOne :=
        h.one fd (by rw [hConn]; exact Option.isSome_some)
      have hHeld := ThreadPool.holds_of_requestOf hRequest
      unfold places at hOne
      omega

/- The `close` of a worker's `close_conn`. -/
theorem Held.halfClose
    (h : st.Held none)
    (hRequest : st.pool.requestOf worker = some fd) :
    (({ st with
        halfClosed := worker :: st.halfClosed } :
      Serving).serve (st.server.close fd)).Held none := by
  have hClosed :
      (st.serve (st.server.close fd)).Held none :=
    h.close rfl (.inl rfl) (h.mainHas_of_request hRequest)
  exact
    { hClosed with
      halfClosed := by
        intro other hMem
        rcases List.mem_cons.mp hMem with rfl | hOld
        · exact
            ⟨fd, hRequest, Function.update_self _ _ _⟩
        · exact hClosed.halfClosed other hOld }

theorem Held.process
    {readRet : HttpCode}
    {writeRet : Bool}
    (h : st.Held none)
    (hNot : worker ∉ st.halfClosed)
    (hStep : st.process worker readRet writeRet = some t) :
    t.Held none := by
  rcases Option.bind_eq_some_iff.mp hStep with
    ⟨fd, hRequest, hRest⟩
  split_ifs at hRest with hRead hWrite
  · rcases Option.some.inj hRest with rfl
    exact h.rearm hRequest hNot .epollIn
  · rcases Option.some.inj hRest with rfl
    exact h.rearm hRequest hNot .epollOut
  · cases hUser : st.server.users fd with
    | none =>
        rw [hUser] at hRest
        rcases Option.some.inj hRest with rfl
        apply h.leave hRequest hNot
        cases hConn : st.server.conns fd with
        | none => rfl
        | some c =>
            have hOwn :=
              h.users fd
                (by rw [hConn]; exact Option.isSome_some)
            rw [hUser] at hOwn
            cases hOwn
    | some sockfd =>
        rw [hUser] at hRest
        rcases h.own fd sockfd hUser with rfl
        rcases Option.some.inj hRest with rfl
        exact h.halfClose hRequest

theorem Held.endClose
    (h : st.Held none)
    (hMem : worker ∈ st.halfClosed)
    (hStep : st.endClose worker = some t) :
    t.Held none := by
  rcases Option.bind_eq_some_iff.mp hStep with
    ⟨fd, hRequest, hSome⟩
  rcases Option.some.inj hSome with rfl
  rcases h.halfClosed worker hMem with
    ⟨fd', hRequest', hClosed⟩
  rcases Option.some.inj (hRequest'.symm.trans hRequest) with
    rfl
  have hFewer :
      ({ st with
          halfClosed :=
            st.halfClosed.filter (· ≠ worker) } :
        Serving).Held none :=
    { h with
      halfClosed := by
        intro other hIn
        exact h.halfClosed other (List.mem_filter.mp hIn).1 }
  have hNot :
      worker ∉ st.halfClosed.filter (· ≠ worker) := by
    simp
  have hLeft := hFewer.leave hRequest hNot hClosed
  exact
    { hLeft with
      users := by
        intro other hOpen
        have hNe : other ≠ fd' := by
          rintro rfl
          have hOpen' : (st.server.conns other).isSome := hOpen
          rw [hClosed] at hOpen'
          cases hOpen'
        change Function.update st.server.users fd' none other = _
        rw [Function.update_of_ne hNe]
        exact h.users other hOpen
      own := by
        intro other sockfd hUser
        have hUser' :
            Function.update st.server.users fd' none other =
              some sockfd :=
          hUser
        by_cases hSame : other = fd'
        · rw [hSame, Function.update_self] at hUser'
          cases hUser'
        · rw [Function.update_of_ne hSame] at hUser'
          exact h.own other sockfd hUser' }

end Serving

end V2

end WebServer

------------------------------------------------------------
-- Whole Runs
------------------------------------------------------------

namespace WebServer

namespace V2

namespace Serving

variable {st t : Serving}
variable {e : ServingEvent}

/- Every step that meets the condition keeps the invariant. -/
theorem Held.step
    (h : st.Held none)
    (hEnabled : st.enabled e)
    (hHandsOver : st.HandsOver e)
    (hStep : st.step e = some t) :
    t.Held none := by
  cases e with
  | epollWait reports =>
      rcases hEnabled with
        ⟨⟨hPos, hEvents⟩, ⟨_, hNodup⟩, hReport⟩
      rcases Option.some.inj hStep with rfl
      exact h.epollWait hPos hEvents hNodup hReport
  | handle a => exact h.handle hEnabled hHandsOver hStep
  | goOn cur => exact h.goOn hStep
  | tick cur => exact h.tick hEnabled.1 hEnabled.2 hStep
  | wait worker =>
      rcases Option.some.inj hStep with rfl
      exact h.wait hEnabled.1
  | waitError worker =>
      rcases Option.some.inj hStep with rfl
      exact h.waitError hEnabled
  | take worker =>
      rcases Option.some.inj hStep with rfl
      exact h.take hEnabled
  | process worker readRet writeRet =>
      exact h.process hEnabled.2 hStep
  | endClose worker => exact h.endClose hEnabled.2 hStep

/- A refused connection is in no place any more. -/
theorem Held.refused_loses
    {fd : Fd}
    {ev : EpollEvents}
    {rest : List Report}
    (h : st.Held none)
    (hPos : st.pos = .looping)
    (hEvents : st.events = .conn fd ev :: rest)
    (hFull :
      st.pool.maxRequests < st.pool.workqueue.length) :
    ¬ ({ st with
          events := rest
          pool := st.pool.append (some fd)
          pos := .appended fd } : Serving).OnePlace := by
  intro hAll
  rcases h.pop hPos hEvents with ⟨hPopped, hOpen⟩
  rcases hPopped.hand_apart hOpen with
    ⟨hInterest, hMain, hHolds⟩
  have hOne := hAll fd hOpen
  unfold places armed at hOne
  rw [ThreadPool.holds_append_refused hFull] at hOne
  unfold mainHas at hOne hMain
  change
    (if (st.interest fd).isSome then 1 else 0) +
          ((rest.map Report.fd).count (some fd) + 0) +
        st.pool.holds fd =
      1 at hOne
  have hHolds' : st.pool.holds fd = 0 := hHolds
  have hInterest' : st.interest fd = none := hInterest
  rw [hInterest', hHolds'] at hOne
  simp only [Option.isSome_none, Bool.false_eq_true, if_false]
    at hOne
  change (rest.map Report.fd).count (some fd) + _ = 0 at hMain
  omega

/- A connection on a claimed descriptor is in two places. -/
theorem accept_loses
    {a : Answers}
    (hFree : st.server.conns a.accepted = none)
    (hMisses : ¬ st.Passes a .listen)
    (hStep : st.dealListenEvent a = some t) :
    ¬ t.OnePlace := by
  intro hAll
  have hMisses' :
      ¬ (maxFd : Int) ≤ st.server.userCount ∧
        st.pool.holds a.accepted ≠ 0 :=
    not_or.mp hMisses
  rcases Option.bind_eq_some_iff.mp hStep with
    ⟨server, hListen, hSome⟩
  rcases Option.some.inj hSome with rfl
  rcases ServerState.dealListenEvent_frame hFree hListen with
    ⟨hFull, _⟩ | ⟨_, hConns, _⟩
  · exact hMisses'.1 hFull
  · have hOpen :
        ((st.serve server).server.conns
          a.accepted).isSome := by
      change (server.conns a.accepted).isSome
      rw [hConns, Function.update_self]
      rfl
    rw [modfd_open hOpen] at hAll
    have hOne := hAll a.accepted hOpen
    unfold places at hOne
    rw [armed_update, if_pos rfl] at hOne
    have hHolds := hMisses'.2
    change 1 + _ + st.pool.holds a.accepted = 1 at hOne
    omega

/- Every other step that is taken loses a connection. -/
theorem Held.step_loses
    (h : st.Held none)
    (hEnabled : st.enabled e)
    (hMisses : ¬ st.HandsOver e)
    (hStep : st.step e = some t) :
    ¬ t.OnePlace := by
  cases e with
  | handle a =>
      have hHead :
          ∃ r ∈ st.events.head?, ¬ st.Passes a r := by
        apply Classical.byContradiction
        intro hNone
        apply hMisses
        intro r hMem
        apply Classical.byContradiction
        intro hNot
        exact hNone ⟨r, hMem, hNot⟩
      rcases hHead with ⟨r, hMem, hNot⟩
      rcases hEnabled with ⟨⟨hPos, _⟩, hFree, _⟩
      cases hEvents : st.events with
      | nil =>
          rw [hEvents] at hMem
          cases hMem
      | cons r' rest =>
          rw [hEvents] at hMem
          rcases Option.some.inj hMem with rfl
          have hHandle : st.handle a = some t := hStep
          unfold Serving.handle at hHandle
          rw [hEvents] at hHandle
          cases r' with
          | listen =>
              exact
                accept_loses
                  (show
                    ({ st with events := rest } :
                      Serving).server.conns a.accepted = none
                    from hFree)
                  hNot hHandle
          | conn fd ev =>
              have hReads :
                  (ev.hangsUp = false ∧ ev.epollIn = true ∧
                      a.read = true) ∧
                    ¬ st.pool.workqueue.length ≤
                      st.pool.maxRequests :=
                Classical.not_imp.mp hNot
              rcases hReads with
                ⟨⟨hHangsUp, hIn, hRead⟩, hFull⟩
              simp only [hHangsUp, hIn, if_true,
                Bool.false_eq_true, if_false,
                Serving.dealReadEvent, hRead] at hHandle
              rcases Option.some.inj hHandle with rfl
              exact
                h.refused_loses hPos hEvents
                  (Nat.lt_of_not_le hFull)
  | _ => exact absurd trivial hMisses

variable {es : List ServingEvent}

/- What the steps hand over is always in one place. -/
theorem onePlace_of_handsOver
    (hMeets : servingMachine.StepsMeet HandsOver init es) :
    servingMachine.Always OnePlace init es := by
  have hHeld :
      servingMachine.Always (Held · none) init es := by
    refine Machine.always_of_stepsMeet ?_ held_init hMeets
    intro st e t h hEnabled hHandsOver hStep
    exact h.step hEnabled hHandsOver hStep
  exact hHeld.mono fun _ h => h.onePlace

/- And it was handed over by every step of the run. -/
theorem handsOver_of_onePlace
    (hReach : servingMachine.Reaches init es st)
    (hAll : servingMachine.Always OnePlace init es) :
    servingMachine.StepsMeet HandsOver init es := by
  refine
    Machine.Reaches.stepsMeet_of_always
      (I := (Held · none)) ?_ ?_ held_init hReach hAll
  · intro st e t h hEnabled hHandsOver hStep
    exact h.step hEnabled hHandsOver hStep
  · intro st e t h hEnabled hMisses hStep
    exact h.step_loses hEnabled hMisses hStep

end Serving

/-
  In a run of the threads each open connection is in exactly
  one place at all times if and only if every step meets the
  condition.
-/
theorem connections_handed_over_iff
    {es : List ServingEvent}
    {st : Serving}
    (hReach : servingMachine.Reaches Serving.init es st) :
    servingMachine.Always Serving.OnePlace Serving.init es ↔
      servingMachine.StepsMeet Serving.HandsOver Serving.init
        es :=
  ⟨Serving.handsOver_of_onePlace hReach,
    Serving.onePlace_of_handsOver⟩

/-
  One client from `accept` to the close after its response,
  with one worker in between.
-/
def oneClient : List ServingEvent :=
  [.epollWait [.listen],
    .handle ⟨5, 0, 100, true, .failed⟩,
    .epollWait [.conn 5 ⟨true, false, false, false, false⟩],
    .handle ⟨6, 1, 101, true, .failed⟩, .goOn 101,
    .wait 0, .take 0, .process 0 .fileRequest true,
    .epollWait [.conn 5 ⟨false, true, false, false, false⟩],
    .handle ⟨6, 1, 102, true, .sent false⟩, .goOn 102]

theorem connections_handed_over_one_client :
    servingMachine.Always Serving.OnePlace Serving.init
      oneClient := by
  have hRuns :
      (servingMachine.exec Serving.init oneClient).isSome :=
    by decide +kernel
  rcases Option.isSome_iff_exists.mp hRuns with ⟨st, hExec⟩
  have hMeets :
      servingMachine.StepsMeet Serving.HandsOver Serving.init
        oneClient := by
    decide +kernel
  exact
    (connections_handed_over_iff
      (Machine.reaches_of_exec hExec)).mpr hMeets

end V2

end WebServer

------------------------------------------------------------
-- A Full Queue
------------------------------------------------------------

namespace WebServer

namespace V2

namespace SortTimerLst

/-
  Timers at the addresses below `n` only, none of which
  expires after second 15.
-/
structure Calm
    (s : SortTimerLst)
    (n : Nat) : Prop where
  free : ∀ a, n ≤ a → s.heap a = none
  expires : ∀ a, s.expireAt a ≤ 15

variable {s t : SortTimerLst}
variable {n : Nat}

theorem Calm.congr
    (h : Calm s n)
    (hSame : SameNodes s t) :
    Calm t n where
  free := by
    intro a hLe
    have hIff := hSame.isSome_iff a
    rw [h.free a hLe] at hIff
    simpa using hIff
  expires := by
    intro a
    rw [hSame.expireAt_eq]
    exact h.expires a

theorem Calm.alloc
    (h : Calm s n)
    (userData : Fd) :
    Calm (s.alloc n 15 userData) (n + 1) where
  free := by
    intro a hLe
    have hNe : a ≠ n := by omega
    change Function.update s.heap n _ a = none
    rw [Function.update_of_ne hNe]
    exact h.free a (by omega)
  expires := by
    intro a
    by_cases hSame : a = n
    · rw [hSame, alloc_expireAt_self]
    · rw [alloc_expireAt_of_ne _ _ _ hSame]
      exact h.expires a

theorem Calm.setExpire
    {a : Addr}
    (h : Calm s n)
    (hStep : s.setExpire a 15 = some t) :
    Calm t n := by
  rcases Option.bind_eq_some_iff.mp hStep with
    ⟨node, hNode, hSome⟩
  rcases Option.some.inj hSome with rfl
  constructor
  · intro b hLe
    have hNe : b ≠ a := by
      rintro rfl
      rw [h.free b hLe] at hNode
      cases hNode
    change Function.update s.heap a _ b = none
    rw [Function.update_of_ne hNe]
    exact h.free b hLe
  · intro b
    by_cases hSame : b = a
    · simp [expireAt, hSame]
    · have hKept := h.expires b
      simpa [expireAt, hSame] using hKept

end SortTimerLst

namespace ServerState

open SortTimerLst

variable {st : ServerState}
variable {n : Nat}

/- A connection accepted in second 0 gets its timer. -/
theorem Good.acceptCalm
    {fd : Fd}
    (h : st.Good)
    (hCalm : Calm st.timerLst n)
    (hFree : st.conns fd = none)
    (hCount : st.userCount < maxFd)
    (hSlot : fd < maxFd) :
    ∃ t, st.dealListenEvent fd n 0 = some t ∧
      t.Good ∧ Calm t.timerLst (n + 1) ∧
        t.userCount = st.userCount + 1 ∧
          t.conns =
            Function.update st.conns fd
              (some st.nextConn) := by
  have hFirst : ∀ first, st.timerLst.head = some first →
      st.timerLst.expireAt first ≤ 0 + 3 * timeslot :=
    fun first _ => hCalm.expires first
  have hFresh := hCalm.free n (Nat.le_refl n)
  rcases h.accept hFree hFresh (.inr ⟨hSlot, hFirst⟩) with
    ⟨t, hStep, hGood⟩
  rcases h with ⟨l, hChained, _⟩
  rcases hChained.addNew hFresh fd hFirst with
    ⟨lst, hAdd, _, hSame, _⟩
  have hEq := dealListenEvent_eq (by omega) hSlot hAdd
  rw [hStep] at hEq
  rcases Option.some.inj hEq with rfl
  exact
    ⟨_, hStep, hGood, (hCalm.alloc fd).congr hSame, rfl,
      rfl⟩

/- And so does one that is read from. -/
theorem Good.prolongCalm
    {fd : Fd}
    (h : st.Good)
    (hCalm : Calm st.timerLst n)
    (hOpen : (st.conns fd).isSome) :
    ∃ t, st.dealReadEvent fd true 0 = some t ∧
      t.Good ∧ Calm t.timerLst n ∧
        t.userCount = st.userCount ∧ t.conns = st.conns := by
  rcases h.prolong hOpen 0 with ⟨t, hStep, hGood⟩
  rcases h with ⟨l, hChained, hOwned⟩
  rcases hOwned.slot hOpen with
    ⟨a, l₁, l₂, rfl, _, hTimer⟩
  rcases hChained.setExpire (a := a) (by simp) 15 with
    ⟨s₁, hSet, hChained₁, _⟩
  rcases hChained₁.adjustTimer with ⟨s₂, hRun, _, hSame⟩
  have hEq :
      st.prolong (st.usersTimer fd).timer 0 =
        some { st with timerLst := s₂ } := by
    rw [hTimer]
    change
      ((st.timerLst.setExpire a 15).bind fun lst =>
          (lst.adjustTimer a).bind fun lst =>
            some { st with timerLst := lst }) =
        _
    rw [hSet]
    change
      ((s₁.adjustTimer a).bind fun lst =>
          some { st with timerLst := lst }) =
        _
    rw [hRun]
    rfl
  rw [hStep] at hEq
  rcases Option.some.inj hEq with rfl
  exact
    ⟨_, hStep, hGood, (hCalm.setExpire hSet).congr hSame, rfl,
      rfl⟩

end ServerState

end V2

end WebServer

namespace WebServer

namespace V2

/-
  `k` connections were accepted, on the descriptors from 10,
  and `q` of them are queued. The workers have not run.
-/
structure Flooded
    (k q : Nat)
    (st : Serving) : Prop where
  pos : st.pos = .looping
  events : st.events = []
  maxRequests : st.pool.maxRequests = 10000
  workqueue : st.pool.workqueue.length = q
  good : st.server.Good
  calm : SortTimerLst.Calm st.server.timerLst k
  userCount : st.server.userCount = k
  free : ∀ fd, 10 + k ≤ fd → st.server.conns fd = none

/- The answers that the flood gives to its handlers. -/
def floodAnswers
    (k : Nat) : Answers where
  accepted := 10 + k
  timer := k
  cur := 0
  read := true
  write := .wouldBlock

/- The bytes of a request have come. -/
def requestCame : EpollEvents where
  epollIn := true
  epollOut := false
  epollRdhup := false
  epollHup := false
  epollErr := false

theorem flooded_init :
    Flooded 0 0 Serving.init where
  pos := rfl
  events := rfl
  maxRequests := rfl
  workqueue := rfl
  good := ServerState.init_good
  calm := ⟨fun _ _ => rfl, fun _ => Int.zero_le_ofNat 15⟩
  userCount := rfl
  free := fun _ _ => rfl

variable {st : Serving}
variable {k q : Nat}
variable {fd : Fd}

/- One more client connects. -/
theorem Flooded.accept
    (h : Flooded k q st)
    (hRoom : 10 + k < maxFd) :
    ∃ t,
      servingMachine.Reaches st
          [.epollWait [.listen], .handle (floodAnswers k)]
          t ∧
        Flooded (k + 1) q t ∧
          t.interest (10 + k) = some .epollIn ∧
            (t.server.conns (10 + k)).isSome := by
  have hFree := h.free _ (Nat.le_refl (10 + k))
  have hCount : st.server.userCount < maxFd := by
    rw [h.userCount]
    omega
  rcases h.good.acceptCalm h.calm hFree hCount hRoom with
    ⟨server, hListen, hGood, hCalm, hUserCount, hConns⟩
  have hOpen : (server.conns (10 + k)).isSome := by
    rw [hConns, Function.update_self]
    rfl
  have hWait :
      servingMachine.enabled st (.epollWait [.listen]) :=
    ⟨⟨h.pos, h.events⟩, by decide, fun r hMem => by
      rw [List.mem_singleton.mp hMem]
      trivial⟩
  have hHandle :
      (st.epollWait [.listen]).handle (floodAnswers k) =
        some
          ((({ st.epollWait [.listen] with
              events := [] } : Serving).serve server).modfd
                (some (10 + k)) .epollIn) := by
    change (st.server.dealListenEvent (10 + k) k 0).bind _ = _
    rw [hListen]
    rfl
  refine
    ⟨_,
      .cons hWait rfl
        (.cons
          ⟨⟨h.pos, List.cons_ne_nil _ _⟩, hFree,
            h.calm.free k (Nat.le_refl k)⟩
          hHandle (.nil _)),
      ?_, ?_, ?_⟩
  · rw [Serving.modfd_open hOpen]
    exact
      { pos := h.pos
        events := rfl
        maxRequests := h.maxRequests
        workqueue := h.workqueue
        good := hGood
        calm := hCalm
        userCount := by
          change server.userCount = _
          rw [hUserCount, h.userCount]
          rfl
        free := by
          intro fd hLe
          have hNe : fd ≠ 10 + k := by omega
          change server.conns fd = none
          rw [hConns, Function.update_of_ne hNe]
          exact h.free fd (by omega) }
  · rw [Serving.modfd_open hOpen]
    exact Function.update_self _ _ _
  · rw [Serving.modfd_open hOpen]
    exact hOpen

/- A client sends its request. -/
theorem Flooded.report
    (h : Flooded (k + 1) q st)
    (hInterest : st.interest fd = some .epollIn) :
    ∃ t,
      servingMachine.Reaches st
          [.epollWait [.conn fd requestCame],
            .handle (floodAnswers (k + 1))]
          t ∧
        t =
          { st.epollWait [.conn fd requestCame] with
            events := []
            pool := st.pool.append (some fd)
            pos := .appended fd } := by
  have hWait :
      servingMachine.enabled st
        (.epollWait [.conn fd requestCame]) := by
    refine ⟨⟨h.pos, h.events⟩, ⟨?_, by simp⟩, ?_⟩
    · simp [maxEventNumber]
    · intro r hMem
      rw [List.mem_singleton.mp hMem]
      change requestCame.Fits (st.interest fd)
      rw [hInterest]
      exact ⟨rfl, rfl⟩
  exact
    ⟨_,
      .cons hWait rfl
        (.cons
          ⟨⟨h.pos, List.cons_ne_nil _ _⟩,
            h.free _ (Nat.le_refl _),
            h.calm.free _ (Nat.le_refl _)⟩
          rfl (.nil _)),
      rfl⟩

/- It is queued while there is room. -/
theorem Flooded.queue
    (h : Flooded (k + 1) q st)
    (hInterest : st.interest fd = some .epollIn)
    (hOpen : (st.server.conns fd).isSome)
    (hRoom : q ≤ 10000) :
    ∃ es t,
      servingMachine.Reaches st es t ∧
        Flooded (k + 1) (q + 1) t := by
  rcases h.report hInterest with ⟨t, hReport, hQueued⟩
  rcases h.good.prolongCalm h.calm hOpen with
    ⟨server, hRead, hGood, hCalm, hUserCount, hConns⟩
  rcases ThreadPool.exists_finishAppend
      (st.pool.append (some fd)) with
    ⟨pool, hPool⟩
  rcases ThreadPool.finishAppend_frame hPool with
    ⟨hQueue, _, hMax⟩
  have hAppended :
      (st.pool.append (some fd)).workqueue.length = q + 1 ∧
        (st.pool.append (some fd)).maxRequests = 10000 := by
    have hLength := h.workqueue
    have hLimit := h.maxRequests
    unfold ThreadPool.append
    rw [if_neg (by omega)]
    refine ⟨?_, hLimit⟩
    change (st.pool.workqueue ++ [some fd]).length = q + 1
    rw [List.length_append, hLength]
    rfl
  have hGoOn :
      t.goOn 0 =
        some
          (({ t with
              pool := pool
              pos := .looping } : Serving).serve server) := by
    rw [hQueued]
    change
      ((st.pool.append (some fd)).finishAppend.bind fun pool =>
          (st.server.dealReadEvent fd true 0).bind _) =
        _
    rw [hPool, hRead]
    rfl
  have hBusy : servingMachine.enabled t (.goOn 0) := by
    change t.pos ≠ .looping
    rw [hQueued]
    exact MainPos.noConfusion
  refine
    ⟨_, _,
      hReport.append (.cons hBusy hGoOn (.nil _)), ?_⟩
  rw [hQueued]
  exact
    { pos := rfl
      events := rfl
      maxRequests := hMax.trans hAppended.2
      workqueue := by
        change pool.workqueue.length = q + 1
        rw [hQueue]
        exact hAppended.1
      good := hGood
      calm := hCalm
      userCount := hUserCount.trans h.userCount
      free := by
        intro other hLe
        change server.conns other = none
        rw [hConns]
        exact h.free other hLe }

/- The clients come one by one until the queue is full. -/
theorem exists_flooded
    (hRoom : k ≤ 10001) :
    ∃ es st,
      servingMachine.Reaches Serving.init es st ∧
        Flooded k k st := by
  induction k with
  | zero => exact ⟨[], _, .nil _, flooded_init⟩
  | succ k ih =>
      rcases ih (by omega) with ⟨es, st, hReach, hFlooded⟩
      rcases hFlooded.accept (by unfold maxFd; omega) with
        ⟨t, hAccept, hAccepted, hInterest, hOpen⟩
      rcases hAccepted.queue hInterest hOpen (by omega) with
        ⟨es', u, hQueue, hNext⟩
      exact
        ⟨_, u, hReach.append (hAccept.append hQueue), hNext⟩

/-
  With 10001 requests queued and the workers not running,
  the next client that sends a request is in no place: it is
  not armed, and `append` has refused it.
-/
theorem full_queue_strands :
    ¬ ∀ es,
      servingMachine.Always Serving.OnePlace Serving.init
        es := by
  intro hAll
  rcases exists_flooded (Nat.le_refl 10001) with
    ⟨es, st, hReach, hFlooded⟩
  rcases hFlooded.accept (by unfold maxFd; omega) with
    ⟨t, hAccept, hAccepted, hInterest, _⟩
  rcases hAccepted.report hInterest with ⟨u, hReport, _⟩
  have hFront := hReach.append hAccept
  have hRun := hFront.append hReport
  have hMeets := Serving.handsOver_of_onePlace hRun (hAll _)
  have hLast := (hMeets.append hFront).2
  cases hReport with
  | cons hWait hFirst hRest =>
      rcases Option.some.inj hFirst with rfl
      cases hRest with
      | cons hHandle _ _ =>
          have hPasses :=
            ((hLast hWait).2 _ rfl hHandle).1
              (.conn 10011 requestCame) rfl ⟨rfl, rfl, rfl⟩
          change
            t.pool.workqueue.length ≤ t.pool.maxRequests
            at hPasses
          rw [hAccepted.workqueue, hAccepted.maxRequests]
            at hPasses
          omega

end V2

end WebServer
