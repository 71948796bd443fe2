import WebServer.V2.Server
import WebServer.V2.Timer.Calls

/-
  Timers and connections of the version 2.0 server belong
  together over whole runs.

  Along a run every listed timer was created for the
  connection open on its descriptor, every open connection
  has exactly one listed timer, and the callbacks close no
  other connection. Closing a connection without deleting
  its timer breaks this (the hang-up branch of `start`, and
  a failed `process_write`), and so does an accept whose
  timer is lost or whose descriptor is past the arrays. The
  main result says that no other step does.

  Main declarations:
    * `ServerState.Corresponds`
    * `ServerState.Owned`
    * `ServerState.RetiresTimers`
    * `connections_correspond_iff`
-/

------------------------------------------------------------
-- Correspondence
------------------------------------------------------------

namespace WebServer

namespace V2

namespace ServerState

open SortTimerLst
open DoublyLinked

/-
  Every timer reached from `head` was created for the
  connection open on its `user_data->sockfd`, and every open
  connection has exactly one timer in the list.
-/
def TimersMatch
    (st : ServerState) : Prop :=
  ∃ l,
    Walk st.timerLst.nx st.timerLst.head l ∧
      (∀ a ∈ l, ∃ c,
        st.createdFor a = some c ∧
          st.conns
            (st.usersTimer
              (st.timerLst.userDataAt a)).sockfd = some c) ∧
      ∀ fd c, st.conns fd = some c →
        ∃! a, a ∈ l ∧ st.createdFor a = some c

/-
  Timers and connections match, and each connection closed
  by a callback was the one its timer was created for.
-/
def Corresponds
    (st : ServerState) : Prop :=
  st.TimersMatch ∧ ∀ p ∈ st.closedByTimer, p.1 = p.2

/-
  The bookkeeping behind the correspondence, for the timers
  listed in `l`: each one sits in the slot it points to, and
  each open connection is set up and has a timer.
-/
structure Owned
    (st : ServerState)
    (l : List Addr) : Prop where
  timer_ok :
    ∀ a ∈ l,
      st.usersTimer (st.timerLst.userDataAt a) =
          ⟨st.timerLst.userDataAt a, some a⟩ ∧
        ∃ c,
          st.createdFor a = some c ∧
            st.conns (st.timerLst.userDataAt a) = some c
  conn_ok :
    ∀ fd c, st.conns fd = some c →
      st.users fd = some fd ∧
        c < st.nextConn ∧
          ∃ a ∈ l, st.timerLst.userDataAt a = fd
  conn_inj :
    ∀ fd fd' c,
      st.conns fd = some c → st.conns fd' = some c →
        fd = fd'
  closed_ok : ∀ p ∈ st.closedByTimer, p.1 = p.2

/- The invariant of a run: a proper list, fully owned. -/
def Good
    (st : ServerState) : Prop :=
  ∃ l, Chained st.timerLst l ∧ st.Owned l

theorem init_good :
    init.Good := by
  refine ⟨[], chained_empty, ?_⟩
  exact
    { timer_ok := by simp
      conn_ok := by simp [init]
      conn_inj := by simp [init]
      closed_ok := by simp [init] }

/- Two listed timers of one slot are the same timer. -/
theorem Owned.timer_unique
    {st : ServerState}
    {l : List Addr}
    {a b : Addr}
    (h : st.Owned l)
    (ha : a ∈ l)
    (hb : b ∈ l)
    (hEq :
      st.timerLst.userDataAt a =
        st.timerLst.userDataAt b) :
    a = b := by
  have hA := (h.timer_ok a ha).1
  have hB := (h.timer_ok b hb).1
  rw [hEq, hB] at hA
  simpa using hA.symm

/- The invariant gives the correspondence. -/
theorem Good.corresponds
    {st : ServerState}
    (h : st.Good) :
    st.Corresponds := by
  rcases h with ⟨l, hChained, hOwned⟩
  refine ⟨⟨l, ?_, ?_, ?_⟩, hOwned.closed_ok⟩
  · rw [hChained.head_eq]
    exact hChained.seg.walk
  · intro a ha
    rcases hOwned.timer_ok a ha with
      ⟨hSlot, c, hCreated, hOpen⟩
    refine ⟨c, hCreated, ?_⟩
    rw [hSlot]
    exact hOpen
  · intro fd c hOpen
    rcases hOwned.conn_ok fd c hOpen with
      ⟨_, _, a, ha, rfl⟩
    rcases hOwned.timer_ok a ha with
      ⟨_, c', hCreated, hOpen'⟩
    have hEq : c = c' :=
      Option.some.inj (hOpen.symm.trans hOpen')
    subst hEq
    refine ⟨a, ⟨ha, hCreated⟩, ?_⟩
    rintro b ⟨hb, hCreatedB⟩
    rcases hOwned.timer_ok b hb with
      ⟨_, c', hCreatedB', hOpenB⟩
    have hEq : c = c' :=
      Option.some.inj (hCreatedB.symm.trans hCreatedB')
    subst hEq
    exact
      hOwned.timer_unique hb ha
        (hOwned.conn_inj _ _ c hOpenB hOpen)

end ServerState

end V2

end WebServer

------------------------------------------------------------
-- Operations On Owned Lists
------------------------------------------------------------

namespace WebServer

namespace V2

namespace ServerState

open SortTimerLst

variable {st : ServerState}
variable {l l' : List Addr}

/- Ownership reads the list's slots, not its links. -/
theorem Owned.relist
    {lst : SortTimerLst}
    (h : st.Owned l)
    (hMem : ∀ a, a ∈ l' ↔ a ∈ l)
    (hSlot :
      ∀ a ∈ l,
        lst.userDataAt a = st.timerLst.userDataAt a) :
    ({ st with timerLst := lst }).Owned l' := by
  refine
    { timer_ok := ?_
      conn_ok := ?_
      conn_inj := h.conn_inj
      closed_ok := h.closed_ok }
  · intro a ha
    have ha' := (hMem a).mp ha
    change
      st.usersTimer (lst.userDataAt a) = _ ∧ ∃ c, _ ∧
        st.conns (lst.userDataAt a) = some c
    rw [hSlot a ha']
    exact h.timer_ok a ha'
  · intro fd c hOpen
    rcases h.conn_ok fd c hOpen with
      ⟨hUser, hOld, a, ha, hFd⟩
    exact
      ⟨hUser, hOld, a, (hMem a).mpr ha,
        (hSlot a ha).trans hFd⟩

/-
  Closing the connection of a listed timer, and taking this
  timer out, leaves the rest owned.
-/
theorem Owned.close
    {a : Addr}
    (h : st.Owned (a :: l))
    (hNotIn : a ∉ l) :
    (st.close (st.timerLst.userDataAt a)).Owned l := by
  have hOther :
      ∀ b ∈ l,
        st.timerLst.userDataAt b ≠
          st.timerLst.userDataAt a := by
    intro b hb hEq
    have hSame :=
      h.timer_unique (List.mem_cons_of_mem _ hb)
        List.mem_cons_self hEq
    subst hSame
    exact hNotIn hb
  have hOpen :
      ∀ {fd c},
        (st.close (st.timerLst.userDataAt a)).conns fd =
            some c →
          fd ≠ st.timerLst.userDataAt a ∧
            st.conns fd = some c := by
    intro fd c hSome
    by_cases hFd : fd = st.timerLst.userDataAt a
    · simp [ServerState.close, hFd] at hSome
    · simpa [ServerState.close, hFd] using hSome
  refine
    { timer_ok := ?_
      conn_ok := ?_
      conn_inj := ?_
      closed_ok := h.closed_ok }
  · intro b hb
    rcases h.timer_ok b (List.mem_cons_of_mem _ hb) with
      ⟨hSlot, c, hCreated, hConn⟩
    refine ⟨hSlot, c, hCreated, ?_⟩
    simpa [ServerState.close, hOther b hb] using hConn
  · intro fd c hSome
    rcases hOpen hSome with ⟨hNe, hConn⟩
    rcases h.conn_ok fd c hConn with
      ⟨hUser, hOld, b, hb, hFd⟩
    refine ⟨hUser, hOld, b, ?_, hFd⟩
    rcases List.mem_cons.mp hb with rfl | hb
    · exact (hNe hFd.symm).elim
    · exact hb
  · intro fd fd' c hSome hSome'
    exact
      h.conn_inj fd fd' c (hOpen hSome).2 (hOpen hSome').2

/- One callback closes its own connection. -/
theorem Owned.cbFunc
    {a : Addr}
    (h : st.Owned (a :: l))
    (hNotIn : a ∉ l) :
    (st.cbFunc a (st.timerLst.userDataAt a)).Owned l := by
  rcases h.timer_ok a List.mem_cons_self with
    ⟨hSlot, c, hCreated, hConn⟩
  have hClosed := h.close hNotIn
  have hSockfd :
      (st.usersTimer (st.timerLst.userDataAt a)).sockfd =
        st.timerLst.userDataAt a := by
    rw [hSlot]
  unfold ServerState.cbFunc
  rw [hSockfd]
  refine
    { timer_ok := hClosed.timer_ok
      conn_ok := hClosed.conn_ok
      conn_inj := hClosed.conn_inj
      closed_ok := ?_ }
  intro p hp
  rcases List.mem_append.mp hp with hp | hp
  · exact h.closed_ok p hp
  · rw [List.mem_singleton.mp hp]
    exact hCreated.trans hConn.symm

/- Callbacks leave the list and its slots alone. -/
@[simp] theorem cbFunc_timerLst
    (st : ServerState)
    (timer : Addr)
    (userData : Fd) :
    (st.cbFunc timer userData).timerLst = st.timerLst := rfl

@[simp] theorem runCallbacks_nil
    (st : ServerState) :
    st.runCallbacks [] = st := rfl

@[simp] theorem runCallbacks_cons
    (st : ServerState)
    (f : Addr × Fd)
    (fired : List (Addr × Fd)) :
    st.runCallbacks (f :: fired) =
      (st.cbFunc f.1 f.2).runCallbacks fired := rfl

theorem runCallbacks_timerLst
    (st : ServerState)
    (fired : List (Addr × Fd)) :
    (st.runCallbacks fired).timerLst = st.timerLst := by
  induction fired generalizing st with
  | nil => rfl
  | cons f fired ih => exact ih _

/- The callbacks of a tick leave the rest owned. -/
theorem Owned.runCallbacks
    {fired : List Addr}
    (h : st.Owned (fired ++ l))
    (hNodup : (fired ++ l).Nodup) :
    (st.runCallbacks (st.timerLst.callbacks fired)).Owned
      l := by
  induction fired generalizing st with
  | nil => exact h
  | cons a fired ih =>
      have hParts := List.nodup_cons.mp hNodup
      exact ih (h.cbFunc hParts.1) hParts.2

/- `close_conn` of a listed timer's connection. -/
theorem Owned.closeConn
    {a : Addr}
    (h : st.Owned (a :: l))
    (hNotIn : a ∉ l) :
    (st.closeConn (st.timerLst.userDataAt a)).Owned l := by
  rcases h.timer_ok a List.mem_cons_self with
    ⟨_, c, _, hConn⟩
  have hUser := (h.conn_ok _ c hConn).1
  have hClosed := h.close hNotIn
  unfold ServerState.closeConn
  rw [hUser]
  refine
    { timer_ok := hClosed.timer_ok
      conn_ok := ?_
      conn_inj := hClosed.conn_inj
      closed_ok := hClosed.closed_ok }
  intro fd c' hSome
  rcases hClosed.conn_ok fd c' hSome with
    ⟨hUser', hOld, hTimer⟩
  refine ⟨?_, hOld, hTimer⟩
  have hNe : fd ≠ st.timerLst.userDataAt a := by
    rintro rfl
    simp [ServerState.close] at hSome
  simpa [hNe, ServerState.close] using hUser'

@[simp] theorem closeConn_timerLst
    (st : ServerState)
    (fd : Fd) :
    (st.closeConn fd).timerLst = st.timerLst := by
  unfold closeConn
  split <;> rfl

/- An accepted connection with its timer is owned. -/
theorem Owned.accept
    {lst : SortTimerLst}
    {fd : Fd}
    {timer : Addr}
    (h : st.Owned l)
    (hFree : st.conns fd = none)
    (hFresh : timer ∉ l)
    (hMem : ∀ a, a ∈ l' ↔ a = timer ∨ a ∈ l)
    (hSlot : lst.userDataAt timer = fd)
    (hOther :
      ∀ a ∈ l,
        lst.userDataAt a = st.timerLst.userDataAt a) :
    ({ st.accept fd with
        users := Function.update st.users fd (some fd)
        userCount := st.userCount + 1
        usersTimer :=
          Function.update st.usersTimer fd ⟨fd, some timer⟩
        timerLst := lst
        createdFor :=
          Function.update st.createdFor timer
            (some st.nextConn) } : ServerState).Owned
      l' := by
  -- the slots of the timers already listed are other slots
  have hFdNe :
      ∀ a ∈ l, st.timerLst.userDataAt a ≠ fd := by
    rintro a ha rfl
    rcases h.timer_ok a ha with ⟨_, c, _, hConn⟩
    simp [hFree] at hConn
  have hNe : ∀ a ∈ l, a ≠ timer := by
    rintro a ha rfl
    exact hFresh ha
  have hOpen :
      ∀ {fd' c},
        (st.accept fd).conns fd' = some c →
          (fd' = fd ∧ c = st.nextConn) ∨
            (fd' ≠ fd ∧ st.conns fd' = some c) := by
    intro fd' c hSome
    by_cases hFd : fd' = fd
    · left
      subst hFd
      refine ⟨rfl, ?_⟩
      simpa [ServerState.accept] using hSome.symm
    · right
      refine ⟨hFd, ?_⟩
      simpa [ServerState.accept, hFd] using hSome
  refine
    { timer_ok := ?_
      conn_ok := ?_
      conn_inj := ?_
      closed_ok := h.closed_ok }
  · intro a ha
    rcases (hMem a).mp ha with rfl | ha
    · simp [ServerState.accept, hSlot]
    · rcases h.timer_ok a ha with
        ⟨hSlotA, c, hCreated, hConn⟩
      simp [ServerState.accept, hOther a ha, hFdNe a ha,
        hNe a ha, hSlotA, hCreated, hConn]
  · intro fd' c hSome
    rcases hOpen hSome with ⟨rfl, rfl⟩ | ⟨hFd, hConn⟩
    · refine
        ⟨by simp, Nat.lt_succ_self _, timer,
          (hMem _).mpr (.inl rfl), hSlot⟩
    · rcases h.conn_ok fd' c hConn with
        ⟨hUser, hOld, a, ha, hSlotA⟩
      refine
        ⟨by simpa [hFd] using hUser,
          Nat.lt_succ_of_lt hOld, a,
          (hMem _).mpr (.inr ha),
          (hOther a ha).trans hSlotA⟩
  · intro fd₁ fd₂ c h₁ h₂
    rcases hOpen h₁ with ⟨rfl, hC⟩ | ⟨_, hConn₁⟩
    · rcases hOpen h₂ with ⟨hFd, _⟩ | ⟨_, hConn₂⟩
      · exact hFd.symm
      · have hOld := (h.conn_ok _ _ hConn₂).2.1
        exact (Nat.ne_of_lt hOld hC).elim
    · rcases hOpen h₂ with ⟨_, hC⟩ | ⟨_, hConn₂⟩
      · have hOld := (h.conn_ok _ _ hConn₁).2.1
        exact (Nat.ne_of_lt hOld hC).elim
      · exact h.conn_inj _ _ c hConn₁ hConn₂

end ServerState

end V2

end WebServer

------------------------------------------------------------
-- Step Lemmas
------------------------------------------------------------

namespace WebServer

namespace V2

namespace ServerState

open SortTimerLst
open DoublyLinked

/-
  The steps that keep timers and connections together: no
  hang-up or error event, no failed `process_write`, and
  each accepted connection is either turned away or has a
  slot and a timer that does not expire before the head.
-/
def RetiresTimers
    (st : ServerState) :
    ServerEvent → Prop
| .accept fd _ cur =>
    (maxFd : Int) ≤ st.userCount ∨
      (fd < maxFd ∧
        ∀ first, st.timerLst.head = some first →
          st.timerLst.expireAt first ≤ cur + 3 * timeslot)
| .hangUp _ => False
| .readable _ _ _ => True
| .writable _ _ _ => True
| .process _ writeRet => writeRet = true
| .tick _ => True

/- An open connection's slot holds its listed timer. -/
theorem Owned.slot
    {st : ServerState}
    {l : List Addr}
    {fd : Fd}
    (h : st.Owned l)
    (hOpen : (st.conns fd).isSome) :
    ∃ a l₁ l₂,
      l = l₁ ++ a :: l₂ ∧
        st.timerLst.userDataAt a = fd ∧
          (st.usersTimer fd).timer = some a := by
  rcases Option.isSome_iff_exists.mp hOpen with ⟨c, hConn⟩
  rcases h.conn_ok fd c hConn with ⟨_, _, a, ha, rfl⟩
  rcases List.append_of_mem ha with ⟨l₁, l₂, rfl⟩
  refine ⟨a, l₁, l₂, rfl, rfl, ?_⟩
  rw [(h.timer_ok a ha).1]

/- Prolonging the timer of an open connection. -/
theorem Good.prolong
    {st : ServerState}
    {fd : Fd}
    (h : st.Good)
    (hOpen : (st.conns fd).isSome)
    (cur : Int) :
    ∃ t, st.prolong (st.usersTimer fd).timer cur = some t ∧
      t.Good := by
  rcases h with ⟨l, hChained, hOwned⟩
  rcases hOwned.slot hOpen with
    ⟨a, l₁, l₂, rfl, _, hTimer⟩
  rcases hChained.setExpire (a := a) (by simp)
      (cur + 3 * timeslot) with
    ⟨s₁, hSet, hChained₁, _, _, hSlot₁, _⟩
  rcases hChained₁.adjustTimer with
    ⟨s₂, hRun, hChained₂, hSame⟩
  refine
    ⟨{ st with timerLst := s₂ },
      by simp [ServerState.prolong, hTimer, hSet, hRun],
      _, hChained₂, hOwned.relist ?_ ?_⟩
  · intro b
    have hPlace :=
      ((s₁.place_perm a l₂).append_left l₁).mem_iff (a := b)
    exact hPlace
  · intro b _
    rw [hSame.userDataAt_eq List.not_mem_nil, hSlot₁]

/- Closing an open connection and deleting its timer. -/
theorem Good.retire
    {st : ServerState}
    {fd : Fd}
    (h : st.Good)
    (hOpen : (st.conns fd).isSome) :
    ∃ t, st.retire fd (st.usersTimer fd).timer = some t ∧
      t.Good := by
  rcases h with ⟨l, hChained, hOwned⟩
  rcases hOwned.slot hOpen with
    ⟨a, l₁, l₂, rfl, rfl, hTimer⟩
  rcases hChained.delTimer with
    ⟨s', hRun, hChained', hKept, _⟩
  have hNotIn : a ∉ l₁ ++ l₂ :=
    (List.nodup_cons.mp
      (List.perm_middle.nodup_iff.mp hChained.nodup)).1
  have hFront : st.Owned (a :: (l₁ ++ l₂)) :=
    hOwned.relist
      (fun _ => List.perm_middle.symm.mem_iff)
      (fun _ _ => rfl)
  have hClosed := hFront.closeConn hNotIn
  refine
    ⟨_, by simp [ServerState.retire, hTimer, hRun],
      _, hChained', hClosed.relist (fun _ => Iff.rfl) ?_⟩
  intro b hb
  rw [closeConn_timerLst]
  apply hKept.userDataAt_eq
  intro hMem
  rw [List.mem_singleton.mp hMem] at hb
  exact hNotIn hb

/- A tick closes the connections of the timers it fires. -/
theorem Good.tick
    {st : ServerState}
    (h : st.Good)
    (cur : Int) :
    ∃ t, st.tick cur = some t ∧ t.Good := by
  rcases h with ⟨l, hChained, hOwned⟩
  rcases hChained.tick cur with
    ⟨s', hRun, hChained', hKept, _⟩
  have hSplit := st.timerLst.expired_append_remaining cur l
  have hNodup := hChained.nodup
  rw [← hSplit] at hOwned hNodup
  have hDone := hOwned.runCallbacks hNodup
  refine
    ⟨_, by simp [ServerState.tick, hRun], _,
      hChained', hDone.relist (fun _ => Iff.rfl) ?_⟩
  intro a ha
  rw [runCallbacks_timerLst]
  apply hKept.userDataAt_eq
  intro hFired
  exact (List.nodup_append.mp hNodup).2.2 a hFired a ha rfl

/- A connection turned away leaves everything as it was. -/
theorem Good.turnAway
    {st : ServerState}
    {fd : Fd}
    (h : st.Good)
    (hFree : st.conns fd = none) :
    ((st.accept fd).close fd).Good := by
  rcases h with ⟨l, hChained, hOwned⟩
  have hConns :
      ((st.accept fd).close fd).conns = st.conns := by
    simp [ServerState.accept, ServerState.close, ← hFree]
  refine ⟨l, hChained, ?_⟩
  refine
    { timer_ok := ?_
      conn_ok := ?_
      conn_inj := ?_
      closed_ok := hOwned.closed_ok }
  · rw [hConns]
    exact hOwned.timer_ok
  · rw [hConns]
    intro fd' c hOpen
    rcases hOwned.conn_ok fd' c hOpen with
      ⟨hUser, hOld, hTimer⟩
    exact ⟨hUser, Nat.lt_succ_of_lt hOld, hTimer⟩
  · rw [hConns]
    exact hOwned.conn_inj

/-
  What an accept does to the list when the connection is
  not turned away and its descriptor has a slot.
-/
theorem dealListenEvent_eq
    {st : ServerState}
    {fd : Fd}
    {timer : Addr}
    {cur : Int}
    {lst : SortTimerLst}
    (hRoom : ¬ (maxFd : Int) ≤ st.userCount)
    (hSlot : fd < maxFd)
    (hAdd :
      (st.timerLst.alloc timer (cur + 3 * timeslot)
        fd).addTimer timer = some lst) :
    st.dealListenEvent fd timer cur =
      some
        { st.accept fd with
          users := Function.update st.users fd (some fd)
          userCount := st.userCount + 1
          usersTimer :=
            Function.update st.usersTimer fd
              ⟨fd, some timer⟩
          timerLst := lst
          createdFor :=
            Function.update st.createdFor timer
              (some st.nextConn) } := by
  simp [dealListenEvent, addClient, hRoom, hSlot, hAdd,
    ServerState.accept]

/- Accepting keeps the invariant under the condition. -/
theorem Good.accept
    {st : ServerState}
    {fd : Fd}
    {timer : Addr}
    {cur : Int}
    (h : st.Good)
    (hFree : st.conns fd = none)
    (hFresh : st.timerLst.heap timer = none)
    (hKeeps : st.RetiresTimers (.accept fd timer cur)) :
    ∃ t, st.dealListenEvent fd timer cur = some t ∧
      t.Good := by
  by_cases hFull : (maxFd : Int) ≤ st.userCount
  · exact
      ⟨_, by simp [dealListenEvent, hFull],
        h.turnAway hFree⟩
  · rcases hKeeps with hFull' | ⟨hSlot, hOrder⟩
    · exact (hFull hFull').elim
    · rcases h with ⟨l, hChained, hOwned⟩
      rcases hChained.addNew hFresh fd hOrder with
        ⟨lst, hAdd, hChained', hSame, hNotIn⟩
      have hUser :
          ∀ a, lst.userDataAt a = _ :=
        fun a => hSame.userDataAt_eq (a := a)
          List.not_mem_nil
      refine
        ⟨_, dealListenEvent_eq hFull hSlot hAdd, _,
          hChained', ?_⟩
      apply hOwned.accept hFree hNotIn
      · intro a
        rw [(place_perm _ _ _).mem_iff, List.mem_cons]
      · rw [hUser, alloc_userDataAt_self]
      · rintro a ha
        rw [hUser]
        apply alloc_userDataAt_of_ne
        rintro rfl
        exact hNotIn ha

/-
  A connection closed while its timer stays in the list
  breaks the correspondence.
-/
theorem Good.closeConn_breaks
    {st : ServerState}
    {fd : Fd}
    (h : st.Good)
    (hOpen : (st.conns fd).isSome) :
    ¬ (st.closeConn fd).Corresponds := by
  rcases h with ⟨l, hChained, hOwned⟩
  rcases hOwned.slot hOpen with
    ⟨a, l₁, l₂, rfl, rfl, _⟩
  have hIn : a ∈ l₁ ++ a :: l₂ := by simp
  rcases hOwned.timer_ok a hIn with
    ⟨hSlot, c, _, hConn⟩
  have hUser := (hOwned.conn_ok _ c hConn).1
  rintro ⟨⟨l', hWalk, hTimers, _⟩, _⟩
  have hSame : l' = l₁ ++ a :: l₂ := by
    apply hWalk.unique
    rw [closeConn_timerLst, hChained.head_eq]
    exact hChained.seg.walk
  rcases hTimers a (hSame ▸ hIn) with ⟨c', _, hStill⟩
  rw [closeConn_timerLst] at hStill
  simp [ServerState.closeConn, hUser, hSlot,
    ServerState.close] at hStill

/-
  An accepted connection whose timer expires before the head
  has no timer in the list.
-/
theorem Good.accept_breaks
    {st t : ServerState}
    {fd : Fd}
    {timer : Addr}
    {cur : Int}
    (h : st.Good)
    (hFresh : st.timerLst.heap timer = none)
    (hLoses : ¬ st.RetiresTimers (.accept fd timer cur))
    (hStep : st.dealListenEvent fd timer cur = some t) :
    ¬ t.Corresponds := by
  rcases h with ⟨l, hChained, hOwned⟩
  simp only [RetiresTimers, not_or, not_and] at hLoses
  rcases hLoses with ⟨hRoom, hLate⟩
  by_cases hSlot : fd < maxFd
  · have hFirst := hLate hSlot
    push Not at hFirst
    rcases hFirst with ⟨first, hHead, hEarlier⟩
    rcases hChained.addNew_before_head hFresh fd hHead
        hEarlier with
      ⟨lst, hAdd, hWalk, _⟩
    rw [dealListenEvent_eq hRoom hSlot hAdd] at hStep
    have hEq := Option.some.inj hStep
    subst hEq
    rintro ⟨⟨l', hWalk', _, hConns⟩, _⟩
    have hSame : l' = l := hWalk'.unique hWalk
    subst hSame
    rcases hConns fd st.nextConn
        (by simp [ServerState.accept]) with
      ⟨a, ⟨ha, hCreated⟩, _⟩
    -- a listed timer was created for an older connection
    have hNe : a ≠ timer := by
      rintro rfl
      have hSome := hChained.alloc a ha
      simp [hFresh] at hSome
    rcases hOwned.timer_ok a ha with
      ⟨_, c, hCreatedOld, hConn⟩
    have hOld := (hOwned.conn_ok _ c hConn).2.1
    have hEq : c = st.nextConn := by
      simpa [hNe, hCreatedOld] using hCreated
    exact Nat.ne_of_lt hOld hEq
  · simp [dealListenEvent, hRoom, addClient, hSlot]
      at hStep

/- Every event that meets the condition keeps the match. -/
theorem step_good
    (st : ServerState)
    (e : ServerEvent)
    (h : st.Good)
    (hEnabled : st.enabled e)
    (hMeets : st.RetiresTimers e) :
    ∃ t, st.step e = some t ∧ t.Good := by
  cases e with
  | accept fd timer cur =>
      exact h.accept hEnabled.1 hEnabled.2 hMeets
  | hangUp fd => exact hMeets.elim
  | readable fd read cur =>
      cases read with
      | true => exact h.prolong hEnabled cur
      | false => exact h.retire hEnabled
  | writable fd write cur =>
      cases write with
      | true => exact h.prolong hEnabled cur
      | false => exact h.retire hEnabled
  | process fd writeRet =>
      refine ⟨st, ?_, h⟩
      simp only [RetiresTimers] at hMeets
      simp [step, process, hMeets]
  | tick cur => exact h.tick cur

/- Every other event breaks it. -/
theorem step_breaks
    (st : ServerState)
    (e : ServerEvent)
    (h : st.Good)
    (hEnabled : st.enabled e)
    (hMisses : ¬ st.RetiresTimers e)
    (t : ServerState)
    (hStep : st.step e = some t) :
    ¬ t.Corresponds := by
  cases e with
  | accept fd timer cur =>
      exact h.accept_breaks hEnabled.2 hMisses hStep
  | hangUp fd =>
      have hEq := Option.some.inj hStep
      subst hEq
      exact h.closeConn_breaks hEnabled
  | readable fd read cur => exact (hMisses trivial).elim
  | writable fd write cur => exact (hMisses trivial).elim
  | process fd writeRet =>
      have hFailed : writeRet = false := by
        simpa [RetiresTimers] using hMisses
      have hEq := Option.some.inj hStep
      subst hEq
      rw [hFailed]
      exact h.closeConn_breaks hEnabled
  | tick cur => exact (hMisses trivial).elim

end ServerState

end V2

end WebServer

------------------------------------------------------------
-- Whole Runs
------------------------------------------------------------

namespace WebServer

namespace V2

/-
  Over every run of the server, no handler fails and timers
  and connections correspond throughout exactly when every
  event meets the condition.
-/
theorem connections_correspond_iff
    (es : List ServerEvent) :
    serverMachine.Throughout ServerState.Corresponds
        ServerState.init es ↔
      serverMachine.StepsMeet ServerState.RetiresTimers
        ServerState.init es :=
  Machine.throughout_iff_stepsMeet
    (fun _ h => h.corresponds)
    ServerState.step_good
    ServerState.step_breaks
    ServerState.init_good

/-
  Descriptor 5 is accepted, hung up and accepted again; the
  first client's timer then closes the second client.
-/
theorem stale_timer_closes_other_client :
    ¬ serverMachine.Throughout ServerState.Corresponds
        ServerState.init
        [.accept 5 0 100, .hangUp 5, .accept 5 1 101,
          .tick 115] := by
  intro hAll
  rcases hAll.2 ⟨rfl, rfl⟩ with ⟨t, hFirst, hTail⟩
  cases hFirst
  rcases hTail.2 rfl with ⟨u, hSecond, hTail⟩
  cases hSecond
  rcases hTail.2 ⟨rfl, rfl⟩ with ⟨v, hThird, hTail⟩
  cases hThird
  rcases hTail.2 trivial with ⟨w, hFourth, hLast⟩
  cases hFourth
  have hClosed := hLast.head.2 (some 0, some 1) (by decide)
  simp at hClosed

end V2

end WebServer
