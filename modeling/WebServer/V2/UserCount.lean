import Mathlib.Data.Set.Card
import WebServer.V2.Server

/-
  The user count of the version 2.0 server.

  `m_user_count` is changed by `http_conn::init`, by
  `close_conn`, and by `cb_func`. Only `close_conn` looks at
  a closed flag, `m_sockfd`, and `cb_func` does not set it;
  nor does `close_conn` delete the timer in all branches. So
  one connection may be closed, and subtracted, twice.

  Here the events come in any order: a worker may close a
  connection long after a timer did. The count stays the
  number of open connections exactly as long as `close_conn`
  finds no descriptor that is closed already, and the timers
  due at a tick belong to different open connections.

  Key definitions include:
    * `ServerState.openConns`
    * `ServerState.Counted`
    * `SortTimerLst.due`
    * `ServerState.ClosesOpen`
    * `countingMachine`

  Key theorems include:
    * `SortTimerLst.tick_due`
    * `ServerState.Tracked.close_all_iff`
    * `ServerState.Tracked.step_iff`
    * `user_count_iff`
-/

------------------------------------------------------------
-- The Count And Its Conditions
------------------------------------------------------------

namespace WebServer

namespace V2

namespace SortTimerLst

/-
  The slots of the timers that are due, from a node on to
  the first timer that is not.
-/
def dueFrom
    (s : SortTimerLst)
    (cur : Int) :
    Nat → Option Addr → List Fd
| 0, _ => []
| _, none => []
| fuel + 1, some tmp =>
    match s.heap tmp with
    | none => []
    | some node =>
        if cur < node.expire then
          []
        else
          node.userData :: s.dueFrom cur fuel node.next

def due
    (s : SortTimerLst)
    (cur : Int) : List Fd :=
  s.dueFrom cur s.allocations s.head

end SortTimerLst

namespace ServerState

/-
  The server before its first event, whatever `m_sockfd` the
  array `users` was allocated with.
-/
def start
    (users : Fd → Option Fd) : ServerState :=
  { init with users := users }

/- The connections accepted and not yet closed. -/
def openConns
    (st : ServerState) : Set ConnId :=
  { c | ∃ fd, st.conns fd = some c }

/- `m_user_count` is their number. -/
def Counted
    (st : ServerState) : Prop :=
  st.userCount = st.openConns.ncard

/- `close_conn()` on `users[fd]` closes an open descriptor. -/
def ClosesOpen
    (st : ServerState)
    (fd : Fd) : Prop :=
  ∀ sockfd ∈ st.users fd, (st.conns sockfd).isSome

/- The descriptors that the callbacks of a tick close. -/
def dueFds
    (st : ServerState)
    (cur : Int) : List Fd :=
  (st.timerLst.due cur).map fun userData =>
    (st.usersTimer userData).sockfd

/- What is subtracted is open, and subtracted once. -/
def ClosesOnce
    (st : ServerState) :
    ServerEvent → Prop
| .accept _ _ _ => True
| .hangUp fd => st.ClosesOpen fd
| .readable fd read _ => read = false → st.ClosesOpen fd
| .writable fd write _ => write = false → st.ClosesOpen fd
| .process fd writeRet => writeRet = false → st.ClosesOpen fd
| .tick cur =>
    (st.dueFds cur).Nodup ∧
      ∀ fd ∈ st.dueFds cur, (st.conns fd).isSome

/-
  Any event may come at any time; `accept` returns a
  descriptor that is not open, and `new` a free address.
-/
def allows
    (st : ServerState) :
    ServerEvent → Prop
| .accept fd timer _ =>
    st.conns fd = none ∧ st.timerLst.heap timer = none
| _ => True

instance
    (st : ServerState)
    (fd : Fd) :
    Decidable (st.ClosesOpen fd) :=
  inferInstanceAs
    (Decidable
      (∀ sockfd ∈ st.users fd, (st.conns sockfd).isSome))

instance
    (st : ServerState) :
    ∀ e, Decidable (st.ClosesOnce e)
| .accept _ _ _ => isTrue trivial
| .hangUp _ => inferInstanceAs (Decidable (ClosesOpen _ _))
| .readable _ _ _ => inferInstanceAs (Decidable (_ → _))
| .writable _ _ _ => inferInstanceAs (Decidable (_ → _))
| .process _ _ => inferInstanceAs (Decidable (_ → _))
| .tick _ => inferInstanceAs (Decidable (_ ∧ _))

instance
    (st : ServerState) :
    ∀ e, Decidable (st.allows e)
| .accept _ _ _ => inferInstanceAs (Decidable (_ ∧ _))
| .hangUp _ => isTrue trivial
| .readable _ _ _ => isTrue trivial
| .writable _ _ _ => isTrue trivial
| .process _ _ => isTrue trivial
| .tick _ => isTrue trivial

end ServerState

/- The server under events in any order. -/
def countingMachine : Machine ServerState ServerEvent where
  enabled := ServerState.allows
  step := ServerState.step

instance
    (st : ServerState)
    (e : ServerEvent) :
    Decidable (countingMachine.enabled st e) :=
  inferInstanceAs (Decidable (st.allows e))

end V2

end WebServer

------------------------------------------------------------
-- Timers That Are Due
------------------------------------------------------------

namespace WebServer

namespace V2

namespace SortTimerLst

/- What is left of a heap is as it was, but for `prev`. -/
def Leaves
    (s t : SortTimerLst) : Prop :=
  ∀ a node, t.heap a = some node →
    ∃ old,
      s.heap a = some old ∧
        old.expire = node.expire ∧
        old.userData = node.userData ∧
        old.next = node.next

theorem Leaves.refl
    (s : SortTimerLst) :
    s.Leaves s :=
  fun _ node h => ⟨node, h, rfl, rfl, rfl⟩

theorem Leaves.free
    {s t : SortTimerLst}
    (h : s.Leaves t)
    (a : Addr) :
    s.Leaves (t.free a) := by
  intro b node hNode
  unfold SortTimerLst.free at hNode
  simp only at hNode
  by_cases hSame : b = a
  · subst hSame
    rw [Function.update_self] at hNode
    cases hNode
  · rw [Function.update_of_ne hSame] at hNode
    exact h b node hNode

theorem Leaves.moveHead
    {s t u : SortTimerLst}
    {next : Option Addr}
    (h : s.Leaves t)
    (hMove : t.moveHead next = some u) :
    s.Leaves u ∧ u.head = next := by
  cases next with
  | none =>
      rcases Option.some.inj hMove with rfl
      exact ⟨h, rfl⟩
  | some first =>
      unfold SortTimerLst.moveHead setPrev at hMove
      rcases Option.bind_eq_some_iff.mp hMove with
        ⟨node, hNode, hSome⟩
      rcases Option.some.inj hSome with rfl
      refine ⟨?_, rfl⟩
      intro b node' hNode'
      simp only at hNode hNode'
      by_cases hSame : b = first
      · subst hSame
        rw [Function.update_self] at hNode'
        rcases Option.some.inj hNode' with rfl
        exact h b node hNode
      · rw [Function.update_of_ne hSame] at hNode'
        exact h b node' hNode'

/- The loop of `tick` fires the timers that were due. -/
theorem tickLoop_due
    {s t u : SortTimerLst}
    {cur : Int}
    {fuel : Nat}
    {tmp : Option Addr}
    {fired : List (Addr × Fd)}
    (h : s.Leaves t)
    (hLoop : tickLoop cur fuel tmp t = some (u, fired)) :
    fired.map Prod.snd = s.dueFrom cur fuel tmp := by
  induction fuel generalizing t tmp fired with
  | zero =>
      cases tmp with
      | none =>
          cases hLoop
          rfl
      | some a => cases hLoop
  | succ fuel ih =>
      cases tmp with
      | none =>
          cases hLoop
          rfl
      | some a =>
          unfold tickLoop at hLoop
          rcases Option.bind_eq_some_iff.mp hLoop with
            ⟨node, hNode, hRest⟩
          rcases h a node hNode with
            ⟨old, hOld, hExpire, hUser, hNext⟩
          unfold dueFrom
          simp only [hOld]
          rw [hExpire, hUser, hNext]
          by_cases hLater : cur < node.expire
          · rw [if_pos hLater] at hRest ⊢
            cases hRest
            rfl
          · rw [if_neg hLater] at hRest ⊢
            rcases Option.bind_eq_some_iff.mp hRest with
              ⟨v, hMove, hRest⟩
            rcases Option.bind_eq_some_iff.mp hRest with
              ⟨⟨w, later⟩, hLater, hEnd⟩
            rcases Option.some.inj hEnd with hEq
            cases hEq
            rcases h.moveHead hMove with ⟨hLeaves, hHead⟩
            rw [hHead] at hLater
            exact
              congrArg (node.userData :: ·)
                (ih (hLeaves.free a) hLater)

theorem tick_due
    {s t : SortTimerLst}
    {cur : Int}
    {fired : List (Addr × Fd)}
    (hTick : s.tick cur = some (t, fired)) :
    fired.map Prod.snd = s.due cur :=
  tickLoop_due (.refl s) hTick

end SortTimerLst

end V2

end WebServer

------------------------------------------------------------
-- Open Connections
------------------------------------------------------------

namespace WebServer

namespace V2

namespace ServerState

variable {st t : ServerState}
variable {fd : Fd}

/- A connection is open on one descriptor, and was accepted. -/
structure Tracked
    (st : ServerState) : Prop where
  known :
    ∀ fd c, st.conns fd = some c → c < st.nextConn
  inj :
    ∀ fd fd' c,
      st.conns fd = some c → st.conns fd' = some c →
        fd = fd'

theorem tracked_start
    (users : Fd → Option Fd) :
    (start users).Tracked where
  known := by
    intro fd c h
    cases h
  inj := by
    intro fd fd' c h
    cases h

theorem Tracked.finite
    (h : st.Tracked) :
    st.openConns.Finite := by
  refine (Set.finite_lt_nat st.nextConn).subset ?_
  rintro c ⟨fd, hOpen⟩
  exact h.known fd c hOpen

/- The arrays and the timers are not looked at. -/
theorem Tracked.congr
    (h : st.Tracked)
    (hConns : t.conns = st.conns)
    (hNext : t.nextConn = st.nextConn) :
    t.Tracked where
  known := by
    rw [hConns, hNext]
    exact h.known
  inj := by
    rw [hConns]
    exact h.inj

theorem openConns_congr
    (hConns : t.conns = st.conns) :
    t.openConns = st.openConns := by
  unfold openConns
  rw [hConns]

theorem close_conns_some
    {fd' : Fd}
    {c : ConnId} :
    (st.close fd).conns fd' = some c ↔
      fd' ≠ fd ∧ st.conns fd' = some c := by
  unfold close
  simp only
  by_cases hSame : fd' = fd
  · subst hSame
    rw [Function.update_self]
    constructor
    · intro h
      cases h
    · intro h
      exact absurd rfl h.1
  · rw [Function.update_of_ne hSame]
    exact (and_iff_right hSame).symm

theorem Tracked.close
    (h : st.Tracked)
    (fd : Fd) :
    (st.close fd).Tracked where
  known := by
    intro fd' c hOpen
    exact h.known fd' c (close_conns_some.mp hOpen).2
  inj := by
    intro fd₁ fd₂ c hOpen₁ hOpen₂
    exact
      h.inj fd₁ fd₂ c (close_conns_some.mp hOpen₁).2
        (close_conns_some.mp hOpen₂).2

/- Closing an open descriptor takes its connection out. -/
theorem Tracked.ncard_close
    (h : st.Tracked)
    (hOpen : (st.conns fd).isSome) :
    (st.close fd).openConns.ncard + 1 =
      st.openConns.ncard := by
  rcases Option.isSome_iff_exists.mp hOpen with ⟨c, hConn⟩
  have hSet : (st.close fd).openConns =
      st.openConns \ {c} := by
    ext c'
    constructor
    · rintro ⟨fd', hConn'⟩
      have hKept := close_conns_some.mp hConn'
      refine ⟨⟨fd', hKept.2⟩, ?_⟩
      rintro rfl
      exact hKept.1 (h.inj fd' fd c' hKept.2 hConn)
    · rintro ⟨⟨fd', hConn'⟩, hNe⟩
      refine ⟨fd', close_conns_some.mpr ⟨?_, hConn'⟩⟩
      rintro rfl
      rw [hConn] at hConn'
      exact hNe (Option.some.inj hConn').symm
  rw [hSet]
  exact
    Set.ncard_sdiff_singleton_add_one ⟨fd, hConn⟩ h.finite

/- Closing a closed descriptor does nothing. -/
theorem close_of_closed
    (hClosed : st.conns fd = none) :
    st.close fd = st := by
  unfold close
  rw [Function.update_eq_self_iff.mpr hClosed.symm]

theorem Tracked.accept
    (h : st.Tracked)
    (fd : Fd) :
    (st.accept fd).Tracked := by
  have hCases : ∀ {fd' c},
      (st.accept fd).conns fd' = some c →
        (fd' = fd ∧ c = st.nextConn) ∨
          st.conns fd' = some c := by
    intro fd' c hOpen
    unfold ServerState.accept at hOpen
    simp only at hOpen
    by_cases hSame : fd' = fd
    · subst hSame
      rw [Function.update_self] at hOpen
      exact .inl ⟨rfl, (Option.some.inj hOpen).symm⟩
    · rw [Function.update_of_ne hSame] at hOpen
      exact .inr hOpen
  refine ⟨?_, ?_⟩
  · intro fd' c hOpen
    rcases hCases hOpen with ⟨_, rfl⟩ | hOld
    · exact Nat.lt_succ_self _
    · exact Nat.lt_succ_of_lt (h.known fd' c hOld)
  · intro fd₁ fd₂ c hOpen₁ hOpen₂
    rcases hCases hOpen₁ with ⟨rfl, hNew⟩ | hOld₁
    · rcases hCases hOpen₂ with ⟨rfl, _⟩ | hOld₂
      · rfl
      · have hKnown := h.known fd₂ c hOld₂
        exact absurd hNew (Nat.ne_of_lt hKnown)
    · rcases hCases hOpen₂ with ⟨_, hNew⟩ | hOld₂
      · have hKnown := h.known fd₁ c hOld₁
        exact absurd hNew (Nat.ne_of_lt hKnown)
      · exact h.inj fd₁ fd₂ c hOld₁ hOld₂

/- A connection is accepted on a descriptor that is closed. -/
theorem Tracked.ncard_accept
    (h : st.Tracked)
    (hFree : st.conns fd = none) :
    (st.accept fd).openConns.ncard =
      st.openConns.ncard + 1 := by
  have hSet : (st.accept fd).openConns =
      insert st.nextConn st.openConns := by
    ext c
    unfold ServerState.accept openConns
    simp only [Set.mem_ofPred_eq, Set.mem_insert_iff]
    constructor
    · rintro ⟨fd', hOpen⟩
      by_cases hSame : fd' = fd
      · subst hSame
        rw [Function.update_self] at hOpen
        exact .inl (Option.some.inj hOpen).symm
      · rw [Function.update_of_ne hSame] at hOpen
        exact .inr ⟨fd', hOpen⟩
    · rintro (rfl | ⟨fd', hOpen⟩)
      · exact ⟨fd, Function.update_self _ _ _⟩
      · refine ⟨fd', ?_⟩
        rw [Function.update_of_ne]
        · exact hOpen
        · rintro rfl
          rw [hFree] at hOpen
          cases hOpen
  rw [hSet]
  refine Set.ncard_insert_of_notMem ?_ h.finite
  rintro ⟨fd', hOpen⟩
  exact Nat.lt_irrefl _ (h.known fd' _ hOpen)

/-
  Closing a list of descriptors takes out as many
  connections as it has entries exactly when all are open
  and no two are the same.
-/
theorem Tracked.close_all_iff
    (h : st.Tracked)
    (fds : List Fd) :
    st.openConns.ncard ≤
        (fds.foldl ServerState.close st).openConns.ncard +
          fds.length ∧
      ((fds.foldl ServerState.close st).openConns.ncard +
            fds.length =
          st.openConns.ncard ↔
        fds.Nodup ∧ ∀ fd ∈ fds, (st.conns fd).isSome) := by
  induction fds generalizing st with
  | nil => simp
  | cons fd fds ih =>
      have hRest := ih (h.close fd)
      rw [List.foldl_cons, List.length_cons]
      cases hConn : st.conns fd with
      | none =>
          rw [close_of_closed hConn] at hRest ⊢
          refine ⟨by omega, ?_⟩
          constructor
          · intro hEq
            omega
          · intro hAll
            have hOpen := hAll.2 fd List.mem_cons_self
            rw [hConn] at hOpen
            cases hOpen
      | some c =>
          have hOpen : (st.conns fd).isSome := by
            rw [hConn]
            rfl
          have hOne := h.ncard_close hOpen
          refine ⟨by omega, ?_⟩
          have hShift :
              (fds.foldl ServerState.close
                    (st.close fd)).openConns.ncard +
                  (fds.length + 1) =
                st.openConns.ncard ↔
              (fds.foldl ServerState.close
                    (st.close fd)).openConns.ncard +
                  fds.length =
                (st.close fd).openConns.ncard := by
            omega
          rw [hShift, hRest.2, List.nodup_cons]
          simp only [List.forall_mem_cons]
          have hStill : ∀ fd',
              ((st.close fd).conns fd').isSome ↔
                fd' ≠ fd ∧ (st.conns fd').isSome := by
            intro fd'
            simp only [Option.isSome_iff_exists,
              close_conns_some, exists_and_left]
          constructor
          · rintro ⟨hNodup, hLater⟩
            refine ⟨⟨?_, hNodup⟩, hOpen, ?_⟩
            · intro hMem
              exact ((hStill fd).mp (hLater fd hMem)).1 rfl
            · intro fd' hMem
              exact ((hStill fd').mp (hLater fd' hMem)).2
          · rintro ⟨⟨hNot, hNodup⟩, _, hLater⟩
            refine ⟨hNodup, ?_⟩
            intro fd' hMem
            refine (hStill fd').mpr ⟨?_, hLater fd' hMem⟩
            rintro rfl
            exact hNot hMem

end ServerState

end V2

end WebServer

------------------------------------------------------------
-- One Step
------------------------------------------------------------

namespace WebServer

namespace V2

namespace ServerState

variable {st t : ServerState}
variable {fd : Fd}

/- Only the count and the descriptors matter. -/
theorem counted_congr
    (hCount : t.userCount = st.userCount)
    (hConns : t.conns = st.conns) :
    t.Counted ↔ st.Counted := by
  unfold Counted
  rw [hCount, openConns_congr hConns]

/- A call of `close_conn()` keeps the count or loses it. -/
theorem Tracked.closeConn_iff
    (h : st.Tracked)
    (hCounted : st.Counted)
    (fd : Fd) :
    (st.closeConn fd).Tracked ∧
      ((st.closeConn fd).Counted ↔ st.ClosesOpen fd) := by
  unfold closeConn ClosesOpen
  cases hUser : st.users fd with
  | none =>
      refine ⟨h, iff_of_true hCounted ?_⟩
      intro sockfd hSome
      cases hSome
  | some sockfd =>
      simp only
      refine
        ⟨(h.close sockfd).congr rfl rfl, ?_⟩
      have hConns :
          ({ st.close sockfd with
              users := Function.update st.users fd none
              userCount :=
                st.userCount - 1 } :
            ServerState).openConns =
            (st.close sockfd).openConns :=
        openConns_congr rfl
      unfold Counted at hCounted ⊢
      rw [hConns]
      simp only [Option.mem_def, Option.some.injEq,
        forall_eq']
      cases hConn : st.conns sockfd with
      | none =>
          rw [close_of_closed hConn]
          simp only [Option.isSome_none, Bool.false_eq_true,
            iff_false]
          omega
      | some c =>
          have hOpen : (st.conns sockfd).isSome := by
            rw [hConn]
            rfl
          have hOne := h.ncard_close hOpen
          simp only [Option.isSome_some, iff_true]
          omega

/- The handlers of a failed `read` or `write`. -/
theorem Tracked.retire_iff
    {timer : Option Addr}
    (h : st.Tracked)
    (hCounted : st.Counted)
    (hStep : st.retire fd timer = some t) :
    t.Tracked ∧ (t.Counted ↔ st.ClosesOpen fd) := by
  have hClose := h.closeConn_iff hCounted fd
  unfold retire at hStep
  cases timer with
  | none =>
      rcases Option.some.inj hStep with rfl
      exact hClose
  | some timer =>
      rcases Option.bind_eq_some_iff.mp hStep with
        ⟨lst, _, hSome⟩
      rcases Option.some.inj hSome with rfl
      exact
        ⟨hClose.1.congr rfl rfl,
          (counted_congr rfl rfl).trans hClose.2⟩

/- Prolonging a timer closes nothing. -/
theorem Tracked.prolong
    {timer : Option Addr}
    {cur : Int}
    (h : st.Tracked)
    (hStep : st.prolong timer cur = some t) :
    t.Tracked ∧ (t.Counted ↔ st.Counted) := by
  unfold ServerState.prolong at hStep
  cases timer with
  | none =>
      rcases Option.some.inj hStep with rfl
      exact ⟨h, Iff.rfl⟩
  | some timer =>
      rcases Option.bind_eq_some_iff.mp hStep with
        ⟨lst, _, hRest⟩
      rcases Option.bind_eq_some_iff.mp hRest with
        ⟨lst', _, hSome⟩
      rcases Option.some.inj hSome with rfl
      exact ⟨h.congr rfl rfl, counted_congr rfl rfl⟩

/- An accepted connection is counted, or turned away. -/
theorem Tracked.dealListenEvent
    {timer : Addr}
    {cur : Int}
    (h : st.Tracked)
    (hCounted : st.Counted)
    (hFree : st.conns fd = none)
    (hStep : st.dealListenEvent fd timer cur = some t) :
    t.Tracked ∧ t.Counted := by
  unfold ServerState.dealListenEvent at hStep
  split_ifs at hStep with hFull
  · rcases Option.some.inj hStep with rfl
    refine ⟨(h.accept fd).close fd, ?_⟩
    have hConns :
        ((st.accept fd).close fd).conns = st.conns := by
      unfold ServerState.accept ServerState.close
      simp only [Function.update_idem]
      exact Function.update_eq_self_iff.mpr hFree.symm
    have hCount :
        ((st.accept fd).close fd).userCount =
          st.userCount :=
      rfl
    exact (counted_congr hCount hConns).mpr hCounted
  · unfold addClient at hStep
    split_ifs at hStep with hSlot
    rcases Option.bind_eq_some_iff.mp hStep with
      ⟨lst, _, hSome⟩
    rcases Option.some.inj hSome with rfl
    refine ⟨(h.accept fd).congr rfl rfl, ?_⟩
    have hMore := h.ncard_accept hFree
    have hSame :
        ({ st.accept fd with
            users :=
              Function.update (st.accept fd).users fd
                (some fd)
            userCount := (st.accept fd).userCount + 1
            usersTimer :=
              Function.update (st.accept fd).usersTimer fd
                ⟨fd, some timer⟩
            timerLst := lst
            createdFor :=
              Function.update (st.accept fd).createdFor timer
                ((st.accept fd).conns fd) } :
          ServerState).openConns =
          (st.accept fd).openConns :=
      openConns_congr rfl
    unfold Counted at hCounted ⊢
    rw [hSame, hMore]
    change st.userCount + 1 = _
    omega

theorem close_all_congr
    (fds : List Fd)
    (hConns : t.conns = st.conns) :
    (fds.foldl ServerState.close t).conns =
      (fds.foldl ServerState.close st).conns := by
  induction fds generalizing st t with
  | nil => exact hConns
  | cons fd fds ih =>
      refine ih ?_
      unfold ServerState.close
      simp only [hConns]

theorem Tracked.close_all
    (h : st.Tracked)
    (fds : List Fd) :
    (fds.foldl ServerState.close st).Tracked ∧
      (fds.foldl ServerState.close st).nextConn =
        st.nextConn := by
  induction fds generalizing st with
  | nil => exact ⟨h, rfl⟩
  | cons fd fds ih => exact ih (h.close fd)

/- The callbacks close their descriptors one by one. -/
theorem runCallbacks_closes
    (st : ServerState)
    (fired : List (Addr × Fd)) :
    (st.runCallbacks fired).conns =
        ((fired.map fun f =>
            (st.usersTimer f.2).sockfd).foldl
          ServerState.close st).conns ∧
      (st.runCallbacks fired).nextConn = st.nextConn ∧
      (st.runCallbacks fired).userCount =
        st.userCount - fired.length := by
  unfold runCallbacks
  induction fired generalizing st with
  | nil => simp
  | cons f fired ih =>
      rcases ih (st.cbFunc f.1 f.2) with
        ⟨hConns, hNext, hCount⟩
      refine
        ⟨hConns.trans (close_all_congr _ rfl), hNext, ?_⟩
      rw [List.foldl_cons, hCount]
      change st.userCount - 1 - _ = _
      push_cast [List.length_cons]
      omega

/- A tick keeps the count or loses it. -/
theorem Tracked.tick_iff
    {cur : Int}
    (h : st.Tracked)
    (hCounted : st.Counted)
    (hStep : st.tick cur = some t) :
    t.Tracked ∧ (t.Counted ↔ st.ClosesOnce (.tick cur)) := by
  unfold tick at hStep
  rcases Option.bind_eq_some_iff.mp hStep with
    ⟨⟨lst, fired⟩, hTick, hSome⟩
  rcases Option.some.inj hSome with rfl
  have hFds :
      (fired.map fun f => (st.usersTimer f.2).sockfd) =
        st.dueFds cur := by
    unfold dueFds
    rw [← SortTimerLst.tick_due hTick, List.map_map]
    rfl
  have hLength : fired.length = (st.dueFds cur).length := by
    rw [← hFds, List.length_map]
  rcases st.runCallbacks_closes fired with
    ⟨hConns, hNext, hCount⟩
  rw [hFds] at hConns
  rw [hLength] at hCount
  rcases h.close_all (st.dueFds cur) with ⟨hKept, hSame⟩
  refine ⟨hKept.congr hConns (hNext.trans hSame.symm), ?_⟩
  have hAll := (h.close_all_iff (st.dueFds cur)).2
  have hOpen := openConns_congr hConns
  unfold Counted at hCounted ⊢
  change
    (st.runCallbacks fired).userCount =
        (st.runCallbacks fired).openConns.ncard ↔
      (_ ∧ _)
  rw [hOpen, ← hAll, hCount]
  omega

/- A read or a write prolongs the timer or closes. -/
theorem Tracked.serve_iff
    {timer : Option Addr}
    {cur : Int}
    {served : Bool}
    (h : st.Tracked)
    (hCounted : st.Counted)
    (hStep :
      (if served then
        st.prolong timer cur
      else
        st.retire fd timer) = some t) :
    t.Tracked ∧
      (t.Counted ↔ (served = false → st.ClosesOpen fd)) := by
  cases served with
  | true =>
      have hDone := h.prolong hStep
      exact
        ⟨hDone.1, iff_of_true (hDone.2.mpr hCounted) nofun⟩
  | false =>
      have hDone := h.retire_iff hCounted hStep
      exact
        ⟨hDone.1, hDone.2.trans ⟨fun h _ => h, fun h => h rfl⟩⟩

/- A step keeps the count exactly when it meets the condition. -/
theorem Tracked.step_iff
    {e : ServerEvent}
    (h : st.Tracked)
    (hCounted : st.Counted)
    (hEnabled : countingMachine.enabled st e)
    (hStep : countingMachine.step st e = some t) :
    t.Tracked ∧ (t.Counted ↔ st.ClosesOnce e) := by
  cases e with
  | accept fd timer cur =>
      have hDone :=
        h.dealListenEvent hCounted hEnabled.1 hStep
      exact ⟨hDone.1, iff_of_true hDone.2 trivial⟩
  | hangUp fd =>
      rcases Option.some.inj hStep with rfl
      exact h.closeConn_iff hCounted fd
  | readable fd read cur => exact h.serve_iff hCounted hStep
  | writable fd write cur => exact h.serve_iff hCounted hStep
  | process fd writeRet =>
      rcases Option.some.inj hStep with rfl
      cases writeRet with
      | true => exact ⟨h, iff_of_true hCounted nofun⟩
      | false =>
          have hDone := h.closeConn_iff hCounted fd
          exact
            ⟨hDone.1,
              hDone.2.trans ⟨fun h _ => h, fun h => h rfl⟩⟩
  | tick cur => exact h.tick_iff hCounted hStep

end ServerState

end V2

end WebServer

------------------------------------------------------------
-- Whole Runs
------------------------------------------------------------

namespace WebServer

namespace V2

open ServerState

theorem counted_start
    (users : Fd → Option Fd) :
    (start users).Counted := by
  have hNone : (start users).openConns = ∅ := by
    refine Set.eq_empty_iff_forall_notMem.mpr ?_
    rintro c ⟨fd, hOpen⟩
    cases hOpen
  unfold Counted
  rw [hNone, Set.ncard_empty]
  rfl

/-
  In every run of the server, with events in any order,
  `m_user_count` stays the number of connections accepted
  and not yet closed exactly when each `close_conn` closes
  an open descriptor and the callbacks of each tick close
  open descriptors, no two the same.
-/
theorem user_count_iff
    {users : Fd → Option Fd}
    {es : List ServerEvent}
    {st : ServerState}
    (hReach : countingMachine.Reaches (start users) es st) :
    countingMachine.Always Counted (start users) es ↔
      countingMachine.StepsMeet ClosesOnce (start users)
        es := by
  have hInit : (start users).Tracked ∧ (start users).Counted :=
    ⟨tracked_start users, counted_start users⟩
  have hKeep :
      ∀ s e t, s.Tracked ∧ s.Counted →
        countingMachine.enabled s e → s.ClosesOnce e →
          countingMachine.step s e = some t →
            t.Tracked ∧ t.Counted := by
    rintro s e t ⟨h, hCounted⟩ hEnabled hMeets hStep
    have hDone := h.step_iff hCounted hEnabled hStep
    exact ⟨hDone.1, hDone.2.mpr hMeets⟩
  constructor
  · refine
      Machine.Reaches.stepsMeet_of_always hKeep ?_ hInit
        hReach
    rintro s e t ⟨h, hCounted⟩ hEnabled hNot hStep
    exact (h.step_iff hCounted hEnabled hStep).2.not.mpr hNot
  · intro hMeets
    have hAll := Machine.always_of_stepsMeet hKeep hInit hMeets
    exact hAll.mono fun _ h => h.2

/-
  Two clients on one descriptor: a read fails for the first,
  and the second expires.
-/
def twoClients : List ServerEvent :=
  [.accept 5 0 100, .readable 5 true 101,
    .readable 5 false 102, .accept 5 1 103, .tick 118]

theorem user_count_two_clients :
    countingMachine.Always Counted init twoClients := by
  have hRuns :
      (countingMachine.exec init twoClients).isSome := by
    decide +kernel
  rcases Option.isSome_iff_exists.mp hRuns with ⟨st, hExec⟩
  have hReach :
      countingMachine.Reaches (start fun _ => none)
        twoClients st :=
    Machine.reaches_of_exec hExec
  have hMeets :
      countingMachine.StepsMeet ClosesOnce
        (start fun _ => none) twoClients := by
    decide +kernel
  exact (user_count_iff hReach).mpr hMeets

/-
  A client hangs up. Its timer stays in the list, and when
  it is due the count is lowered again.
-/
def hungUpThenDue : List ServerEvent :=
  [.accept 5 0 100, .hangUp 5, .tick 115]

theorem hung_up_counted_twice :
    ¬ ∀ es,
      countingMachine.Always Counted (start fun _ => none)
        es := by
  intro hAll
  have hOpened := (hAll hungUpThenDue).2 ⟨rfl, rfl⟩ _ rfl
  have hHungUp := hOpened.2 trivial _ rfl
  have hTicked := hHungUp.2 trivial _ rfl
  have hNegative :=
    (Int.natCast_nonneg _).trans_eq hTicked.symm
  exact absurd hNegative (by decide)

end V2

end WebServer
