import WebServer.Library.Machine
import WebServer.V2.Timer.Calls

/-
  The invariant of the sorted timer list over whole runs.

  A run is any sequence of `add_timer`, `adjust_timer`,
  `del_timer` and `tick` calls that a caller may make. Along
  it the list is in order: `next` visits exactly the live
  timers, by expiry, and both ends are right. Two steps break
  this: adding a timer that expires before the head, after
  which `head` is stale, and a tick that fires every timer,
  after which `tail` is stale. The main result says that no
  other step does.

  Main declarations:
    * `TimerRun.InOrder`
    * `timerMachine`
    * `TimerRun.step_inOrder_iff`
    * `timers_inOrder_iff`
-/

------------------------------------------------------------
-- Sorted Lists Of Timers
------------------------------------------------------------

namespace WebServer

namespace V2

namespace SortTimerLst

/- Addresses in non-decreasing order of expiry. -/
def ByExpiry
    (s : SortTimerLst)
    (l : List Addr) : Prop :=
  l.Pairwise fun a b => s.expireAt a ≤ s.expireAt b

theorem ByExpiry.congr
    {s t : SortTimerLst}
    {l : List Addr}
    (hEq : ∀ a ∈ l, t.expireAt a = s.expireAt a)
    (h : s.ByExpiry l) :
    t.ByExpiry l := by
  apply List.Pairwise.imp_of_mem _ h
  intro a b ha hb hLe
  rw [hEq a ha, hEq b hb]
  exact hLe

/- Placing a timer keeps a list in order. -/
theorem ByExpiry.place
    {s : SortTimerLst}
    {l : List Addr}
    (timer : Addr)
    (h : s.ByExpiry l) :
    s.ByExpiry (s.place timer l) := by
  induction l with
  | nil => exact List.pairwise_singleton _ _
  | cons a l ih =>
      have hTail := List.pairwise_cons.mp h
      rw [place_cons]
      split
      next hLt =>
        apply List.Pairwise.cons _ h
        intro b hb
        rcases List.mem_cons.mp hb with rfl | hb
        · exact le_of_lt hLt
        · exact (le_of_lt hLt).trans (hTail.1 b hb)
      next hLt =>
        apply List.Pairwise.cons _ (ih hTail.2)
        intro b hb
        have hIn := (s.place_perm timer l).mem_iff.mp hb
        rcases List.mem_cons.mp hIn with rfl | hb
        · exact not_lt.mp hLt
        · exact hTail.1 b hb

/-
  Placing a timer whose expiry only grew keeps the whole
  list in order: the timers before it stay before it.
-/
theorem ByExpiry.place_append
    {s : SortTimerLst}
    {l₁ l₂ : List Addr}
    {timer : Addr}
    (h : s.ByExpiry (l₁ ++ l₂))
    (hBefore :
      ∀ a ∈ l₁, s.expireAt a ≤ s.expireAt timer) :
    s.ByExpiry (l₁ ++ s.place timer l₂) := by
  have hParts := List.pairwise_append.mp h
  apply List.pairwise_append.mpr
  refine ⟨hParts.1, ByExpiry.place timer hParts.2.1, ?_⟩
  intro a ha b hb
  have hIn := (s.place_perm timer l₂).mem_iff.mp hb
  rcases List.mem_cons.mp hIn with rfl | hb
  · exact hBefore a ha
  · exact hParts.2.2 a ha b hb

/- In a sorted list the expired timers are all in front. -/
theorem ByExpiry.remaining_eq_filter
    {s : SortTimerLst}
    {l : List Addr}
    (cur : Int)
    (h : s.ByExpiry l) :
    s.remaining cur l =
      l.filter fun a => decide (cur < s.expireAt a) := by
  induction l with
  | nil => rfl
  | cons a l ih =>
      have hTail := List.pairwise_cons.mp h
      have hRest := ih hTail.2
      unfold remaining at *
      by_cases hLe : s.expireAt a ≤ cur
      · have hNot : ¬ cur < s.expireAt a := not_lt.mpr hLe
        simp [hLe, hNot, hRest]
      · have hLt : cur < s.expireAt a := not_le.mp hLe
        have hAll :
            (a :: l).filter
                (fun b => decide (cur < s.expireAt b)) =
              a :: l := by
          rw [List.filter_eq_self]
          intro b hb
          rcases List.mem_cons.mp hb with rfl | hb
          · simpa using hLt
          · simpa using hLt.trans_le (hTail.1 b hb)
        rw [hAll]
        simp [hLe]

end SortTimerLst

end V2

end WebServer

------------------------------------------------------------
-- Runs Of The Timer List
------------------------------------------------------------

namespace WebServer

namespace V2

open SortTimerLst

/-
  A run's state: the list, the timers added and not yet
  removed, and the clock reading of the last tick.
-/
structure TimerRun where
  lst : SortTimerLst
  live : List Addr
  clock : Int

/- A call that a user of the list makes. -/
inductive TimerEvent
| add (a : Addr) (expire : Int) (userData : Fd)
| adjust (a : Addr) (expire : Int)
| del (a : Addr)
| tick (cur : Int)
deriving DecidableEq, Repr

namespace TimerRun

/- The empty list before any tick. -/
def init : TimerRun where
  lst := SortTimerLst.empty
  live := []
  clock := 0

/-
  Timers are added at a fresh address, adjusted after their
  expiry grew, deleted while listed, and ticked at
  non-decreasing times.
-/
def enabled
    (st : TimerRun) :
    TimerEvent → Prop
| .add a _ _ => st.lst.heap a = none
| .adjust a expire =>
    a ∈ st.live ∧ st.lst.expireAt a ≤ expire
| .del a => a ∈ st.live
| .tick cur => st.clock ≤ cur

def step
    (st : TimerRun) :
    TimerEvent → Option TimerRun
| .add a expire userData => do
    let lst ← (st.lst.alloc a expire userData).addTimer a
    some { st with lst := lst, live := a :: st.live }
| .adjust a expire => do
    let lst ← st.lst.setExpire a expire
    let lst ← lst.adjustTimer a
    some { st with lst := lst }
| .del a => do
    let lst ← st.lst.delTimer a
    some { st with lst := lst, live := st.live.erase a }
| .tick cur => do
    let (lst, _) ← st.lst.tick cur
    some
      { lst := lst
        live :=
          st.live.filter fun a =>
            decide (cur < st.lst.expireAt a)
        clock := cur }

/-
  The list is in order: following `next` from `head` visits
  the live timers once each and by expiry, `prev` is the
  inverse of `next`, `tail` is the last node, and both ends
  are null when no timer is live.
-/
def InOrder
    (st : TimerRun) : Prop :=
  ∃ l,
    Chained st.lst l ∧
      l.Perm st.live ∧
      st.lst.ByExpiry l ∧
      (l = [] → st.lst.tail = none)

/-
  The steps that keep the list in order: the added timer
  does not expire before the head, and the tick leaves a
  timer or finds none.
-/
def Keeps
    (st : TimerRun) :
    TimerEvent → Prop
| .add _ expire _ =>
    ∀ first, st.lst.head = some first →
      st.lst.expireAt first ≤ expire
| .adjust _ _ => True
| .del _ => True
| .tick cur =>
    st.live ≠ [] → ∃ a ∈ st.live, cur < st.lst.expireAt a

theorem init_inOrder :
    init.InOrder :=
  ⟨[], chained_empty, List.Perm.nil, List.Pairwise.nil,
    fun _ => rfl⟩

end TimerRun

/- The timer list as a machine over its users' calls. -/
def timerMachine : Machine TimerRun TimerEvent where
  enabled := TimerRun.enabled
  step := TimerRun.step

end V2

end WebServer

------------------------------------------------------------
-- Step Lemmas
------------------------------------------------------------

namespace WebServer

namespace V2

open SortTimerLst

namespace TimerRun

/- Adding a timer keeps the order unless it goes first. -/
theorem add_inOrder_iff
    {st : TimerRun}
    {a : Addr}
    (h : st.InOrder)
    (hFresh : st.lst.heap a = none)
    (expire : Int)
    (userData : Fd) :
    (∃ t, st.step (.add a expire userData) = some t ∧
        t.InOrder) ↔
      st.Keeps (.add a expire userData) := by
  rcases h with ⟨l, hChained, hPerm, hSorted, _⟩
  constructor
  · rintro ⟨t, hStep, l', hChained', _⟩ first hHead
    by_contra hLt
    rcases hChained.addNew_before_head hFresh userData hHead
        (not_le.mp hLt) with
      ⟨s', hRun, _, hNone⟩
    simp only [step, hRun, Option.bind_eq_bind,
      Option.bind_some, Option.some.injEq] at hStep
    subst hStep
    exact hNone l' hChained'
  · intro hKeeps
    rcases hChained.addNew hFresh userData hKeeps with
      ⟨s', hRun, hChained', hSame, hNotIn⟩
    refine ⟨_, by simp [step, hRun]; rfl, ?_⟩
    refine ⟨_, hChained', ?_, ?_, ?_⟩
    · exact (place_perm _ _ _).trans (hPerm.cons a)
    · apply ByExpiry.congr
        (fun b _ => congrFun hSame.expireAt_eq b)
      apply ByExpiry.place a
      apply hSorted.congr
      rintro b hb
      apply alloc_expireAt_of_ne
      rintro rfl
      exact hNotIn hb
    · intro hNil
      exact (place_ne_nil _ _ _ hNil).elim

/- Adjusting a timer whose expiry grew keeps the order. -/
theorem adjust_inOrder
    {st : TimerRun}
    {a : Addr}
    {expire : Int}
    (h : st.InOrder)
    (hIn : a ∈ st.live)
    (hGrew : st.lst.expireAt a ≤ expire) :
    ∃ t, st.step (.adjust a expire) = some t ∧
      t.InOrder := by
  rcases h with ⟨l, hChained, hPerm, hSorted, _⟩
  have hInList : a ∈ l := hPerm.mem_iff.mpr hIn
  rcases hChained.setExpire hInList expire with
    ⟨s₁, hSet, hChained₁, hSelf, hOther, _, _⟩
  rcases List.append_of_mem hInList with ⟨l₁, l₂, rfl⟩
  rcases hChained₁.adjustTimer with
    ⟨s', hRun, hChained', hSame⟩
  have hNotIn : a ∉ l₁ ++ l₂ :=
    (List.nodup_cons.mp
      (List.perm_middle.nodup_iff.mp hChained.nodup)).1
  have hNe : ∀ b ∈ l₁ ++ l₂, b ≠ a := by
    rintro b hb rfl
    exact hNotIn hb
  refine ⟨_, by simp [step, hSet, hRun]; rfl, ?_⟩
  refine ⟨_, hChained', ?_, ?_, ?_⟩
  · exact
      ((place_perm _ _ _).append_left l₁).trans hPerm
  · apply ByExpiry.congr
      (fun b _ => congrFun hSame.expireAt_eq b)
    apply ByExpiry.place_append
    · have hRest : st.lst.ByExpiry (l₁ ++ l₂) :=
        hSorted.sublist
          ((List.sublist_cons_self a l₂).append_left l₁)
      exact
        hRest.congr fun b hb => hOther b (hNe b hb)
    · intro b hb
      rw [hSelf, hOther b (hNe b (by simp [hb]))]
      exact
        ((List.pairwise_append.mp hSorted).2.2 b hb a
          (by simp)).trans hGrew
  · intro hNil
    simp [place_ne_nil] at hNil

/- Deleting a listed timer keeps the order. -/
theorem del_inOrder
    {st : TimerRun}
    {a : Addr}
    (h : st.InOrder)
    (hIn : a ∈ st.live) :
    ∃ t, st.step (.del a) = some t ∧ t.InOrder := by
  rcases h with ⟨l, hChained, hPerm, hSorted, _⟩
  have hInList : a ∈ l := hPerm.mem_iff.mpr hIn
  rcases List.append_of_mem hInList with ⟨l₁, l₂, rfl⟩
  rcases hChained.delTimer with
    ⟨s', hRun, hChained', hKept, hTail⟩
  have hNotIn : a ∉ l₁ ++ l₂ :=
    (List.nodup_cons.mp
      (List.perm_middle.nodup_iff.mp hChained.nodup)).1
  refine ⟨_, by simp [step, hRun]; rfl, ?_⟩
  refine ⟨_, hChained', ?_, ?_, hTail⟩
  · have hErase := hPerm.erase a
    have hLeft :
        ((l₁ ++ a :: l₂).erase a).Perm (l₁ ++ l₂) := by
      have hMiddle :
          ((l₁ ++ a :: l₂).erase a).Perm
            ((a :: (l₁ ++ l₂)).erase a) :=
        List.perm_middle.erase a
      simpa using hMiddle
    exact hLeft.symm.trans hErase
  · have hRest : st.lst.ByExpiry (l₁ ++ l₂) :=
      hSorted.sublist
        ((List.sublist_cons_self a l₂).append_left l₁)
    apply hRest.congr
    rintro b hb
    apply hKept.expireAt_eq
    intro hMem
    rw [List.mem_singleton.mp hMem] at hb
    exact hNotIn hb

/- A tick keeps the order unless it fires every timer. -/
theorem tick_inOrder_iff
    {st : TimerRun}
    (h : st.InOrder)
    (cur : Int) :
    (∃ t, st.step (.tick cur) = some t ∧ t.InOrder) ↔
      st.Keeps (.tick cur) := by
  rcases h with ⟨l, hChained, hPerm, hSorted, hNull⟩
  rcases hChained.tick cur with
    ⟨s', hRun, hChained', hKept, hTail⟩
  have hFilter := hSorted.remaining_eq_filter cur
  have hLive :
      (st.lst.remaining cur l).Perm
        (st.live.filter fun a =>
          decide (cur < st.lst.expireAt a)) := by
    rw [hFilter]
    exact hPerm.filter _
  constructor
  · rintro ⟨t, hStep, l', hChainedT, hPermT, _, hNullT⟩
      hSome
    by_contra hNone
    simp only [step, hRun, Option.bind_eq_bind,
      Option.bind_some, Option.some.injEq] at hStep
    subst hStep
    have hEmpty :
        (st.live.filter fun a =>
          decide (cur < st.lst.expireAt a)) = [] := by
      rw [List.filter_eq_nil_iff]
      intro a ha hLt
      exact hNone ⟨a, ha, by simpa using hLt⟩
    have hNil : l' = [] := by
      apply List.Perm.eq_nil
      exact hEmpty ▸ hPermT
    have hNe : l ≠ [] := by
      rintro rfl
      exact hSome (List.Perm.nil_eq hPerm).symm
    have hGone := hNullT hNil
    rw [hTail, hChained.tail_eq hNe] at hGone
    exact hNe (List.getLast?_eq_none_iff.mp hGone)
  · intro hKeeps
    refine ⟨_, by simp [step, hRun]; rfl, ?_⟩
    refine ⟨_, hChained', hLive, ?_, ?_⟩
    · have hRest :
          st.lst.ByExpiry (st.lst.remaining cur l) :=
        hSorted.sublist (remaining_sublist _ _ _)
      apply hRest.congr
      intro b hb
      apply hKept.expireAt_eq
      have hNodup := hChained.nodup
      rw [← st.lst.expired_append_remaining cur l] at hNodup
      intro hMem
      exact (List.nodup_append.mp hNodup).2.2 b hMem b hb rfl
    · intro hNil
      rw [hNil] at hLive
      by_cases hEmpty : st.live = []
      · rw [hEmpty] at hPerm
        rw [hTail]
        exact hNull (List.Perm.eq_nil hPerm)
      · rcases hKeeps hEmpty with ⟨a, ha, hLt⟩
        have hIn :
            a ∈ st.live.filter fun a =>
              decide (cur < st.lst.expireAt a) := by
          simp [ha, hLt]
        rw [(List.Perm.nil_eq hLive).symm] at hIn
        simp at hIn

/- One call keeps the order exactly under `Keeps`. -/
theorem step_inOrder_iff
    (st : TimerRun)
    (e : TimerEvent)
    (h : st.InOrder)
    (hEnabled : st.enabled e) :
    (∃ t, st.step e = some t ∧ t.InOrder) ↔
      st.Keeps e := by
  cases e with
  | add a expire userData =>
      exact add_inOrder_iff h hEnabled expire userData
  | adjust a expire =>
      exact
        ⟨fun _ => trivial,
          fun _ => adjust_inOrder h hEnabled.1 hEnabled.2⟩
  | del a =>
      exact
        ⟨fun _ => trivial, fun _ => del_inOrder h hEnabled⟩
  | tick cur => exact tick_inOrder_iff h cur

end TimerRun

end V2

end WebServer

------------------------------------------------------------
-- Whole Runs
------------------------------------------------------------

namespace WebServer

namespace V2

/-
  Over every run from the empty list, no call fails and the
  list is in order throughout exactly when no call adds a
  timer in front of the head and no tick fires every timer.
-/
theorem timers_inOrder_iff
    (es : List TimerEvent) :
    timerMachine.Throughout TimerRun.InOrder
        TimerRun.init es ↔
      timerMachine.StepsMeet TimerRun.Keeps
        TimerRun.init es :=
  Machine.throughout_iff_stepsMeet
    (fun _ h => h)
    (fun st e h hEnabled =>
      (TimerRun.step_inOrder_iff st e h hEnabled).mpr)
    (fun st e h hEnabled hNot t hStep hNext =>
      hNot
        ((TimerRun.step_inOrder_iff st e h hEnabled).mp
          ⟨t, hStep, hNext⟩))
    TimerRun.init_inOrder

/- A timer that expires first is lost from the list. -/
theorem add_in_front_breaks_order :
    ¬ timerMachine.Throughout TimerRun.InOrder
        TimerRun.init [.add 0 5 0, .add 1 3 1] := by
  intro hAll
  rcases hAll.2 rfl with ⟨t, hFirst, hTail⟩
  cases hFirst
  rcases hTail.2 rfl with ⟨u, hSecond, hLast⟩
  have hKeeps :=
    (TimerRun.step_inOrder_iff _ (.add 1 3 1) hTail.1
      rfl).mp ⟨u, hSecond, hLast⟩ 0 rfl
  revert hKeeps
  decide

end V2

end WebServer
