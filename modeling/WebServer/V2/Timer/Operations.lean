import Mathlib.Data.List.TakeWhile
import WebServer.V2.Timer.Sorted

/-
  What one call of `adjust_timer`, `tick` or `del_timer` does
  to a well-formed list: where timers end up, which callbacks
  run, and which nodes are deallocated.

  Key definitions include:
    * `SortTimerLst.SortedButRaised`
    * `SortTimerLst.Deallocates`

  Key theorems include:
    * `SortTimerLst.place_eq`
    * `SortTimerLst.adjustTimer_repositions`
    * `SortTimerLst.tickLoop_freed`
    * `SortTimerLst.tick_fires_expired`
    * `SortTimerLst.delTimer_freed_iff`
    * `SortTimerLst.delTimer_deallocates_iff`
-/

------------------------------------------------------------
-- Raised Expiries
------------------------------------------------------------

namespace WebServer

namespace V2

namespace SortTimerLst

/- A list of three timers, with their expiries. -/
def threeTimers
    (first second third : Int) : SortTimerLst where
  heap
  | 0 => some ⟨first, 10, none, some 1⟩
  | 1 => some ⟨second, 11, some 0, some 2⟩
  | 2 => some ⟨third, 12, some 1, none⟩
  | _ => none
  allocations := 3
  head := some 0
  tail := some 2

theorem threeTimers_chained
    (first second third : Int) :
    Chained (threeTimers first second third) [0, 1, 2] where
  head_eq := rfl
  tail_eq := fun _ => rfl
  seg := ⟨rfl, rfl, rfl, rfl, rfl, rfl, trivial⟩
  nodup := by decide
  alloc := by simp [threeTimers]
  size := le_refl 3

/-
  The list is sorted, apart from a timer whose expiry was
  raised from some value that fitted in.
-/
def SortedButRaised
    (s : SortTimerLst)
    (timer : Addr)
    (l : List Addr) : Prop :=
  ∃ old,
    old ≤ s.expireAt timer ∧
      l.Pairwise fun a b =>
        Function.update s.expireAt timer old a ≤
          Function.update s.expireAt timer old b

/-
  A timer is placed behind those that expire no later and
  before the first one that expires later.
-/
theorem place_eq
    (s : SortTimerLst)
    (timer : Addr)
    (l : List Addr) :
    s.place timer l =
      s.expired (s.expireAt timer) l ++
        timer :: s.remaining (s.expireAt timer) l := by
  induction l with
  | nil => rfl
  | cons a l ih =>
      rw [place_cons]
      unfold expired remaining at *
      by_cases hLt : s.expireAt timer < s.expireAt a
      · have hNot : ¬ s.expireAt a ≤ s.expireAt timer :=
          not_le.mpr hLt
        simp [hLt, hNot]
      · have hLe : s.expireAt a ≤ s.expireAt timer :=
          not_lt.mp hLt
        simp [hLt, hLe, ih]

theorem ByExpiry.lt_of_mem_remaining
    {s : SortTimerLst}
    {l : List Addr}
    {cur : Int}
    {a : Addr}
    (h : s.ByExpiry l)
    (hIn : a ∈ s.remaining cur l) :
    cur < s.expireAt a := by
  rw [h.remaining_eq_filter] at hIn
  simpa using (List.mem_filter.mp hIn).2

/- Around the raised timer the list is sorted. -/
theorem SortedButRaised.split
    {s : SortTimerLst}
    {timer : Addr}
    {l₁ l₂ : List Addr}
    (h : s.SortedButRaised timer (l₁ ++ timer :: l₂))
    (hNotIn : timer ∉ l₁ ++ l₂) :
    s.ByExpiry (l₁ ++ l₂) ∧
      ∀ a ∈ l₁, s.expireAt a ≤ s.expireAt timer := by
  rcases h with ⟨old, hGrew, hSorted⟩
  have hOther :
      ∀ a ∈ l₁ ++ l₂,
        Function.update s.expireAt timer old a =
          s.expireAt a := by
    rintro a ha
    apply Function.update_of_ne
    rintro rfl
    exact hNotIn ha
  constructor
  · have hRest :=
      hSorted.sublist
        ((List.sublist_cons_self timer l₂).append_left l₁)
    apply List.Pairwise.imp_of_mem _ hRest
    intro a b ha hb hLe
    rwa [hOther a ha, hOther b hb] at hLe
  · intro a ha
    have hLe :=
      (List.pairwise_append.mp hSorted).2.2 a ha timer
        (by simp)
    rw [hOther a (by simp [ha]),
      Function.update_self] at hLe
    exact hLe.trans hGrew

/-
  Adjusting a raised timer sorts the list: the other timers
  keep their order, and the timer stands behind all of them
  that expire no later.
-/
theorem adjustTimer_repositions
    {s : SortTimerLst}
    {l : List Addr}
    {timer : Addr}
    (h : Chained s l)
    (hIn : timer ∈ l)
    (hRaised : s.SortedButRaised timer l) :
    ∃ s' front back,
      s.adjustTimer timer = some s' ∧
        Chained s' (front ++ timer :: back) ∧
        s'.ByExpiry (front ++ timer :: back) ∧
        (front ++ timer :: back).Perm l ∧
        front ++ back = l.erase timer ∧
        (∀ a ∈ l, a ≠ timer →
          s.expireAt a ≤ s.expireAt timer → a ∈ front) ∧
        SameNodes s s' := by
  rcases List.append_of_mem hIn with ⟨l₁, l₂, rfl⟩
  have hNotIn : timer ∉ l₁ ++ l₂ :=
    (List.nodup_cons.mp
      (List.perm_middle.nodup_iff.mp h.nodup)).1
  rcases hRaised.split hNotIn with ⟨hSorted, hBefore⟩
  rcases h.adjustTimer with ⟨s', hRun, hChained, hSame⟩
  have hPlaced := hSorted.place_append hBefore
  rw [place_eq, ← List.append_assoc] at hChained hPlaced
  have hRest := s.expired_append_remaining
    (s.expireAt timer) l₂
  refine
    ⟨s', l₁ ++ s.expired (s.expireAt timer) l₂,
      s.remaining (s.expireAt timer) l₂, hRun, hChained,
      ?_, ?_, ?_, ?_, hSame⟩
  · exact
      hPlaced.congr fun a _ => congrFun hSame.expireAt_eq a
  · rw [List.append_assoc, ← place_eq]
    exact (place_perm s timer l₂).append_left l₁
  · rw [List.append_assoc, hRest, List.erase_append_right]
    · rw [List.erase_cons_head]
    · exact fun hMem => hNotIn (by simp [hMem])
  · intro a ha hNe hLe
    rw [List.mem_append]
    rcases List.mem_append.mp ha with ha | ha
    · exact Or.inl ha
    · right
      have hBehind : a ∈ l₂ :=
        (List.mem_cons.mp ha).resolve_left hNe
      rw [← hRest, List.mem_append] at hBehind
      apply hBehind.resolve_right
      intro hLater
      have hLt :=
        ByExpiry.lt_of_mem_remaining
          (List.pairwise_append.mp hSorted).2.1 hLater
      omega

/- A first timer that moves behind the second one. -/
theorem adjustTimer_repositions_first :
    ∃ s' front back,
      (threeTimers 7 5 9).adjustTimer 0 = some s' ∧
        Chained s' (front ++ 0 :: back) ∧
        s'.ByExpiry (front ++ 0 :: back) ∧
        (front ++ 0 :: back).Perm [0, 1, 2] ∧
        front ++ back = [0, 1, 2].erase 0 ∧
        (∀ a ∈ [0, 1, 2], a ≠ 0 →
          (threeTimers 7 5 9).expireAt a ≤
            (threeTimers 7 5 9).expireAt 0 → a ∈ front) ∧
        SameNodes (threeTimers 7 5 9) s' :=
  adjustTimer_repositions (threeTimers_chained 7 5 9)
    (by simp)
    ⟨3, by decide, by decide⟩

end SortTimerLst

end V2

end WebServer

------------------------------------------------------------
-- Deallocated Nodes
------------------------------------------------------------

namespace WebServer

namespace V2

namespace SortTimerLst

/-
  The nodes of `gone` were deallocated; every other node is
  as it was, apart from its links.
-/
structure Deallocates
    (gone : List Addr)
    (s s' : SortTimerLst) : Prop
    extends KeptNodes gone s s' where
  freed : ∀ a ∈ gone, s'.heap a = none

/- A node that is written to stays allocated. -/
theorem update_isSome
    {s : SortTimerLst}
    {a : Addr}
    {node : UtilTimer}
    (hNode : s.heap a = some node)
    (node' : UtilTimer)
    (b : Addr) :
    (Function.update s.heap a (some node') b).isSome =
      (s.heap b).isSome := by
  by_cases hb : b = a
  · subst hb
    simp [hNode]
  · simp [hb]

/- Assigning a link allocates and frees nothing. -/
theorem setNext_isSome
    {s s' : SortTimerLst}
    {a : Addr}
    {v : Option Addr}
    (hSet : s.setNext a v = some s')
    (b : Addr) :
    (s'.heap b).isSome = (s.heap b).isSome := by
  rcases Option.bind_eq_some_iff.mp hSet with
    ⟨node, hNode, hEq⟩
  rcases Option.some.inj hEq with rfl
  exact update_isSome hNode _ b

theorem setPrev_isSome
    {s s' : SortTimerLst}
    {a : Addr}
    {v : Option Addr}
    (hSet : s.setPrev a v = some s')
    (b : Addr) :
    (s'.heap b).isSome = (s.heap b).isSome := by
  rcases Option.bind_eq_some_iff.mp hSet with
    ⟨node, hNode, hEq⟩
  rcases Option.some.inj hEq with rfl
  exact update_isSome hNode _ b

theorem moveHead_isSome
    {s s' : SortTimerLst}
    {p : Option Addr}
    (hMove : s.moveHead p = some s')
    (b : Addr) :
    (s'.heap b).isSome = (s.heap b).isSome := by
  cases p with
  | none =>
      rcases Option.some.inj hMove with rfl
      rfl
  | some first => exact setPrev_isSome hMove b

@[simp] theorem free_heap_self
    (s : SortTimerLst)
    (a : Addr) :
    (s.free a).heap a = none := by
  simp [free]

/-
  What the loop of `tick` frees is what it fires: a free
  address stays free, and a fired one becomes free.
-/
theorem tickLoop_freed
    {cur : Int}
    {fuel : Nat}
    {tmp : Option Addr}
    {s s' : SortTimerLst}
    {fired : List (Addr × Fd)}
    (hRun : tickLoop cur fuel tmp s = some (s', fired))
    (a : Addr)
    (hGone :
      s.heap a = none ∨ a ∈ fired.map Prod.fst) :
    s'.heap a = none := by
  induction fuel generalizing tmp s fired with
  | zero =>
      cases tmp with
      | none =>
          cases hRun
          simpa using hGone
      | some tmp => cases hRun
  | succ fuel ih =>
      cases tmp with
      | none =>
          cases hRun
          simpa using hGone
      | some tmp =>
          rcases Option.bind_eq_some_iff.mp hRun with
            ⟨node, hNode, hTurn⟩
          by_cases hLt : cur < node.expire
          · rw [if_pos hLt] at hTurn
            cases hTurn
            simpa using hGone
          · rw [if_neg hLt] at hTurn
            rcases Option.bind_eq_some_iff.mp hTurn with
              ⟨s₁, hMove, hRest⟩
            rcases Option.bind_eq_some_iff.mp hRest with
              ⟨⟨s₂, others⟩, hLoop, hEq⟩
            cases hEq
            apply ih hLoop
            rcases hGone with hNone | hFired
            · left
              have hMoved := moveHead_isSome hMove a
              by_cases ha : a = tmp
              · subst ha
                exact free_heap_self s₁ a
              · rw [free_heap_of_ne s₁ ha]
                simpa [hNone] using hMoved
            · rw [List.map_cons, List.mem_cons] at hFired
              rcases hFired with ha | hOther
              · left
                rw [ha]
                exact free_heap_self s₁ tmp
              · exact Or.inr hOther

end SortTimerLst

end V2

end WebServer

------------------------------------------------------------
-- Ticks
------------------------------------------------------------

namespace WebServer

namespace V2

namespace SortTimerLst

open DoublyLinked

theorem callbacks_map_fst
    (s : SortTimerLst)
    (l : List Addr) :
    (s.callbacks l).map Prod.fst = l := by
  simp [callbacks, Function.comp_def]

/- In a sorted list `tick` fires all expired timers. -/
theorem ByExpiry.expired_eq_filter
    {s : SortTimerLst}
    {l : List Addr}
    (cur : Int)
    (h : s.ByExpiry l) :
    s.expired cur l =
      l.filter fun a => decide (s.expireAt a ≤ cur) := by
  have hSplit := s.expired_append_remaining cur l
  have hFront :
      (s.expired cur l).filter
          (fun a => decide (s.expireAt a ≤ cur)) =
        s.expired cur l := by
    rw [List.filter_eq_self]
    intro a ha
    unfold expired at ha
    simpa using List.mem_takeWhile_imp ha
  have hBack :
      (s.remaining cur l).filter
          (fun a => decide (s.expireAt a ≤ cur)) =
        [] := by
    rw [List.filter_eq_nil_iff]
    intro a ha
    have hLt := h.lt_of_mem_remaining ha
    simpa using hLt
  conv_rhs => rw [← hSplit]
  rw [List.filter_append, hFront, hBack, List.append_nil]

/-
  On a sorted list `tick` runs the callbacks of the expired
  timers, in list order, and frees exactly their nodes. The
  others are left in their order.
-/
theorem tick_fires_expired
    {s : SortTimerLst}
    {l : List Addr}
    (h : Chained s l)
    (hSorted : s.ByExpiry l)
    (cur : Int) :
    ∃ s' fired rest,
      fired =
          (l.filter fun a => decide (s.expireAt a ≤ cur)) ∧
        rest =
          (l.filter fun a => decide (cur < s.expireAt a)) ∧
        s.tick cur = some (s', s.callbacks fired) ∧
        fired.Nodup ∧
        Deallocates fired s s' ∧
        Chained s' rest ∧
        Walk s'.nx s'.head rest ∧
        (∀ first, s'.head = some first →
          s'.pv first = none) := by
  rcases h.tick cur with ⟨s', hRun, hChained, hKept, _⟩
  have hFreed :
      ∀ a ∈ s.expired cur l, s'.heap a = none := by
    intro a ha
    apply tickLoop_freed hRun a
    right
    rw [callbacks_map_fst]
    exact ha
  refine
    ⟨s', s.expired cur l, s.remaining cur l,
      hSorted.expired_eq_filter cur,
      hSorted.remaining_eq_filter cur, hRun,
      h.nodup.sublist (List.takeWhile_sublist _),
      ⟨hKept, hFreed⟩, hChained, ?_, ?_⟩
  · rw [hChained.head_eq]
    exact hChained.seg.walk
  · intro first hFirst
    have hSeg := hChained.seg
    rw [hChained.head_eq] at hFirst
    cases hRest : s.remaining cur l with
    | nil => simp [hRest] at hFirst
    | cons a rest =>
        rw [hRest] at hFirst hSeg
        rcases Option.some.inj hFirst with rfl
        exact hSeg.1

/- Two of three timers expire, one of them at the tick. -/
theorem tick_fires_expired_two :
    ∃ s' fired rest,
      fired =
          ([0, 1, 2].filter fun a =>
            decide ((threeTimers 3 5 9).expireAt a ≤ 5)) ∧
        rest =
          ([0, 1, 2].filter fun a =>
            decide (5 < (threeTimers 3 5 9).expireAt a)) ∧
        (threeTimers 3 5 9).tick 5 =
          some (s', (threeTimers 3 5 9).callbacks fired) ∧
        fired.Nodup ∧
        Deallocates fired (threeTimers 3 5 9) s' ∧
        Chained s' rest ∧
        Walk s'.nx s'.head rest ∧
        (∀ first, s'.head = some first →
          s'.pv first = none) :=
  tick_fires_expired (threeTimers_chained 3 5 9)
    (by
      show List.Pairwise _ _
      decide)
    5

end SortTimerLst

end V2

end WebServer

------------------------------------------------------------
-- Deletions
------------------------------------------------------------

namespace WebServer

namespace V2

namespace SortTimerLst

/-
  `del_timer` frees its timer at the ends of the list only:
  between two others the node is unlinked and stays
  allocated.
-/
theorem delTimer_freed_iff
    {s s' : SortTimerLst}
    {timer : Addr}
    (hAlloc : (s.heap timer).isSome)
    (hRun : s.delTimer timer = some s') :
    s'.heap timer = none ↔
      s.head = some timer ∨ s.tail = some timer := by
  unfold delTimer at hRun
  split_ifs at hRun with hOnly hHead hTail
  · rcases Option.some.inj hRun with rfl
    exact
      iff_of_true (free_heap_self s timer) (Or.inl hOnly.1)
  · rcases Option.bind_eq_some_iff.mp hRun with
      ⟨node, _, hNext⟩
    rcases Option.bind_eq_some_iff.mp hNext with
      ⟨first, _, hSet⟩
    rcases Option.bind_eq_some_iff.mp hSet with
      ⟨s₁, _, hEq⟩
    rcases Option.some.inj hEq with rfl
    exact iff_of_true (free_heap_self s₁ timer) (Or.inl hHead)
  · rcases Option.bind_eq_some_iff.mp hRun with
      ⟨node, _, hPrev⟩
    rcases Option.bind_eq_some_iff.mp hPrev with
      ⟨last, _, hSet⟩
    rcases Option.bind_eq_some_iff.mp hSet with
      ⟨s₁, _, hEq⟩
    rcases Option.some.inj hEq with rfl
    exact iff_of_true (free_heap_self s₁ timer) (Or.inr hTail)
  · rcases Option.bind_eq_some_iff.mp hRun with
      ⟨node, _, hPrev⟩
    rcases Option.bind_eq_some_iff.mp hPrev with
      ⟨before, _, hNext⟩
    rcases Option.bind_eq_some_iff.mp hNext with
      ⟨after, _, hSet⟩
    rcases Option.bind_eq_some_iff.mp hSet with
      ⟨s₁, hSet₁, hSet₂⟩
    have hSome :
        (s'.heap timer).isSome = (s.heap timer).isSome :=
      (setPrev_isSome hSet₂ timer).trans
        (setNext_isSome hSet₁ timer)
    apply iff_of_false
    · intro hNone
      rw [hNone, hAlloc] at hSome
      cases hSome
    · rintro (hIs | hIs)
      · exact hHead hIs
      · exact hTail hIs

/-
  After `del_timer` the list is the other timers in their
  order, and the timer's node, no other, was deallocated.
-/
def DeletesOne
    (s : SortTimerLst)
    (l : List Addr)
    (timer : Addr) : Prop :=
  ∃ s',
    s.delTimer timer = some s' ∧
      Chained s' (l.erase timer) ∧
      (l.erase timer = [] → s'.tail = none) ∧
      Deallocates [timer] s s'

/-
  `del_timer` deletes its timer exactly when the timer is at
  an end of the list.
-/
theorem delTimer_deallocates_iff
    {s : SortTimerLst}
    {l : List Addr}
    {timer : Addr}
    (h : Chained s l)
    (hIn : timer ∈ l) :
    s.DeletesOne l timer ↔
      s.head = some timer ∨ s.tail = some timer := by
  have hAlloc := h.alloc timer hIn
  constructor
  · rintro ⟨s', hRun, _, _, hFreed⟩
    exact
      (delTimer_freed_iff hAlloc hRun).mp
        (hFreed.freed timer (by simp))
  · intro hEnd
    rcases List.append_of_mem hIn with ⟨l₁, l₂, rfl⟩
    have hNotIn : timer ∉ l₁ :=
      fun hMem =>
        (List.nodup_append.mp h.nodup).2.2 timer hMem timer
          (by simp) rfl
    have hErase :
        (l₁ ++ timer :: l₂).erase timer = l₁ ++ l₂ := by
      rw [List.erase_append_right _ hNotIn,
        List.erase_cons_head]
    rcases h.delTimer with
      ⟨s', hRun, hChained, hKept, hTail⟩
    refine ⟨s', hRun, ?_, ?_, hKept, ?_⟩
    · rw [hErase]
      exact hChained
    · rw [hErase]
      exact hTail
    · intro a ha
      rw [List.mem_singleton.mp ha]
      exact (delTimer_freed_iff hAlloc hRun).mpr hEnd

/- The last of three timers is deleted. -/
theorem delTimer_deallocates_iff_last :
    (threeTimers 3 5 9).DeletesOne [0, 1, 2] 2 ↔
      (threeTimers 3 5 9).head = some 2 ∨
        (threeTimers 3 5 9).tail = some 2 :=
  delTimer_deallocates_iff (threeTimers_chained 3 5 9)
    (by simp)

/- The one in the middle is not. -/
theorem middle_timer_not_freed :
    ¬ (threeTimers 3 5 9).DeletesOne [0, 1, 2] 1 := by
  rintro ⟨s', hRun, _, _, hFreed⟩
  have hEnd :=
    (delTimer_freed_iff rfl hRun).mp
      (hFreed.freed 1 (by simp))
  revert hEnd
  decide

end SortTimerLst

end V2

end WebServer
