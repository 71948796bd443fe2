import WebServer.V2.Timer.Chained

/-
  The timer list as its users call it: a timer is created
  and added in one go, and its expiry is written before it
  is adjusted.

  Main declarations:
    * `chained_empty`
    * `Chained.addNew`
    * `Chained.addNew_before_head`
    * `Chained.setExpire`
-/

------------------------------------------------------------
-- New Timers
------------------------------------------------------------

namespace WebServer

namespace V2

namespace SortTimerLst

open DoublyLinked

/- The constructor's list is empty. -/
theorem chained_empty :
    Chained SortTimerLst.empty [] where
  head_eq := rfl
  tail_eq := fun hNe => (hNe rfl).elim
  seg := trivial
  nodup := List.nodup_nil
  alloc := by simp
  size := by simp

/- A freshly created timer leaves a chained list alone. -/
theorem Chained.alloc_spec
    {s : SortTimerLst}
    {l : List Addr}
    {a : Addr}
    (h : Chained s l)
    (hFresh : s.heap a = none)
    (expire : Int)
    (userData : Fd) :
    Chained (s.alloc a expire userData) l ∧
      a ∉ l ∧
      l.length + 1 ≤
        (s.alloc a expire userData).allocations := by
  have hNotIn : a ∉ l := by
    intro hIn
    have hSome := h.alloc a hIn
    simp [hFresh] at hSome
  have hNe : ∀ b ∈ l, b ≠ a := by
    rintro b hb rfl
    exact hNotIn hb
  have hSize := h.size
  refine ⟨?_, hNotIn, ?_⟩
  · refine
      { head_eq := h.head_eq
        tail_eq := h.tail_eq
        seg := ?_
        nodup := h.nodup
        alloc := ?_
        size := ?_ }
    · apply h.seg.congr
      · intro b hb
        simp [nx, SortTimerLst.alloc, hNe b hb]
      · intro b hb
        simp [pv, SortTimerLst.alloc, hNe b hb]
    · intro b hb
      simpa [SortTimerLst.alloc, hNe b hb] using
        h.alloc b hb
    · change l.length ≤ s.allocations + 1
      omega
  · change l.length + 1 ≤ s.allocations + 1
    omega

theorem alloc_expireAt_of_ne
    (s : SortTimerLst)
    {a b : Addr}
    (expire : Int)
    (userData : Fd)
    (hNe : b ≠ a) :
    (s.alloc a expire userData).expireAt b =
      s.expireAt b := by
  simp [expireAt, alloc, hNe]

@[simp] theorem alloc_expireAt_self
    (s : SortTimerLst)
    (a : Addr)
    (expire : Int)
    (userData : Fd) :
    (s.alloc a expire userData).expireAt a = expire := by
  simp [expireAt, alloc]

theorem alloc_userDataAt_of_ne
    (s : SortTimerLst)
    {a b : Addr}
    (expire : Int)
    (userData : Fd)
    (hNe : b ≠ a) :
    (s.alloc a expire userData).userDataAt b =
      s.userDataAt b := by
  simp [userDataAt, alloc, hNe]

@[simp] theorem alloc_userDataAt_self
    (s : SortTimerLst)
    (a : Addr)
    (expire : Int)
    (userData : Fd) :
    (s.alloc a expire userData).userDataAt a =
      userData := by
  simp [userDataAt, alloc]

/- The head's expiry is not touched by an allocation. -/
theorem Chained.alloc_expireAt_head
    {s : SortTimerLst}
    {l : List Addr}
    {a first : Addr}
    (h : Chained s l)
    (hFresh : s.heap a = none)
    (hHead : s.head = some first)
    (expire : Int)
    (userData : Fd) :
    (s.alloc a expire userData).expireAt first =
      s.expireAt first := by
  apply alloc_expireAt_of_ne
  rintro rfl
  have hIn :=
    h.alloc first
      (List.mem_of_head? (h.head_eq.symm.trans hHead))
  simp [hFresh] at hIn

/-
  A timer created and added goes to its place when it does
  not expire before the head.
-/
theorem Chained.addNew
    {s : SortTimerLst}
    {l : List Addr}
    {a : Addr}
    {expire : Int}
    (h : Chained s l)
    (hFresh : s.heap a = none)
    (userData : Fd)
    (hNotFirst :
      ∀ first, s.head = some first →
        s.expireAt first ≤ expire) :
    ∃ s',
      (s.alloc a expire userData).addTimer a = some s' ∧
        Chained s'
          ((s.alloc a expire userData).place a l) ∧
        SameNodes (s.alloc a expire userData) s' ∧
        a ∉ l := by
  rcases h.alloc_spec hFresh expire userData with
    ⟨hAlloc, hNotIn, hSize⟩
  rcases hAlloc.addTimer
      (by simp [SortTimerLst.alloc])
      (by simp [nx, SortTimerLst.alloc])
      (by simp [pv, SortTimerLst.alloc])
      hNotIn hSize
      (by
        intro first hHead
        rw [h.alloc_expireAt_head hFresh hHead,
          alloc_expireAt_self]
        exact hNotFirst first hHead) with
    ⟨s', hRun, hChained, hSame⟩
  exact ⟨s', hRun, hChained, hSame, hNotIn⟩

/-
  A timer created and added that expires before the head is
  lost: a walk from `head` finds the old timers only.
-/
theorem Chained.addNew_before_head
    {s : SortTimerLst}
    {l : List Addr}
    {a first : Addr}
    {expire : Int}
    (h : Chained s l)
    (hFresh : s.heap a = none)
    (userData : Fd)
    (hHead : s.head = some first)
    (hEarlier : expire < s.expireAt first) :
    ∃ s',
      (s.alloc a expire userData).addTimer a = some s' ∧
        Walk s'.nx s'.head l ∧
        ∀ l', ¬ Chained s' l' := by
  rcases h.alloc_spec hFresh expire userData with
    ⟨hAlloc, hNotIn, _⟩
  apply hAlloc.addTimer_before_head
    (by simp [SortTimerLst.alloc]) hNotIn hHead
  rw [h.alloc_expireAt_head hFresh hHead,
    alloc_expireAt_self]
  exact hEarlier

end SortTimerLst

end V2

end WebServer

------------------------------------------------------------
-- Prolonged Timers
------------------------------------------------------------

namespace WebServer

namespace V2

namespace SortTimerLst

/- Writing an expiry changes no link. -/
theorem Chained.setExpire
    {s : SortTimerLst}
    {l : List Addr}
    {a : Addr}
    (h : Chained s l)
    (hIn : a ∈ l)
    (expire : Int) :
    ∃ s', s.setExpire a expire = some s' ∧
      Chained s' l ∧
      s'.expireAt a = expire ∧
      (∀ b, b ≠ a → s'.expireAt b = s.expireAt b) ∧
      s'.userDataAt = s.userDataAt ∧
      s'.tail = s.tail := by
  rcases Option.isSome_iff_exists.mp (h.alloc a hIn) with
    ⟨node, hNode⟩
  refine
    ⟨{ s with
      heap :=
        Function.update s.heap a
          (some { node with expire := expire }) },
      by simp [SortTimerLst.setExpire, hNode], ?_,
      by simp [expireAt], ?_, ?_, rfl⟩
  · refine
      { head_eq := h.head_eq
        tail_eq := h.tail_eq
        seg := ?_
        nodup := h.nodup
        alloc := ?_
        size := h.size }
    · apply h.seg.congr
      · intro b _
        by_cases hb : b = a
        · subst hb
          simp [nx, hNode]
        · simp [nx, hb]
      · intro b _
        by_cases hb : b = a
        · subst hb
          simp [pv, hNode]
        · simp [pv, hb]
    · intro b hb
      by_cases hba : b = a
      · subst hba
        simp
      · simpa [hba] using h.alloc b hb
  · intro b hb
    simp [expireAt, hb]
  · funext b
    by_cases hb : b = a
    · subst hb
      simp [userDataAt, hNode]
    · simp [userDataAt, hb]

end SortTimerLst

end V2

end WebServer
