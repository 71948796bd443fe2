import Mathlib.Data.List.Sort
import WebServer.Library.DoublyLinked
import WebServer.V2.Timer.LstTimer

/-
  What each timer-list operation does to a chained list.

  `Chained s l` says that the links of `s` spell the list
  `l` of addresses: following `next` from `head` visits
  exactly `l`, `prev` is its inverse, and `tail` is its last
  node. Each operation is given one lemma that says which
  list it leaves behind.

  Main declarations:
    * `SortTimerLst.Chained`
    * `SortTimerLst.Chained.addTimer`
    * `SortTimerLst.Chained.addTimer_before_head`
    * `SortTimerLst.Chained.adjustTimer`
    * `SortTimerLst.Chained.delTimer`
    * `SortTimerLst.Chained.tick`
-/

------------------------------------------------------------
-- Links Read From The Heap
------------------------------------------------------------

namespace WebServer

namespace V2

namespace SortTimerLst

open DoublyLinked

/- The `next` links, as a function of the address. -/
def nx
    (s : SortTimerLst)
    (a : Addr) : Option Addr :=
  (s.heap a).bind (·.next)

/- The `prev` links, as a function of the address. -/
def pv
    (s : SortTimerLst)
    (a : Addr) : Option Addr :=
  (s.heap a).bind (·.prev)

/- The expiry stored at an allocated address. -/
def expireAt
    (s : SortTimerLst)
    (a : Addr) : Int :=
  ((s.heap a).map (·.expire)).getD 0

/- The slot stored at an allocated address. -/
def userDataAt
    (s : SortTimerLst)
    (a : Addr) : Fd :=
  ((s.heap a).map (·.userData)).getD 0

/-
  Every node outside `gone` is still allocated with the
  expiry and the slot it had.
-/
structure KeptNodes
    (gone : List Addr)
    (s s' : SortTimerLst) : Prop where
  allocations_eq : s'.allocations = s.allocations
  payload_eq :
    ∀ a, a ∉ gone →
      (s'.heap a).map (fun n => (n.expire, n.userData)) =
        (s.heap a).map (fun n => (n.expire, n.userData))

namespace KeptNodes

variable {gone : List Addr}
variable {s t u : SortTimerLst}

theorem isSome_iff
    (h : KeptNodes gone s t)
    {a : Addr}
    (ha : a ∉ gone) :
    (t.heap a).isSome ↔ (s.heap a).isSome := by
  have hEq := congrArg Option.isSome (h.payload_eq a ha)
  simpa using hEq

theorem expireAt_eq
    (h : KeptNodes gone s t)
    {a : Addr}
    (ha : a ∉ gone) :
    t.expireAt a = s.expireAt a := by
  have hEq :=
    congrArg (fun o => (o.map Prod.fst).getD 0)
      (h.payload_eq a ha)
  simpa [expireAt, Option.map_map, Function.comp_def]
    using hEq

theorem userDataAt_eq
    (h : KeptNodes gone s t)
    {a : Addr}
    (ha : a ∉ gone) :
    t.userDataAt a = s.userDataAt a := by
  have hEq :=
    congrArg (fun o => (o.map Prod.snd).getD 0)
      (h.payload_eq a ha)
  simpa [userDataAt, Option.map_map, Function.comp_def]
    using hEq

theorem trans
    {gone' : List Addr}
    (h₁ : KeptNodes gone s t)
    (h₂ : KeptNodes gone' t u) :
    KeptNodes (gone ++ gone') s u := by
  refine ⟨h₂.1.trans h₁.1, ?_⟩
  intro a ha
  rw [List.mem_append, not_or] at ha
  exact (h₂.2 a ha.2).trans (h₁.2 a ha.1)

end KeptNodes

/-
  Two lists agree on everything but links: the same nodes
  are allocated, with the same expiry and the same slot.
-/
abbrev SameNodes (s s' : SortTimerLst) : Prop :=
  KeptNodes [] s s'

namespace SameNodes

variable {s t u : SortTimerLst}

theorem refl
    (s : SortTimerLst) :
    SameNodes s s :=
  ⟨rfl, fun _ _ => rfl⟩

theorem trans
    (h₁ : SameNodes s t)
    (h₂ : SameNodes t u) :
    SameNodes s u :=
  KeptNodes.trans h₁ h₂

theorem isSome_iff
    (h : SameNodes s t)
    (a : Addr) :
    (t.heap a).isSome ↔ (s.heap a).isSome :=
  KeptNodes.isSome_iff h (by simp)

theorem expireAt_eq
    (h : SameNodes s t) :
    t.expireAt = s.expireAt :=
  funext fun _ => KeptNodes.expireAt_eq h (by simp)

end SameNodes

/- Assigning `next` of an allocated node. -/
theorem exists_setNext
    {s : SortTimerLst}
    {a : Addr}
    (hAlloc : (s.heap a).isSome)
    (v : Option Addr) :
    ∃ s', s.setNext a v = some s' ∧
      s'.nx = Function.update s.nx a v ∧
      s'.pv = s.pv ∧
      SameNodes s s' ∧
      s'.head = s.head ∧
      s'.tail = s.tail := by
  rcases Option.isSome_iff_exists.mp hAlloc with
    ⟨node, hNode⟩
  refine
    ⟨{ s with
      heap :=
        Function.update s.heap a
          (some { node with next := v }) },
      by simp [setNext, hNode], ?_, ?_, ⟨rfl, ?_⟩,
      rfl, rfl⟩
  · funext b
    by_cases hb : b = a
    · subst hb
      simp [nx]
    · simp [nx, hb]
  · funext b
    by_cases hb : b = a
    · subst hb
      simp [pv, hNode]
    · simp [pv, hb]
  · intro b _
    by_cases hb : b = a
    · subst hb
      simp [hNode]
    · simp [hb]

/- Assigning `prev` of an allocated node. -/
theorem exists_setPrev
    {s : SortTimerLst}
    {a : Addr}
    (hAlloc : (s.heap a).isSome)
    (v : Option Addr) :
    ∃ s', s.setPrev a v = some s' ∧
      s'.nx = s.nx ∧
      s'.pv = Function.update s.pv a v ∧
      SameNodes s s' ∧
      s'.head = s.head ∧
      s'.tail = s.tail := by
  rcases Option.isSome_iff_exists.mp hAlloc with
    ⟨node, hNode⟩
  refine
    ⟨{ s with
      heap :=
        Function.update s.heap a
          (some { node with prev := v }) },
      by simp [setPrev, hNode], ?_, ?_, ⟨rfl, ?_⟩,
      rfl, rfl⟩
  · funext b
    by_cases hb : b = a
    · subst hb
      simp [nx, hNode]
    · simp [nx, hb]
  · funext b
    by_cases hb : b = a
    · subst hb
      simp [pv]
    · simp [pv, hb]
  · intro b _
    by_cases hb : b = a
    · subst hb
      simp [hNode]
    · simp [hb]

/- Reading the fields of an allocated node. -/
theorem exists_node
    {s : SortTimerLst}
    {a : Addr}
    (hAlloc : (s.heap a).isSome) :
    ∃ node, s.heap a = some node ∧
      node.next = s.nx a ∧
      node.prev = s.pv a ∧
      node.expire = s.expireAt a ∧
      node.userData = s.userDataAt a := by
  rcases Option.isSome_iff_exists.mp hAlloc with
    ⟨node, hNode⟩
  exact
    ⟨node, hNode, by simp [nx, hNode],
      by simp [pv, hNode], by simp [expireAt, hNode],
      by simp [userDataAt, hNode]⟩

/- Freeing a node leaves the links of all others alone. -/
theorem free_nx_of_ne
    (s : SortTimerLst)
    {a b : Addr}
    (hNe : b ≠ a) :
    (s.free a).nx b = s.nx b := by
  simp [free, nx, hNe]

theorem free_pv_of_ne
    (s : SortTimerLst)
    {a b : Addr}
    (hNe : b ≠ a) :
    (s.free a).pv b = s.pv b := by
  simp [free, pv, hNe]

theorem free_heap_of_ne
    (s : SortTimerLst)
    {a b : Addr}
    (hNe : b ≠ a) :
    (s.free a).heap b = s.heap b := by
  simp [free, hNe]

/-
  The links of `s` spell the list `l`. Nothing is said of
  `tail` when the list is empty.
-/
structure Chained
    (s : SortTimerLst)
    (l : List Addr) : Prop where
  head_eq : s.head = l.head?
  tail_eq : l ≠ [] → s.tail = l.getLast?
  seg : Seg s.nx s.pv none l none
  nodup : l.Nodup
  alloc : ∀ a ∈ l, (s.heap a).isSome
  size : l.length ≤ s.allocations

/- `a` comes before `b` in expiry order. -/
abbrev Earlier
    (s : SortTimerLst)
    (a b : Addr) : Prop :=
  s.expireAt a < s.expireAt b

/-
  The place the list walk finds for a timer: before the
  first node that expires later.
-/
def place
    (s : SortTimerLst)
    (timer : Addr)
    (l : List Addr) : List Addr :=
  l.orderedInsert s.Earlier timer

@[simp] theorem place_nil
    (s : SortTimerLst)
    (timer : Addr) :
    s.place timer [] = [timer] := rfl

theorem place_cons
    (s : SortTimerLst)
    (timer a : Addr)
    (l : List Addr) :
    s.place timer (a :: l) =
      if s.expireAt timer < s.expireAt a then
        timer :: a :: l
      else
        a :: s.place timer l := rfl

theorem SameNodes.place_eq
    {s s' : SortTimerLst}
    (h : SameNodes s s')
    (timer : Addr)
    (l : List Addr) :
    s'.place timer l = s.place timer l := by
  induction l with
  | nil => rfl
  | cons a l ih =>
      rw [place_cons, place_cons, h.expireAt_eq, ih]

theorem place_perm
    (s : SortTimerLst)
    (timer : Addr)
    (l : List Addr) :
    (s.place timer l).Perm (timer :: l) :=
  List.perm_orderedInsert _ _ _

theorem place_ne_nil
    (s : SortTimerLst)
    (timer : Addr)
    (l : List Addr) :
    s.place timer l ≠ [] := by
  intro hNil
  have hLength := (s.place_perm timer l).length_eq
  simp [hNil] at hLength

end SortTimerLst

end V2

end WebServer

------------------------------------------------------------
-- Insertion
------------------------------------------------------------

namespace WebServer

namespace V2

namespace SortTimerLst

open DoublyLinked

/- A timer is linked behind the last node of a list. -/
theorem exists_linkLast
    {s : SortTimerLst}
    {l₁ : List Addr}
    {prev timer : Addr}
    (hSeg : Seg s.nx s.pv none (l₁ ++ [prev]) none)
    (hNodup : (l₁ ++ [prev]).Nodup)
    (hFresh : timer ∉ l₁ ++ [prev])
    (hPrev : (s.heap prev).isSome)
    (hTimer : (s.heap timer).isSome) :
    ∃ s₁ s₂ s₃,
      s.setNext prev (some timer) = some s₁ ∧
        s₁.setPrev timer (some prev) = some s₂ ∧
        s₂.setNext timer none = some s₃ ∧
        Seg s₃.nx s₃.pv none (l₁ ++ [prev, timer]) none ∧
        SameNodes s s₃ ∧
        s₃.head = s.head := by
  rcases exists_setNext hPrev (some timer) with
    ⟨s₁, hSet₁, hNx₁, hPv₁, hSame₁, hHead₁, _⟩
  rcases exists_setPrev
      ((hSame₁.isSome_iff timer).mpr hTimer) (some prev) with
    ⟨s₂, hSet₂, hNx₂, hPv₂, hSame₂, hHead₂, _⟩
  have hSame₁₂ := hSame₁.trans hSame₂
  rcases exists_setNext
      ((hSame₁₂.isSome_iff timer).mpr hTimer) none with
    ⟨s₃, hSet₃, hNx₃, hPv₃, hSame₃, hHead₃, _⟩
  refine
    ⟨s₁, s₂, s₃, hSet₁, hSet₂, hSet₃, ?_,
      hSame₁₂.trans hSame₃,
      hHead₃.trans (hHead₂.trans hHead₁)⟩
  rw [hNx₃, hPv₃, hNx₂, hPv₂, hNx₁, hPv₁]
  have hNe : prev ≠ timer := by
    rintro rfl
    simp at hFresh
  apply hSeg.insertAfter hNodup hFresh
  · simp [hNe]
  · simp
  · intro b hb hb'
    simp [hb, hb']
  · simp
  · simp
  · intro b hb _
    simp [hb]

/- A timer is linked between two neighbours. -/
theorem exists_linkBetween
    {s : SortTimerLst}
    {l₁ l₂ : List Addr}
    {prev timer tmp : Addr}
    (hSeg : Seg s.nx s.pv none (l₁ ++ prev :: tmp :: l₂) none)
    (hNodup : (l₁ ++ prev :: tmp :: l₂).Nodup)
    (hFresh : timer ∉ l₁ ++ prev :: tmp :: l₂)
    (hPrev : (s.heap prev).isSome)
    (hTmp : (s.heap tmp).isSome)
    (hTimer : (s.heap timer).isSome) :
    ∃ s₁ s₂ s₃ s₄,
      s.setNext prev (some timer) = some s₁ ∧
        s₁.setNext timer (some tmp) = some s₂ ∧
        s₂.setPrev tmp (some timer) = some s₃ ∧
        s₃.setPrev timer (some prev) = some s₄ ∧
        Seg s₄.nx s₄.pv none
          (l₁ ++ prev :: timer :: tmp :: l₂) none ∧
        SameNodes s s₄ ∧
        s₄.head = s.head ∧
        s₄.tail = s.tail := by
  rcases exists_setNext hPrev (some timer) with
    ⟨s₁, hSet₁, hNx₁, hPv₁, hSame₁, hHead₁, hTail₁⟩
  rcases exists_setNext
      ((hSame₁.isSome_iff timer).mpr hTimer) (some tmp) with
    ⟨s₂, hSet₂, hNx₂, hPv₂, hSame₂, hHead₂, hTail₂⟩
  have hSame₁₂ := hSame₁.trans hSame₂
  rcases exists_setPrev
      ((hSame₁₂.isSome_iff tmp).mpr hTmp) (some timer) with
    ⟨s₃, hSet₃, hNx₃, hPv₃, hSame₃, hHead₃, hTail₃⟩
  have hSame₁₃ := hSame₁₂.trans hSame₃
  rcases exists_setPrev
      ((hSame₁₃.isSome_iff timer).mpr hTimer)
      (some prev) with
    ⟨s₄, hSet₄, hNx₄, hPv₄, hSame₄, hHead₄, hTail₄⟩
  refine
    ⟨s₁, s₂, s₃, s₄, hSet₁, hSet₂, hSet₃, hSet₄, ?_,
      hSame₁₃.trans hSame₄,
      hHead₄.trans (hHead₃.trans (hHead₂.trans hHead₁)),
      hTail₄.trans (hTail₃.trans (hTail₂.trans hTail₁))⟩
  rw [hNx₄, hPv₄, hNx₃, hPv₃, hNx₂, hPv₂, hNx₁, hPv₁]
  have hNe : prev ≠ timer := by
    rintro rfl
    simp at hFresh
  have hNe' : tmp ≠ timer := by
    rintro rfl
    simp at hFresh
  apply hSeg.insertAfter hNodup hFresh
  · simp [hNe]
  · simp
  · intro b hb hb'
    simp [hb, hb']
  · simp
  · intro y hy
    have hEq : tmp = y := by simpa using hy
    subst hEq
    simp [hNe']
  · intro b hb hHead
    have hbTmp : b ≠ tmp := by
      rintro rfl
      simp at hHead
    simp [hb, hbTmp]

/-
  The walk of the private overload, by induction on the
  nodes after `prev`.
-/
theorem addTimerLoop_spec
    {timer : Addr}
    (l₂ : List Addr)
    {s : SortTimerLst}
    {l₁ : List Addr}
    {prev : Addr}
    {fuel : Nat}
    (hSeg : Seg s.nx s.pv none (l₁ ++ prev :: l₂) none)
    (hNodup : (l₁ ++ prev :: l₂).Nodup)
    (hFresh : timer ∉ l₁ ++ prev :: l₂)
    (hAlloc :
      ∀ a ∈ l₁ ++ prev :: l₂, (s.heap a).isSome)
    (hTimer : (s.heap timer).isSome)
    (hFuel : l₂.length ≤ fuel)
    (hTail : s.tail = (prev :: l₂).getLast?) :
    ∃ s',
      addTimerLoop timer fuel prev l₂.head? s = some s' ∧
      Seg s'.nx s'.pv none
        (l₁ ++ prev :: s.place timer l₂) none ∧
      SameNodes s s' ∧
      s'.head = s.head ∧
      s'.tail = (prev :: s.place timer l₂).getLast? := by
  induction l₂ generalizing l₁ prev fuel with
  | nil =>
      rcases exists_linkLast hSeg hNodup hFresh
          (hAlloc prev (by simp)) hTimer with
        ⟨s₁, s₂, s₃, hSet₁, hSet₂, hSet₃, hSeg', hSame,
          hHead⟩
      refine
        ⟨{ s₃ with tail := some timer }, ?_, hSeg',
          ⟨hSame.1, hSame.2⟩, hHead, ?_⟩
      · cases fuel <;>
          simp [addTimerLoop, hSet₁, hSet₂, hSet₃]
      · simp
  | cons tmp l₂ ih =>
      cases fuel with
      | zero => simp at hFuel
      | succ fuel =>
          rcases exists_node hTimer with
            ⟨node, hNode, _, _, hExpire, _⟩
          have hTmp := hAlloc tmp (by simp)
          rcases exists_node hTmp with
            ⟨other, hOther, hNextTmp, _, hExpireTmp, _⟩
          have hNextTmp' : other.next = l₂.head? := by
            have hSplit :
                Seg s.nx s.pv none
                  ((l₁ ++ [prev]) ++ tmp :: l₂) none := by
              simpa using hSeg
            rw [hNextTmp, hSplit.middle.2]
            simp
          by_cases hLt :
              s.expireAt timer < s.expireAt tmp
          · rcases exists_linkBetween hSeg hNodup hFresh
                (hAlloc prev (by simp)) hTmp hTimer with
              ⟨s₁, s₂, s₃, s₄, hSet₁, hSet₂, hSet₃, hSet₄,
                hSeg', hSame, hHead, hLast⟩
            have hPlace :
                s.place timer (tmp :: l₂) =
                  timer :: tmp :: l₂ := by
              rw [place_cons, if_pos hLt]
            refine ⟨s₄, ?_, ?_, hSame, hHead, ?_⟩
            · simp [addTimerLoop, hNode, hOther, hExpire,
                hExpireTmp, hLt, hSet₁, hSet₂, hSet₃,
                hSet₄]
            · rw [hPlace]
              exact hSeg'
            · rw [hPlace, hLast, hTail]
              simp [List.getLast?_cons_cons]
          · have hTail' :
                s.tail = (tmp :: l₂).getLast? := by
              rw [hTail, List.getLast?_cons_cons]
            have hStep :=
              @ih (l₁ ++ [prev]) tmp fuel
                (by simpa using hSeg)
                (by simpa using hNodup)
                (by simpa using hFresh)
                (by simpa using hAlloc)
                (by simpa using hFuel)
                hTail'
            rcases hStep with
              ⟨s', hRun, hSeg', hSame, hHead, hLast⟩
            refine ⟨s', ?_, ?_, hSame, hHead, ?_⟩
            · simpa [addTimerLoop, hNode, hOther, hExpire,
                hExpireTmp, hLt, hNextTmp'] using hRun
            · rw [place_cons, if_neg hLt]
              simpa using hSeg'
            · rw [place_cons, if_neg hLt, hLast,
                List.getLast?_cons_cons]

end SortTimerLst

end V2

end WebServer

------------------------------------------------------------
-- Adding And Adjusting
------------------------------------------------------------

namespace WebServer

namespace V2

namespace SortTimerLst

open DoublyLinked

/-
  The private overload, called at a node of the list, places
  the timer somewhere after that node.
-/
theorem addTimerFrom_spec
    {s : SortTimerLst}
    {l₁ l₂ : List Addr}
    {timer first : Addr}
    (h : Chained s (l₁ ++ first :: l₂))
    (hTimer : (s.heap timer).isSome)
    (hFresh : timer ∉ l₁ ++ first :: l₂)
    (hSize :
      (l₁ ++ first :: l₂).length + 1 ≤ s.allocations) :
    ∃ s', s.addTimerFrom timer first = some s' ∧
      Chained s' (l₁ ++ first :: s.place timer l₂) ∧
      SameNodes s s' := by
  rcases exists_node (h.alloc first (by simp)) with
    ⟨node, hNode, hNext, _, _, _⟩
  have hNext' : node.next = l₂.head? := by
    rw [hNext, h.seg.middle.2]
    simp
  have hTail : s.tail = (first :: l₂).getLast? := by
    rw [h.tail_eq (by simp), List.getLast?_append]
    simp [List.getLast?_cons]
  have hFuel : l₂.length ≤ s.allocations := by
    simp at hSize
    omega
  rcases addTimerLoop_spec l₂ h.seg h.nodup hFresh h.alloc
      hTimer hFuel hTail with
    ⟨s', hRun, hSeg, hSame, hHead, hLast⟩
  have hPerm :
      (l₁ ++ first :: s.place timer l₂).Perm
        (timer :: (l₁ ++ first :: l₂)) := by
    have hMove :
        ((l₁ ++ [first]) ++ timer :: l₂).Perm
          (timer :: ((l₁ ++ [first]) ++ l₂)) :=
      List.perm_middle
    have hPlace :=
      (s.place_perm timer l₂).append_left (l₁ ++ [first])
    simpa using hPlace.trans hMove
  refine ⟨s', ?_, ?_, hSame⟩
  · simpa [SortTimerLst.addTimerFrom, hNode, hNext']
      using hRun
  · constructor
    · rw [hHead, h.head_eq]
      cases l₁ <;> simp
    · intro _
      rw [hLast, List.getLast?_append]
      simp [List.getLast?_cons]
    · exact hSeg
    · exact
        hPerm.nodup_iff.mpr
          (List.nodup_cons.mpr ⟨hFresh, h.nodup⟩)
    · intro a ha
      rw [hSame.isSome_iff]
      rcases List.mem_cons.mp (hPerm.mem_iff.mp ha) with
        rfl | ha
      · exact hTimer
      · exact h.alloc a ha
    · rw [hPerm.length_eq, hSame.allocations_eq]
      exact hSize

/-
  A new timer that does not expire before the head goes to
  its place in the list.
-/
theorem Chained.addTimer
    {s : SortTimerLst}
    {l : List Addr}
    {timer : Addr}
    (h : Chained s l)
    (hTimer : (s.heap timer).isSome)
    (hNx : s.nx timer = none)
    (hPv : s.pv timer = none)
    (hFresh : timer ∉ l)
    (hSize : l.length + 1 ≤ s.allocations)
    (hNotFirst :
      ∀ first, s.head = some first →
        s.expireAt first ≤ s.expireAt timer) :
    ∃ s', s.addTimer timer = some s' ∧
      Chained s' (s.place timer l) ∧
      SameNodes s s' := by
  cases l with
  | nil =>
      have hHead : s.head = none := h.head_eq
      refine
        ⟨{ s with head := some timer, tail := some timer },
          by simp [SortTimerLst.addTimer, hHead], ?_,
          ⟨rfl, fun _ _ => rfl⟩⟩
      refine
        { head_eq := rfl
          tail_eq := fun _ => rfl
          seg := ⟨hPv, hNx, trivial⟩
          nodup := List.nodup_singleton _
          alloc := ?_
          size := by simpa using hSize }
      intro a ha
      rw [List.mem_singleton.mp ha]
      exact hTimer
  | cons first l =>
      have hHead : s.head = some first := h.head_eq
      have hLe := hNotFirst first hHead
      have hLt :
          ¬ s.expireAt timer < s.expireAt first := by
        omega
      rcases @addTimerFrom_spec s [] _ _ _ h hTimer hFresh
          hSize with
        ⟨s', hRun, hChained, hSame⟩
      rcases exists_node hTimer with
        ⟨node, hNode, _, _, hExpire, _⟩
      rcases exists_node (h.alloc first (by simp)) with
        ⟨other, hOther, _, _, hExpireFirst, _⟩
      refine ⟨s', ?_, ?_, hSame⟩
      · simpa [SortTimerLst.addTimer, hHead, hNode, hOther,
          hExpire, hExpireFirst, hLt] using hRun
      · rw [place_cons, if_neg hLt]
        exact hChained

/-
  A new timer that expires before the head is linked in
  front of it while `head` stays where it was: a walk from
  `head` still finds the old timers only, and the links no
  longer spell any list.
-/
theorem Chained.addTimer_before_head
    {s : SortTimerLst}
    {l : List Addr}
    {timer first : Addr}
    (h : Chained s l)
    (hTimer : (s.heap timer).isSome)
    (hFresh : timer ∉ l)
    (hHead : s.head = some first)
    (hEarlier :
      s.expireAt timer < s.expireAt first) :
    ∃ s', s.addTimer timer = some s' ∧
      Walk s'.nx s'.head l ∧
      ∀ l', ¬ Chained s' l' := by
  have hFirst : (s.heap first).isSome :=
    h.alloc first
      (List.mem_of_head? (h.head_eq.symm.trans hHead))
  rcases exists_node hTimer with
    ⟨node, hNode, _, _, hExpire, _⟩
  rcases exists_node hFirst with
    ⟨other, hOther, _, _, hExpireFirst, _⟩
  rcases exists_setNext hTimer (some first) with
    ⟨s₁, hSet₁, hNx₁, _, hSame₁, hHead₁, _⟩
  rcases exists_setPrev
      ((hSame₁.isSome_iff first).mpr hFirst)
      (some timer) with
    ⟨s₂, hSet₂, hNx₂, hPv₂, _, hHead₂, _⟩
  refine ⟨s₂, ?_, ?_, ?_⟩
  · simp [SortTimerLst.addTimer, hHead, hNode, hOther,
      hExpire, hExpireFirst, hEarlier, hSet₁, hSet₂]
  · rw [hHead₂, hHead₁, h.head_eq, hNx₂, hNx₁]
    apply h.seg.walk.congr
    rintro a ha
    apply Function.update_of_ne
    rintro rfl
    exact hFresh ha
  · intro l' hChained
    have hHead' : l'.head? = some first := by
      rw [← hChained.head_eq, hHead₂, hHead₁, hHead]
    cases l' with
    | nil => simp at hHead'
    | cons a l' =>
        have hEq : a = first := by simpa using hHead'
        subst hEq
        have hBack : s₂.pv a = none := hChained.seg.1
        rw [hPv₂] at hBack
        simp at hBack

/-
  What is left of a list once one timer is out of it, given
  that its neighbours were relinked.
-/
theorem Chained.remainder
    {s s' : SortTimerLst}
    {l₁ l₂ : List Addr}
    {timer : Addr}
    (h : Chained s (l₁ ++ timer :: l₂))
    (hHead : s'.head = (l₁ ++ l₂).head?)
    (hTail :
      l₁ ++ l₂ ≠ [] → s'.tail = (l₁ ++ l₂).getLast?)
    (hSeg : Seg s'.nx s'.pv none (l₁ ++ l₂) none)
    (hAlloc :
      ∀ a, a ≠ timer → (s.heap a).isSome →
        (s'.heap a).isSome)
    (hCount : s'.allocations = s.allocations) :
    Chained s' (l₁ ++ l₂) := by
  have hNodup :
      (timer :: (l₁ ++ l₂)).Nodup :=
    List.perm_middle.nodup_iff.mp h.nodup
  have hSize := h.size
  refine
    { head_eq := hHead
      tail_eq := hTail
      seg := hSeg
      nodup := (List.nodup_cons.mp hNodup).2
      alloc := ?_
      size := ?_ }
  · intro a ha
    apply hAlloc a
    · rintro rfl
      exact (List.nodup_cons.mp hNodup).1 ha
    · apply h.alloc
      rcases List.mem_append.mp ha with ha | ha
      · exact List.mem_append_left _ ha
      · exact
          List.mem_append_right _ (List.mem_cons_of_mem _ ha)
  · simp at hSize ⊢
    omega

/- In a chained list only the first node is the head. -/
theorem Chained.head_ne
    {s : SortTimerLst}
    {l₁ l₂ : List Addr}
    {x timer : Addr}
    (h : Chained s (l₁ ++ x :: timer :: l₂)) :
    s.head ≠ some timer := by
  intro hHead
  have hFirst := h.head_eq.symm.trans hHead
  have hNodup := h.nodup
  cases l₁ with
  | nil =>
      have hEq : x = timer := by simpa using hFirst
      simp [hEq] at hNodup
  | cons y l₁ =>
      have hEq : y = timer := by simpa using hFirst
      simp [hEq] at hNodup

/- In a chained list only the last node is the tail. -/
theorem Chained.tail_ne
    {s : SortTimerLst}
    {l₁ l₂ : List Addr}
    {y timer : Addr}
    (h : Chained s (l₁ ++ timer :: y :: l₂)) :
    s.tail ≠ some timer := by
  intro hTail
  have hLast := (h.tail_eq (by simp)).symm.trans hTail
  have hIn : timer ∈ y :: l₂ := by
    apply List.mem_of_getLast?
    simpa [List.getLast?_append, List.getLast?_cons]
      using hLast
  have hSuffix := (List.nodup_append.mp h.nodup).2.1
  exact (List.nodup_cons.mp hSuffix).1 hIn

/-
  The head moves on to the second node, whose `prev` becomes
  null.
-/
theorem Chained.dropHead
    {s : SortTimerLst}
    {l : List Addr}
    {a y : Addr}
    (h : Chained s (a :: y :: l)) :
    ∃ s',
      ({ s with head := some y } : SortTimerLst).setPrev y
          none = some s' ∧
        Chained s' (y :: l) ∧
        SameNodes s s' ∧
        s'.tail = s.tail := by
  have hY :
      (({ s with head := some y } :
        SortTimerLst).heap y).isSome :=
    h.alloc y (by simp)
  rcases exists_setPrev hY none with
    ⟨s', hSet, hNx, hPv, hSame', hHead, hTail⟩
  have hSame : SameNodes s s' := ⟨hSame'.1, hSame'.2⟩
  refine ⟨s', hSet, ?_, hSame, hTail⟩
  apply @Chained.remainder _ _ [] _ _ h hHead
  · intro _
    rw [hTail]
    simpa [List.getLast?_cons_cons] using
      h.tail_eq (by simp)
  · rw [hNx, hPv]
    exact h.seg.dropFirst h.nodup none
  · intro b _ hb
    exact (hSame.isSome_iff b).mpr hb
  · exact hSame.allocations_eq

/- A node between two others is taken out by relinking them. -/
theorem Chained.unlink
    {s : SortTimerLst}
    {l₁ l₂ : List Addr}
    {x timer y : Addr}
    (h : Chained s (l₁ ++ x :: timer :: y :: l₂)) :
    ∃ s₁ s₂,
      s.setNext x (some y) = some s₁ ∧
        s₁.setPrev y (some x) = some s₂ ∧
        Chained s₂ (l₁ ++ x :: y :: l₂) ∧
        SameNodes s s₂ := by
  have hX := h.alloc x (by simp)
  have hY := h.alloc y (by simp)
  rcases exists_setNext hX (some y) with
    ⟨s₁, hSet₁, hNx₁, hPv₁, hSame₁, hHead₁, hTail₁⟩
  rcases exists_setPrev ((hSame₁.isSome_iff y).mpr hY)
      (some x) with
    ⟨s₂, hSet₂, hNx₂, hPv₂, hSame₂, hHead₂, hTail₂⟩
  have hSame := hSame₁.trans hSame₂
  have hBetween :
      Chained s ((l₁ ++ [x]) ++ timer :: y :: l₂) := by
    simpa using h
  have hMiddle := hBetween.seg.middle
  have hPrev : s.pv timer = some x := by
    rw [hMiddle.1]
    simp
  have hNext : s.nx timer = some y := by
    rw [hMiddle.2]
    simp
  refine ⟨s₁, s₂, hSet₁, hSet₂, ?_, hSame⟩
  have hLeft :
      Chained s₂ ((l₁ ++ [x]) ++ y :: l₂) := by
    apply hBetween.remainder
    · rw [hHead₂, hHead₁, h.head_eq]
      cases l₁ <;> simp
    · intro _
      rw [hTail₂, hTail₁, h.tail_eq (by simp)]
      simp [List.getLast?_append, List.getLast?_cons_cons]
    · rw [hNx₂, hPv₂, hNx₁, hPv₁]
      have hUnlink := h.seg.unlink h.nodup
      rw [hNext, hPrev] at hUnlink
      simpa using hUnlink
    · intro a _ ha
      exact (hSame.isSome_iff a).mpr ha
    · exact hSame.allocations_eq
  simpa using hLeft

/-
  Adjusting moves a timer to its place among the timers that
  followed it.
-/
theorem Chained.adjustTimer
    {s : SortTimerLst}
    {l₁ l₂ : List Addr}
    {timer : Addr}
    (h : Chained s (l₁ ++ timer :: l₂)) :
    ∃ s', s.adjustTimer timer = some s' ∧
      Chained s' (l₁ ++ s.place timer l₂) ∧
      SameNodes s s' := by
  have hTimer := h.alloc timer (by simp)
  rcases exists_node hTimer with
    ⟨node, hNode, hNext, hPrev, hExpire, _⟩
  have hMiddle := h.seg.middle
  have hSize := h.size
  cases l₂ with
  | nil =>
      have hNull : node.next = none := by
        rw [hNext, hMiddle.2]
        simp
      exact
        ⟨s, by simp [SortTimerLst.adjustTimer, hNode, hNull],
          by simpa using h, SameNodes.refl s⟩
  | cons tmp l₂ =>
      have hTmp := h.alloc tmp (by simp)
      rcases exists_node hTmp with
        ⟨other, hOther, _, _, hExpireTmp, _⟩
      have hNextTmp : node.next = some tmp := by
        rw [hNext, hMiddle.2]
        simp
      have hNotIn :
          timer ∉ l₁ ++ tmp :: l₂ :=
        (List.nodup_cons.mp
          (List.perm_middle.nodup_iff.mp h.nodup)).1
      by_cases hLt : s.expireAt timer < s.expireAt tmp
      · refine ⟨s, ?_, ?_, SameNodes.refl s⟩
        · simp [SortTimerLst.adjustTimer, hNode, hNextTmp,
            hOther, hExpire, hExpireTmp, hLt]
        · rw [place_cons, if_pos hLt]
          exact h
      · rw [place_cons, if_neg hLt]
        rcases List.eq_nil_or_concat' l₁ with
          rfl | ⟨l₀, x, rfl⟩
        · -- the timer is the head node
          have hHead : s.head = some timer := h.head_eq
          rcases h.dropHead with
            ⟨s₁, hSet, hChained', hSame, _⟩
          have hChained : Chained s₁ ([] ++ tmp :: l₂) :=
            hChained'
          rcases addTimerFrom_spec hChained
              ((hSame.isSome_iff timer).mpr hTimer) hNotIn
              (by
                rw [hSame.allocations_eq]
                simpa using hSize) with
            ⟨s', hRun, hResult, hSame'⟩
          refine ⟨s', ?_, ?_, hSame.trans hSame'⟩
          · simp [SortTimerLst.adjustTimer, hNode, hNextTmp,
              hOther, hExpire, hExpireTmp, hLt, hHead, hSet,
              hRun]
          · simpa [hSame.place_eq] using hResult
        · -- the timer has a node before it
          have hPrevX : node.prev = some x := by
            rw [hPrev, hMiddle.1]
            simp
          have hBetween :
              Chained s (l₀ ++ x :: timer :: tmp :: l₂) := by
            simpa using h
          have hNotHead : s.head ≠ some timer :=
            hBetween.head_ne
          rcases hBetween.unlink with
            ⟨s₁, s₂, hSet₁, hSet₂, hLeft, hSame⟩
          have hChained :
              Chained s₂ ((l₀ ++ [x]) ++ tmp :: l₂) := by
            simpa using hLeft
          rcases addTimerFrom_spec hChained
              ((hSame.isSome_iff timer).mpr hTimer) hNotIn
              (by
                rw [hSame.allocations_eq]
                simp at hSize ⊢
                omega) with
            ⟨s', hRun, hResult, hSame'⟩
          refine ⟨s', ?_, ?_, hSame.trans hSame'⟩
          · simp [SortTimerLst.adjustTimer, hNode, hNextTmp,
              hOther, hExpire, hExpireTmp, hLt, hNotHead,
              hPrevX, hSet₁, hSet₂, hRun]
          · simpa [hSame.place_eq] using hResult

end SortTimerLst

end V2

end WebServer

------------------------------------------------------------
-- Deleting
------------------------------------------------------------

namespace WebServer

namespace V2

namespace SortTimerLst

open DoublyLinked

theorem keptNodes_free
    (s : SortTimerLst)
    (a : Addr) :
    KeptNodes [a] s (s.free a) := by
  refine ⟨rfl, ?_⟩
  intro b hb
  have hNe : b ≠ a := by simpa using hb
  rw [free_heap_of_ne s hNe]

/- Freeing a node that is not in a chained list. -/
theorem Chained.free
    {s : SortTimerLst}
    {l : List Addr}
    {a : Addr}
    (h : Chained s l)
    (hNotIn : a ∉ l) :
    Chained (s.free a) l := by
  have hNe : ∀ b ∈ l, b ≠ a := by
    rintro b hb rfl
    exact hNotIn hb
  refine
    { head_eq := h.head_eq
      tail_eq := h.tail_eq
      seg := ?_
      nodup := h.nodup
      alloc := ?_
      size := h.size }
  · exact h.seg.congr
      (fun b hb => free_nx_of_ne s (hNe b hb))
      (fun b hb => free_pv_of_ne s (hNe b hb))
  · intro b hb
    rw [free_heap_of_ne s (hNe b hb)]
    exact h.alloc b hb

/-
  Deleting takes exactly one timer out of the list. When it
  was the only one, both ends become null.
-/
theorem Chained.delTimer
    {s : SortTimerLst}
    {l₁ l₂ : List Addr}
    {timer : Addr}
    (h : Chained s (l₁ ++ timer :: l₂)) :
    ∃ s', s.delTimer timer = some s' ∧
      Chained s' (l₁ ++ l₂) ∧
      KeptNodes [timer] s s' ∧
      (l₁ ++ l₂ = [] → s'.tail = none) := by
  have hTimer := h.alloc timer (by simp)
  rcases exists_node hTimer with
    ⟨node, hNode, hNext, hPrev, _, _⟩
  have hMiddle := h.seg.middle
  have hNotIn : timer ∉ l₁ ++ l₂ :=
    (List.nodup_cons.mp
      (List.perm_middle.nodup_iff.mp h.nodup)).1
  rcases List.eq_nil_or_concat' l₁ with rfl | ⟨l₀, x, rfl⟩
  · have hHead : s.head = some timer := h.head_eq
    cases l₂ with
    | nil =>
        -- the only node
        have hTail : s.tail = some timer :=
          h.tail_eq (by simp)
        have hKept := keptNodes_free s timer
        refine
          ⟨{ s.free timer with head := none, tail := none },
            by simp [SortTimerLst.delTimer, hHead, hTail],
            ?_, ⟨hKept.1, hKept.2⟩, fun _ => rfl⟩
        exact
          { head_eq := rfl
            tail_eq := fun hNe => (hNe rfl).elim
            seg := trivial
            nodup := List.nodup_nil
            alloc := by simp
            size := by simp }
    | cons y l₂ =>
        -- the head of a longer list
        have hNextY : node.next = some y := by
          rw [hNext, hMiddle.2]
          simp
        have hNotTail : s.tail ≠ some timer := h.tail_ne
        rcases h.dropHead with
          ⟨s₁, hSet, hChained, hSame, _⟩
        refine
          ⟨s₁.free timer, ?_, hChained.free hNotIn,
            KeptNodes.trans hSame (keptNodes_free s₁ timer),
            by simp⟩
        simp [SortTimerLst.delTimer, hHead, hNotTail, hNode,
          hNextY, hSet]
  · have hNotHead : s.head ≠ some timer := by
      apply @Chained.head_ne _ l₀ l₂ x timer
      simpa using h
    have hPrevX : node.prev = some x := by
      rw [hPrev, hMiddle.1]
      simp
    have hX := h.alloc x (by simp)
    cases l₂ with
    | nil =>
        -- the tail of a longer list
        have hTail : s.tail = some timer := by
          rw [h.tail_eq (by simp)]
          simp
        have hXSet : (({ s with tail := some x } :
            SortTimerLst).heap x).isSome := hX
        rcases exists_setNext hXSet none with
          ⟨s₁, hSet, hNx₁, hPv₁, hSame₁, hHead₁, hTail₁⟩
        have hSame : SameNodes s s₁ := ⟨hSame₁.1, hSame₁.2⟩
        have hChained : Chained s₁ ((l₀ ++ [x]) ++ []) := by
          apply h.remainder
          · rw [hHead₁, h.head_eq]
            cases l₀ <;> simp
          · intro _
            rw [hTail₁]
            simp
          · rw [hNx₁, hPv₁]
            have hSeg :
                Seg s.nx s.pv none (l₀ ++ [x, timer])
                  none := by
              simpa using h.seg
            have hDrop :=
              hSeg.dropLast (by simpa using h.nodup) none
            rw [List.append_nil]
            exact hDrop
          · intro a _ ha
            exact (hSame.isSome_iff a).mpr ha
          · exact hSame.allocations_eq
        refine
          ⟨s₁.free timer, ?_, hChained.free hNotIn,
            KeptNodes.trans hSame (keptNodes_free s₁ timer),
            by simp⟩
        simp [SortTimerLst.delTimer, hNotHead, hTail, hNode,
          hPrevX, hSet]
    | cons y l₂ =>
        -- a node with neighbours on both sides
        have hNextY : node.next = some y := by
          rw [hNext, hMiddle.2]
          simp
        have hNotTail : s.tail ≠ some timer := h.tail_ne
        have hBetween :
            Chained s (l₀ ++ x :: timer :: y :: l₂) := by
          simpa using h
        rcases hBetween.unlink with
          ⟨s₁, s₂, hSet₁, hSet₂, hLeft, hSame⟩
        refine
          ⟨s₂, ?_, by simpa using hLeft,
            ⟨hSame.1, fun a _ => hSame.2 a (by simp)⟩,
            by simp⟩
        simp [SortTimerLst.delTimer, hNotHead, hNotTail,
          hNode, hPrevX, hNextY, hSet₁, hSet₂]

end SortTimerLst

end V2

end WebServer

------------------------------------------------------------
-- Firing Expired Timers
------------------------------------------------------------

namespace WebServer

namespace V2

namespace SortTimerLst

open DoublyLinked

/- The timers of a list that `tick` fires at `cur`. -/
def expired
    (s : SortTimerLst)
    (cur : Int)
    (l : List Addr) : List Addr :=
  l.takeWhile fun a => decide (s.expireAt a ≤ cur)

/- The callbacks of some timers, each with its slot. -/
def callbacks
    (s : SortTimerLst)
    (l : List Addr) : List (Addr × Fd) :=
  l.map fun a => (a, s.userDataAt a)

/- The timers of a list that `tick` leaves at `cur`. -/
def remaining
    (s : SortTimerLst)
    (cur : Int)
    (l : List Addr) : List Addr :=
  l.dropWhile fun a => decide (s.expireAt a ≤ cur)

theorem expired_append_remaining
    (s : SortTimerLst)
    (cur : Int)
    (l : List Addr) :
    s.expired cur l ++ s.remaining cur l = l :=
  List.takeWhile_append_dropWhile

/- Expiries decide which timers fire and which remain. -/
theorem expired_remaining_congr
    {s t : SortTimerLst}
    {l : List Addr}
    (cur : Int)
    (hEq : ∀ a ∈ l, t.expireAt a = s.expireAt a) :
    t.expired cur l = s.expired cur l ∧
      t.remaining cur l = s.remaining cur l := by
  induction l with
  | nil => exact ⟨rfl, rfl⟩
  | cons a l ih =>
      have hA := hEq a (by simp)
      rcases ih (fun b hb => hEq b (by simp [hb])) with
        ⟨hTake, hDrop⟩
      unfold expired remaining at *
      by_cases hLe : s.expireAt a ≤ cur
      · simp [hA, hLe, hTake, hDrop]
      · simp [hA, hLe]

theorem remaining_sublist
    (s : SortTimerLst)
    (cur : Int)
    (l : List Addr) :
    (s.remaining cur l).Sublist l :=
  List.dropWhile_sublist _

/- Moving the head on drops the first node of the list. -/
theorem Chained.moveHead
    {s : SortTimerLst}
    {l : List Addr}
    {a : Addr}
    (h : Chained s (a :: l)) :
    ∃ s', s.moveHead l.head? = some s' ∧
      Chained s' l ∧
      SameNodes s s' ∧
      s'.tail = s.tail := by
  cases l with
  | nil =>
      refine
        ⟨{ s with head := none }, rfl, ?_,
          ⟨rfl, fun _ _ => rfl⟩, rfl⟩
      exact
        { head_eq := rfl
          tail_eq := fun hNe => (hNe rfl).elim
          seg := trivial
          nodup := List.nodup_nil
          alloc := by simp
          size := by simp }
  | cons y l =>
      rcases h.dropHead with
        ⟨s', hSet, hChained, hSame, hTail⟩
      exact ⟨s', hSet, hChained, hSame, hTail⟩

/-
  The loop of `tick` fires and frees the expired front of
  the list. `tail` is never written.
-/
theorem tickLoop_spec
    (cur : Int)
    (l : List Addr)
    {s : SortTimerLst}
    {fuel : Nat}
    (h : Chained s l)
    (hFuel : l.length ≤ fuel) :
    ∃ s',
      tickLoop cur fuel s.head s =
        some (s', s.callbacks (s.expired cur l)) ∧
      Chained s' (s.remaining cur l) ∧
      KeptNodes (s.expired cur l) s s' ∧
      s'.tail = s.tail := by
  induction l generalizing s fuel with
  | nil =>
      have hHead : s.head = none := h.head_eq
      refine
        ⟨s, ?_, h, ⟨rfl, fun _ _ => rfl⟩, rfl⟩
      cases fuel <;>
        simp [hHead, tickLoop, expired, callbacks]
  | cons a l ih =>
      have hHead : s.head = some a := h.head_eq
      have hA := h.alloc a (by simp)
      rcases exists_node hA with
        ⟨node, hNode, hNext, _, hExpire, hUser⟩
      have hNextA : node.next = l.head? := by
        rw [hNext, h.seg.2.1]
        simp
      cases fuel with
      | zero => simp at hFuel
      | succ fuel =>
          by_cases hLt : cur < s.expireAt a
          · have hNot : ¬ s.expireAt a ≤ cur := by omega
            refine
              ⟨s, ?_, ?_, ⟨rfl, fun _ _ => rfl⟩, rfl⟩
            · simp [hHead, tickLoop, hNode, hExpire, hLt,
                expired, hNot, callbacks]
            · simpa [remaining, hNot] using h
          · have hLe : s.expireAt a ≤ cur := by omega
            have hNotIn : a ∉ l :=
              (List.nodup_cons.mp h.nodup).1
            rcases h.moveHead with
              ⟨s₁, hMove, hChained₁, hSame, hTail₁⟩
            have hFreed := hChained₁.free hNotIn
            have hKept : KeptNodes [a] s (s₁.free a) :=
              KeptNodes.trans hSame (keptNodes_free s₁ a)
            have hEqOn :
                ∀ b ∈ l,
                  (s₁.free a).expireAt b = s.expireAt b := by
              intro b hb
              apply hKept.expireAt_eq
              rintro hIn
              rw [List.mem_singleton.mp hIn] at hb
              exact hNotIn hb
            rcases ih hFreed (by simpa using hFuel) with
              ⟨s', hRun, hChained', hKept', hTail'⟩
            rcases expired_remaining_congr cur hEqOn with
              ⟨hTake, hDrop⟩
            have hFired :
                (s₁.free a).callbacks (s.expired cur l) =
                  s.callbacks (s.expired cur l) := by
              apply List.map_congr_left
              intro b hb
              apply congrArg (Prod.mk b)
              apply hKept.userDataAt_eq
              rintro hIn
              rw [List.mem_singleton.mp hIn] at hb
              exact
                hNotIn
                  ((List.takeWhile_sublist _).subset hb)
            have hCons :
                s.expired cur (a :: l) =
                  a :: s.expired cur l := by
              simp [expired, hLe]
            have hRest :
                s.remaining cur (a :: l) =
                  s.remaining cur l := by
              simp [remaining, hLe]
            rw [hTake, hFired] at hRun
            rw [hDrop] at hChained'
            rw [hTake] at hKept'
            refine ⟨s', ?_, ?_, ?_, ?_⟩
            · have hHead₁ : s₁.head = (s₁.free a).head := rfl
              rw [hCons, callbacks, List.map_cons, ← hUser]
              simp [tickLoop, hHead, hNode, hExpire, hLt,
                hNextA, hMove, hHead₁, hRun, callbacks]
            · rw [hRest]
              exact hChained'
            · rw [hCons]
              exact KeptNodes.trans hKept hKept'
            · rw [hTail']
              exact hTail₁

/-
  A whole `tick` fires, in list order, the timers in front
  of the first one that has not expired.
-/
theorem Chained.tick
    {s : SortTimerLst}
    {l : List Addr}
    (h : Chained s l)
    (cur : Int) :
    ∃ s',
      s.tick cur =
        some (s', s.callbacks (s.expired cur l)) ∧
      Chained s' (s.remaining cur l) ∧
      KeptNodes (s.expired cur l) s s' ∧
      s'.tail = s.tail :=
  tickLoop_spec cur l h h.size

end SortTimerLst

end V2

end WebServer
