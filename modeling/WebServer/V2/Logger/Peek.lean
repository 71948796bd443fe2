import WebServer.Library.Machine
import WebServer.V2.Logger.BlockQueue

/-
  Peeking at a block queue of version 2.0.

  `front` reads the array where `m_front` points, and that
  is the place the last `pop` emptied. A run is recorded
  with the last item popped since the queue was new or
  cleared: `front` answers it, or, once the ring is full, the
  item that took its place.

  Key definitions include:
    * `queueMachine`
    * `lastPopped`
    * `BlockQueue.FrontAgrees`
    * `BlockQueue.Remembers`

  Key theorems include:
    * `BlockQueue.Remembers.step`
    * `BlockQueue.Remembers.front_eq`
    * `front_agrees_iff`
-/

------------------------------------------------------------
-- Runs Of A Queue
------------------------------------------------------------

namespace WebServer

namespace V2

variable {α : Type}

/-
  The queue as a machine over its operations. A `pop` waits
  until there is an item.
-/
def queueMachine
    (α : Type) : Machine (BlockQueue α) (QueueOp α) where
  enabled q
  | .pop => 0 < q.mSize
  | _ => True
  step q op := (q.step op).map Prod.fst

/- The last item popped since the queue was last emptied. -/
def lastPopped
    (q : BlockQueue α) :
    QueueOp α → Option α → Option α
| .pop, _ => q.items.head?
| .clear, _ => none
| _, last => last

namespace BlockQueue

/-
  `front` finds an item inside the array, and it is the one
  that a `pop` would take next.
-/
def FrontAgrees
    (q : BlockQueue α) : Prop :=
  ∃ x q', q.front = some (some x) ∧ q.pop = some (q', x)

/-
  What `m_front` points at: nothing before the first pop,
  then the item popped last, while the ring has room.
-/
structure Remembers
    (cap : Nat)
    (q : BlockQueue α)
    (last : Option α) : Prop where
  represents : q.Represents cap q.items
  unused : last = none → q.mFront = -1
  used : last ≠ none → 0 ≤ q.mFront
  kept :
    ∀ x,
      last = some x → q.items.length < cap →
        q.mArray q.mFront.toNat = x

end BlockQueue

end V2

end WebServer

------------------------------------------------------------
-- The Place Of The Last Pop
------------------------------------------------------------

namespace WebServer

namespace V2

namespace BlockQueue

variable {α : Type}
variable {cap : Nat}
variable {q : BlockQueue α}
variable {last : Option α}

theorem Represents.self
    {l : List α}
    (h : q.Represents cap l) :
    q.Represents cap q.items := by
  rw [h.items]
  exact h

/- In a ring, the place in front is the last one reached. -/
theorem front_place
    (hPos : 1 ≤ cap)
    {front : Int}
    (hFront : 0 ≤ front ∧ front < cap) :
    ((front + 1).toNat + (cap - 1)) % cap = front.toNat := by
  have hSum :
      (front + 1).toNat + (cap - 1) = front.toNat + cap := by
    omega
  rw [hSum, Nat.add_mod_right]
  exact Nat.mod_eq_of_lt (by omega)

/- A new queue remembers nothing. -/
theorem new_remembers
    (hPos : 1 ≤ cap)
    (hSmall : (cap : Int) < 2 ^ 31)
    {cells : Nat → α}
    (hNew : new cap cells = some q) :
    q.Remembers cap none := by
  rcases new_represents hPos hSmall cells with
    ⟨q', hNew', hInit⟩
  rcases Option.some.inj (hNew.symm.trans hNew') with rfl
  have hNot : ¬ (cap : Int) ≤ 0 := by omega
  unfold new at hNew
  rw [if_neg hNot] at hNew
  refine
    { represents := hInit.self
      unused := ?_
      used := fun h => absurd rfl h
      kept := fun x hNone => by cases hNone }
  intro _
  rw [← Option.some.inj hNew]

/- A push with room writes to a place that is not in front. -/
theorem Remembers.push
    (h : q.Remembers cap last)
    (hRoom : q.items.length < cap)
    (item : α) :
    ∃ q',
      q.push item = some (q', true) ∧
        q'.Remembers cap last := by
  have hRep := h.represents
  rcases hRep.push hRoom item with ⟨q', hPush, hNext⟩
  have hNot : ¬ q.mSize ≥ q.mMaxSize := by
    rw [hRep.size, hRep.maxSize]
    omega
  have hInside := hRep.inside (q.mBack + 1).toNat
  have hRun := hPush
  unfold BlockQueue.push at hRun
  rw [if_neg hNot, hRep.next_eq hRep.back] at hRun
  simp only [Option.bind_eq_bind, Option.bind_some,
    BlockQueue.write, if_pos hInside] at hRun
  rcases Option.bind_eq_some_iff.mp hRun with
    ⟨mSize, _, hEq⟩
  rcases Prod.mk.inj (Option.some.inj hEq) with ⟨hIs, _⟩
  have hFront : q'.mFront = q.mFront := by rw [← hIs]
  have hArray :
      q'.mArray =
        Function.update q.mArray
          ((q.mBack + 1).toNat % cap) item := by
    rw [← hIs]
    rfl
  refine ⟨q', hPush, ?_⟩
  refine
    { represents := hNext.self
      unused := fun hNone => hFront.trans (h.unused hNone)
      used := fun hSome => hFront ▸ h.used hSome
      kept := ?_ }
  intro x hLast hStill
  rw [hNext.items, List.length_append,
    List.length_singleton] at hStill
  have hIn : 0 ≤ q.mFront ∧ q.mFront < cap :=
    ⟨h.used (by rw [hLast]; simp), hRep.front.2⟩
  have hOther :
      q.mFront.toNat ≠ (q.mBack + 1).toNat % cap := by
    rw [hRep.next, ← front_place hRep.cap_pos hIn]
    apply Ne.symm
    apply ring_place_ne
    · omega
    · omega
  rw [hFront, hArray, Function.update_of_ne hOther]
  exact h.kept x hLast hRoom

/- A pop leaves `m_front` at the item it took. -/
theorem Remembers.pop
    (h : q.Remembers cap last)
    (hHeld : q.items ≠ []) :
    ∃ q' x,
      q.pop = some (q', x) ∧
        q.items.head? = some x ∧
        q'.Remembers cap (some x) := by
  have hRep := h.represents
  rcases List.exists_cons_of_ne_nil hHeld with
    ⟨x, rest, hItems⟩
  rw [hItems] at hRep
  rcases hRep.pop with ⟨q', hPop, hNext⟩
  have hRun := hPop
  unfold BlockQueue.pop at hRun
  rw [hRep.next_eq hRep.front] at hRun
  simp only [Option.bind_eq_bind, Option.bind_some]
    at hRun
  rcases Option.bind_eq_some_iff.mp hRun with
    ⟨item, hRead, hSub⟩
  rcases Option.bind_eq_some_iff.mp hSub with
    ⟨mSize, _, hEq⟩
  rcases Prod.mk.inj (Option.some.inj hEq) with ⟨hIs, hItem⟩
  unfold BlockQueue.read at hRead
  rw [if_pos (hRep.inside _)] at hRead
  have hCell := Option.some.inj hRead
  refine ⟨q', x, hPop, by rw [hItems]; rfl, ?_⟩
  refine
    { represents := hNext.self
      unused := fun hNone => by cases hNone
      used := ?_
      kept := ?_ }
  · intro _
    rw [← hIs]
    exact Int.natCast_nonneg _
  · intro y hLast _
    rw [← Option.some.inj hLast, ← hItem, ← hIs]
    exact hCell

theorem Remembers.clear
    (h : q.Remembers cap last) :
    q.clear.Remembers cap none where
  represents := h.represents.clear.self
  unused := fun _ => rfl
  used := fun hNot => absurd rfl hNot
  kept := fun x hNone => by cases hNone

/- A queue with an item in it, by its size. -/
theorem Remembers.items_ne_nil
    (h : q.Remembers cap last)
    (hSize : 0 < q.mSize) :
    q.items ≠ [] := by
  intro hNil
  have hEq := h.represents.size
  rw [hNil] at hEq
  simp only [List.length_nil] at hEq
  omega

/- Every operation keeps the record true. -/
theorem Remembers.step
    {q' : BlockQueue α}
    {op : QueueOp α}
    (h : q.Remembers cap last)
    (hEnabled : (queueMachine α).enabled q op)
    (hStep : (queueMachine α).step q op = some q') :
    q'.Remembers cap (lastPopped q op last) := by
  rcases Option.map_eq_some_iff.mp hStep with
    ⟨⟨q₁, reply⟩, hOp, rfl⟩
  cases op with
  | push item =>
      rcases Option.bind_eq_some_iff.mp hOp with
        ⟨⟨q₂, stored⟩, hPush, hEq⟩
      cases hEq
      by_cases hRoom : q.items.length < cap
      · rcases h.push hRoom item with ⟨q₃, hPush', hNext⟩
        cases hPush.symm.trans hPush'
        exact hNext
      · have hFull :=
          h.represents.push_full (Nat.not_lt.mp hRoom) item
        cases hPush.symm.trans hFull
        exact h
  | pop =>
      rcases Option.bind_eq_some_iff.mp hOp with
        ⟨⟨q₂, item⟩, hPop, hEq⟩
      cases hEq
      rcases h.pop (h.items_ne_nil hEnabled) with
        ⟨q₃, x, hPop', hHead, hNext⟩
      cases hPop.symm.trans hPop'
      unfold lastPopped
      rw [hHead]
      exact hNext
  | clear =>
      cases hOp
      exact h.clear
  | size | full | empty =>
      cases hOp
      exact h
  | back =>
      rcases Option.bind_eq_some_iff.mp hOp with
        ⟨value, _, hEq⟩
      cases hEq
      exact h

end BlockQueue

end V2

end WebServer

------------------------------------------------------------
-- What `front` Answers
------------------------------------------------------------

namespace WebServer

namespace V2

variable {α : Type}
variable {cap : Nat}

namespace BlockQueue

variable {q : BlockQueue α}
variable {last : Option α}

/-
  Before the first pop `front` leaves the array. After it,
  `front` reads the item popped last or, in a full ring, the
  newest one.
-/
theorem Remembers.front_eq
    (h : q.Remembers cap last)
    (hSize : 0 < q.mSize) :
    q.front =
      last.bind fun x =>
        if q.items.length < cap then
          some (some x)
        else
          some q.items.getLast? := by
  have hRep := h.represents
  have hNot : ¬ 0 = q.mSize := by omega
  unfold BlockQueue.front BlockQueue.read
  rw [if_neg hNot]
  cases hLast : last with
  | none =>
      have hOut :
          ¬ (0 ≤ q.mFront ∧ q.mFront < q.mMaxSize) := by
        rw [h.unused hLast]
        omega
      rw [if_neg hOut]
      rfl
  | some x =>
      have hIn : 0 ≤ q.mFront ∧ q.mFront < cap :=
        ⟨h.used (by rw [hLast]; simp), hRep.front.2⟩
      have hInside :
          0 ≤ q.mFront ∧ q.mFront < q.mMaxSize := by
        rw [hRep.maxSize]
        exact hIn
      rw [if_pos hInside]
      simp only [Option.bind_eq_bind, Option.bind_some]
      by_cases hRoom : q.items.length < cap
      · rw [if_pos hRoom, h.kept x hLast hRoom]
      · have hFits := hRep.fits
        have hPos := hRep.cap_pos
        have hLen : q.items.length = cap - 1 + 1 := by omega
        have hNewest :=
          ringItems_getLast q.mArray cap
            (q.mFront + 1).toNat (cap - 1)
        rw [front_place hPos hIn, ← hLen, hRep.items_eq]
          at hNewest
        rw [if_neg hRoom, hNewest]

end BlockQueue

open BlockQueue in
/-
  In every state with an item, `front` and a following `pop`
  give the same item exactly when something was popped since
  the queue was last emptied and the oldest item equals the
  one popped last or, in a full ring, the newest one.
-/
theorem front_agrees_iff
    (hPos : 1 ≤ cap)
    (hSmall : (cap : Int) < 2 ^ 31)
    (cells : Nat → α)
    {q₀ q : BlockQueue α}
    {ops : List (QueueOp α)}
    {last : Option α}
    (hNew : BlockQueue.new cap cells = some q₀)
    (hReach :
      ((queueMachine α).recording lastPopped).Reaches
        (q₀, none) ops (q, last))
    (hSize : 0 < q.mSize) :
    q.FrontAgrees ↔
      ∃ x,
        last = some x ∧
          q.items.head? =
            if q.full then q.items.getLast? else some x := by
  have hKept : q.Remembers cap last :=
    hReach.invariant
      (I := fun r => r.1.Remembers cap r.2)
      (fun r op r' hInv hEnabled hStep => by
        rcases Option.map_eq_some_iff.mp hStep with
          ⟨q', hNext, rfl⟩
        exact hInv.step hEnabled hNext)
      (new_remembers hPos hSmall hNew)
  have hFull :
      q.full = decide (¬ q.items.length < cap) := by
    rw [hKept.represents.full_eq]
    simp
  rcases hKept.pop (hKept.items_ne_nil hSize) with
    ⟨q', x, hPop, hHead, _⟩
  unfold FrontAgrees
  rw [hKept.front_eq hSize, hFull, hHead]
  constructor
  · rintro ⟨y, q₁, hFront, hPop'⟩
    cases hPop.symm.trans hPop'
    cases last with
    | none => cases hFront
    | some z =>
        refine ⟨z, rfl, ?_⟩
        rw [Option.bind_some] at hFront
        by_cases hRoom : q.items.length < cap
        · rw [if_pos hRoom] at hFront
          simpa [hRoom] using (Option.some.inj hFront).symm
        · rw [if_neg hRoom] at hFront
          simpa [hRoom] using (Option.some.inj hFront).symm
  · rintro ⟨z, rfl, hOldest⟩
    refine ⟨x, q', ?_, hPop⟩
    rw [Option.bind_some]
    by_cases hRoom : q.items.length < cap
    · rw [if_pos hRoom]
      simp only [hRoom, not_true_eq_false, decide_false]
        at hOldest
      rw [hOldest]
      rfl
    · rw [if_neg hRoom]
      simp only [hRoom, not_false_eq_true, decide_true]
        at hOldest
      rw [hOldest]
      rfl

/- A queue of one place, as it is filled. -/
def singlePlace
    (size back : Int)
    (cells : Nat → Nat) : BlockQueue Nat where
  mArray := cells
  mSize := size
  mMaxSize := 1
  mFront := -1
  mBack := back

/- In a ring of one place the newest item is in front. -/
theorem front_agrees_iff_one_place :
    let q :=
      { singlePlace 1 0
          (Function.update (Function.update (fun _ => 0) 0 7)
            0 9) with
        mFront := 0 }
    q.FrontAgrees ↔
      ∃ x,
        some 7 = some x ∧
          q.items.head? =
            if q.full then q.items.getLast? else some x :=
  @front_agrees_iff Nat 1 (by decide) (by decide)
    (fun _ => 0) (singlePlace 0 (-1) (fun _ => 0)) _
    [.push 7, .pop, .push 9] (some 7) rfl
    (.cons trivial rfl
      (.cons Int.zero_lt_one rfl
        (.cons trivial rfl (.nil _))))
    (by decide)

/- Before the first pop `front` reads index -1. -/
theorem front_before_first_pop :
    ∃ q₀ q : BlockQueue Nat,
      BlockQueue.new (1 : Nat) (fun _ => 0) = some q₀ ∧
        (queueMachine Nat).Reaches q₀ [.push 7] q ∧
        0 < q.mSize ∧
        ¬ q.FrontAgrees := by
  refine
    ⟨singlePlace 0 (-1) (fun _ => 0),
      singlePlace 1 0 (Function.update (fun _ => 0) 0 7), rfl,
      .cons trivial rfl (.nil _), by decide, ?_⟩
  rintro ⟨x, q', hFront, _⟩
  cases hFront

end V2

end WebServer
