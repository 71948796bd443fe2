import WebServer.Common
import WebServer.Library.RingBuffer

/-
  The blocking queue of the version 2.0 logger
  (`logger/block_queue.h`).

  Each operation runs under the queue's mutex and is one
  step. Indices and counts are `int`; an access outside the
  array or an `int` overflow has no result. A successful
  `push` ends without a `return`, so its result is not
  specified.

  Key definitions include:
    * `BlockQueue`
    * `BlockQueue.push`
    * `BlockQueue.pop`
    * `BlockQueue.items`
    * `BoundedFifo`
    * `BlockQueue.Represents`

  Key theorems include:
    * `BlockQueue.Represents.step`
    * `blockQueue_refines`
-/

------------------------------------------------------------
-- The Queue
------------------------------------------------------------

namespace WebServer

namespace V2

variable {α : Type}

/- The members, without the mutex and the condition. -/
structure BlockQueue (α : Type) where
  mArray : Nat → α
  mSize : Int
  mMaxSize : Int
  mFront : Int
  mBack : Int

namespace BlockQueue

/-
  The constructor. It ends the process for a size that is
  not positive; `cells` is what the new array holds.
-/
def new
    (maxSize : Int)
    (cells : Nat → α) : Option (BlockQueue α) :=
  if maxSize ≤ 0 then
    none
  else
    some
      { mArray := cells
        mSize := 0
        mMaxSize := maxSize
        mFront := -1
        mBack := -1 }

/- `m_array[index]`, inside the array only. -/
def read
    (q : BlockQueue α)
    (index : Int) : Option α :=
  if 0 ≤ index ∧ index < q.mMaxSize then
    some (q.mArray index.toNat)
  else
    none

/- `m_array[index] = item`, inside the array only. -/
def write
    (q : BlockQueue α)
    (index : Int)
    (item : α) : Option (BlockQueue α) :=
  if 0 ≤ index ∧ index < q.mMaxSize then
    some
      { q with
        mArray := Function.update q.mArray index.toNat item }
  else
    none

/- `(index + 1) % m_max_size`. -/
def next
    (q : BlockQueue α)
    (index : Int) : Option Int := do
  let sum ← addInt32 index 1
  some (sum.tmod q.mMaxSize)

/- `clear()`. -/
def clear
    (q : BlockQueue α) : BlockQueue α :=
  { q with
    mSize := 0
    mFront := -1
    mBack := -1 }

/- `full()`. -/
def full
    (q : BlockQueue α) : Bool :=
  decide (q.mSize ≥ q.mMaxSize)

/- `empty()`. -/
def empty
    (q : BlockQueue α) : Bool :=
  decide (0 = q.mSize)

/-
  `front(value)`: the value, if there is one. It reads the
  place that the last `pop` left.
-/
def front
    (q : BlockQueue α) : Option (Option α) :=
  if 0 = q.mSize then
    some none
  else do
    let value ← q.read q.mFront
    some (some value)

/- `back(value)`: the value, if there is one. -/
def back
    (q : BlockQueue α) : Option (Option α) :=
  if 0 = q.mSize then
    some none
  else do
    let value ← q.read q.mBack
    some (some value)

/- `push(item)`: whether the item was stored. -/
def push
    (q : BlockQueue α)
    (item : α) : Option (BlockQueue α × Bool) :=
  if q.mSize ≥ q.mMaxSize then
    some (q, false)
  else do
    let mBack ← q.next q.mBack
    let q ← { q with mBack := mBack }.write mBack item
    let mSize ← addInt32 q.mSize 1
    some ({ q with mSize := mSize }, true)

/-
  `pop(item)`, from where the wait for an item is over.
-/
def pop
    (q : BlockQueue α) : Option (BlockQueue α × α) := do
  let mFront ← q.next q.mFront
  let q := { q with mFront := mFront }
  let item ← q.read mFront
  let mSize ← subInt32 q.mSize 1
  some ({ q with mSize := mSize }, item)

/- What the queue holds, oldest first. -/
def items
    (q : BlockQueue α) : List α :=
  ringItems q.mArray q.mMaxSize.toNat (q.mFront + 1).toNat
    q.mSize.toNat

end BlockQueue

end V2

end WebServer

------------------------------------------------------------
-- Operations And Their Results
------------------------------------------------------------

namespace WebServer

namespace V2

variable {α : Type}

inductive QueueOp (α : Type)
| push (item : α)
| pop
| clear
| size
| full
| empty
| back

/- What an operation answers. -/
inductive QueueReply (α : Type)
| done
| item (value : Option α)
| count (n : Int)
| flag (b : Bool)

/- A list of at most `cap` items. -/
structure BoundedFifo (α : Type) (cap : Nat) where
  items : List α
  fits : items.length ≤ cap

namespace BoundedFifo

variable {cap : Nat}

def new : BoundedFifo α cap where
  items := []
  fits := Nat.zero_le cap

/- Append an item, unless the list is full. -/
def push
    (l : BoundedFifo α cap)
    (item : α) : BoundedFifo α cap :=
  if hRoom : l.items.length < cap then
    { items := l.items ++ [item]
      fits := by
        rw [List.length_append]
        exact hRoom }
  else
    l

/- Take the oldest item, if there is one. -/
def pop :
    BoundedFifo α cap → Option (BoundedFifo α cap × α)
| ⟨[], _⟩ => none
| ⟨x :: rest, hFits⟩ =>
    some (⟨rest, Nat.le_of_succ_le hFits⟩, x)

theorem items_of_pop
    {l l' : BoundedFifo α cap}
    {x : α}
    (h : l.pop = some (l', x)) :
    l.items = x :: l'.items := by
  rcases l with ⟨items, hFits⟩
  cases items with
  | nil => cases h
  | cons y rest =>
      cases h
      rfl

/-
  One operation on the list. A `pop` of an empty list has
  no answer: it blocks.
-/
def step
    (l : BoundedFifo α cap) :
    QueueOp α → Option (BoundedFifo α cap × QueueReply α)
| .push item => some (l.push item, .done)
| .pop => do
    let (l, x) ← l.pop
    some (l, .item (some x))
| .clear => some (new, .done)
| .size => some (l, .count l.items.length)
| .full => some (l, .flag (decide (cap ≤ l.items.length)))
| .empty => some (l, .flag l.items.isEmpty)
| .back => some (l, .item l.items.getLast?)

/- Operations one after another. -/
def run
    (l : BoundedFifo α cap) :
    List (QueueOp α) →
      Option (BoundedFifo α cap × List (QueueReply α))
| [] => some (l, [])
| op :: ops => do
    let (l, reply) ← l.step op
    let (l, replies) ← l.run ops
    some (l, reply :: replies)

end BoundedFifo

namespace BlockQueue

/- One operation of the queue. -/
def step
    (q : BlockQueue α) :
    QueueOp α → Option (BlockQueue α × QueueReply α)
| .push item => do
    let (q, _) ← q.push item
    some (q, .done)
| .pop => do
    let (q, item) ← q.pop
    some (q, .item (some item))
| .clear => some (q.clear, .done)
| .size => some (q, .count q.mSize)
| .full => some (q, .flag q.full)
| .empty => some (q, .flag q.empty)
| .back => do
    let value ← q.back
    some (q, .item value)

/- Operations one after another. -/
def run
    (q : BlockQueue α) :
    List (QueueOp α) →
      Option (BlockQueue α × List (QueueReply α))
| [] => some (q, [])
| op :: ops => do
    let (q, reply) ← q.step op
    let (q, replies) ← q.run ops
    some (q, reply :: replies)

end BlockQueue

end V2

end WebServer

------------------------------------------------------------
-- Representation
------------------------------------------------------------

namespace WebServer

namespace V2

variable {α : Type}

namespace BlockQueue

/-
  A queue whose members stand for a list. `front` is the
  place of the oldest item, and the next `push` goes to the
  place behind the newest one.
-/
structure Represents
    (q : BlockQueue α)
    (cap : Nat)
    (l : List α) : Prop where
  cap_pos : 1 ≤ cap
  cap_small : (cap : Int) < 2 ^ 31
  maxSize : q.mMaxSize = cap
  size : q.mSize = l.length
  fits : l.length ≤ cap
  front : -1 ≤ q.mFront ∧ q.mFront < cap
  back : -1 ≤ q.mBack ∧ q.mBack < cap
  next :
    (q.mBack + 1).toNat % cap =
      ((q.mFront + 1).toNat + l.length) % cap
  last :
    l ≠ [] →
      q.mBack.toNat =
          ((q.mFront + 1).toNat + (l.length - 1)) % cap ∧
        0 ≤ q.mBack
  items : q.items = l

variable {q : BlockQueue α}
variable {cap : Nat}
variable {l : List α}

/- A new queue is empty. -/
theorem new_represents
    (hPos : 1 ≤ cap)
    (hSmall : (cap : Int) < 2 ^ 31)
    (cells : Nat → α) :
    ∃ q, new cap cells = some q ∧ q.Represents cap [] := by
  have hNot : ¬ (cap : Int) ≤ 0 := by omega
  have hBound : (-1 : Int) < cap := by omega
  refine ⟨_, if_neg hNot, ?_⟩
  exact
    { cap_pos := hPos
      cap_small := hSmall
      maxSize := rfl
      size := rfl
      fits := Nat.zero_le cap
      front := ⟨Int.le_refl _, hBound⟩
      back := ⟨Int.le_refl _, hBound⟩
      next := rfl
      last := fun h => absurd rfl h
      items := rfl }

theorem Represents.clear
    (h : q.Represents cap l) :
    q.clear.Represents cap [] := by
  have hPos := h.cap_pos
  have hBound : (-1 : Int) < cap := by omega
  exact
    { cap_pos := hPos
      cap_small := h.cap_small
      maxSize := h.maxSize
      size := rfl
      fits := Nat.zero_le cap
      front := ⟨Int.le_refl _, hBound⟩
      back := ⟨Int.le_refl _, hBound⟩
      next := rfl
      last := fun hNot => absurd rfl hNot
      items := rfl }

/- Advancing an index never overflows and stays inside. -/
theorem Represents.next_eq
    (h : q.Represents cap l)
    {index : Int}
    (hIndex : -1 ≤ index ∧ index < cap) :
    q.next index =
      some (((index + 1).toNat % cap : Nat) : Int) := by
  have hSmall := h.cap_small
  have hSum : IsInt32 (index + 1) :=
    ⟨by omega, by omega⟩
  unfold BlockQueue.next
  rw [addInt32_of_isInt32 hSum, h.maxSize]
  have hNonneg : 0 ≤ index + 1 := by omega
  obtain ⟨n, hN⟩ := Int.eq_ofNat_of_zero_le hNonneg
  simp only [Option.bind_eq_bind, Option.bind_some, hN]
  rfl

/- A place of the ring lies inside the array. -/
theorem Represents.inside
    (h : q.Represents cap l)
    (place : Nat) :
    (0 : Int) ≤ ((place % cap : Nat) : Int) ∧
      ((place % cap : Nat) : Int) < q.mMaxSize := by
  have hPos := h.cap_pos
  have hLt := Nat.mod_lt place (Nat.lt_of_lt_of_le
    Nat.zero_lt_one hPos)
  rw [h.maxSize]
  omega

theorem Represents.items_eq
    (h : q.Represents cap l) :
    ringItems q.mArray cap (q.mFront + 1).toNat l.length =
      l := by
  have hItems := h.items
  unfold BlockQueue.items at hItems
  rw [h.maxSize, h.size] at hItems
  exact hItems

theorem Represents.full_eq
    (h : q.Represents cap l) :
    q.full = decide (cap ≤ l.length) := by
  unfold BlockQueue.full
  rw [h.size, h.maxSize]
  simp

theorem Represents.empty_eq
    (h : q.Represents cap l) :
    q.empty = l.isEmpty := by
  unfold BlockQueue.empty
  rw [h.size]
  cases l with
  | nil => rfl
  | cons x l => simp; omega

/- A full queue is left as it is. -/
theorem Represents.push_full
    (h : q.Represents cap l)
    (hFull : cap ≤ l.length)
    (item : α) :
    q.push item = some (q, false) := by
  have hSize : q.mSize ≥ q.mMaxSize := by
    rw [h.size, h.maxSize]
    exact_mod_cast hFull
  unfold BlockQueue.push
  rw [if_pos hSize]

/- `push` stores its item behind the newest one. -/
theorem Represents.push
    (h : q.Represents cap l)
    (hRoom : l.length < cap)
    (item : α) :
    ∃ q',
      q.push item = some (q', true) ∧
        q'.Represents cap (l ++ [item]) := by
  have hSmall := h.cap_small
  have hNot : ¬ q.mSize ≥ q.mMaxSize := by
    rw [h.size, h.maxSize]
    omega
  have hInside := h.inside (q.mBack + 1).toNat
  have hSum : IsInt32 (q.mSize + 1) := by
    rw [h.size]
    exact ⟨by omega, by omega⟩
  unfold BlockQueue.push
  rw [if_neg hNot, h.next_eq h.back]
  simp only [Option.bind_eq_bind, Option.bind_some,
    BlockQueue.write, if_pos hInside,
    addInt32_of_isInt32 hSum]
  refine ⟨_, rfl, ?_⟩
  have hPlace := h.next
  have hMod :=
    Nat.mod_lt (q.mBack + 1).toNat (Nat.lt_of_lt_of_le
      Nat.zero_lt_one h.cap_pos)
  refine
    { cap_pos := h.cap_pos
      cap_small := h.cap_small
      maxSize := h.maxSize
      size := ?_
      fits := ?_
      front := h.front
      back := ⟨by simp only; omega, by simp only; omega⟩
      next := ?_
      last := ?_
      items := ?_ }
  · simp only [List.length_append, List.length_singleton]
    rw [h.size]
    omega
  · rw [List.length_append]
    exact hRoom
  · simp only [List.length_append, List.length_singleton]
    have hNat :
        ((((q.mBack + 1).toNat % cap : Nat) : Int) +
            1).toNat =
          (q.mBack + 1).toNat % cap + 1 := by
      omega
    rw [hNat, hPlace, Nat.mod_add_mod, Nat.add_assoc]
  · intro _
    simp only [List.length_append, List.length_singleton,
      Nat.add_sub_cancel]
    exact ⟨by rw [Int.toNat_natCast]; exact hPlace, by omega⟩
  · unfold BlockQueue.items
    simp only [h.maxSize, h.size, Int.toNat_natCast]
    rw [show ((l.length : Int) + 1).toNat = l.length + 1 by
      omega, hPlace, ringItems_push hRoom, h.items_eq]

/- `pop` takes the oldest item. -/
theorem Represents.pop
    {x : α}
    (h : q.Represents cap (x :: l)) :
    ∃ q',
      q.pop = some (q', x) ∧ q'.Represents cap l := by
  have hSmall := h.cap_small
  have hFits := h.fits
  rw [List.length_cons] at hFits
  have hInside := h.inside (q.mFront + 1).toNat
  have hDiff : IsInt32 (q.mSize - 1) := by
    rw [h.size]
    simp only [List.length_cons]
    exact ⟨by omega, by omega⟩
  have hRing := h.items_eq
  rw [List.length_cons, ringItems_pop] at hRing
  rcases List.cons.inj hRing with ⟨hFirst, hRest⟩
  unfold BlockQueue.pop
  rw [h.next_eq h.front]
  simp only [Option.bind_eq_bind, Option.bind_some,
    BlockQueue.read, if_pos hInside,
    subInt32_of_isInt32 hDiff]
  rw [Int.toNat_natCast, hFirst]
  refine ⟨_, rfl, ?_⟩
  have hMod :=
    Nat.mod_lt (q.mFront + 1).toNat (Nat.lt_of_lt_of_le
      Nat.zero_lt_one h.cap_pos)
  have hNat :
      ((((q.mFront + 1).toNat % cap : Nat) : Int) +
          1).toNat =
        (q.mFront + 1).toNat % cap + 1 := by
    omega
  refine
    { cap_pos := h.cap_pos
      cap_small := h.cap_small
      maxSize := h.maxSize
      size := ?_
      fits := by omega
      front := ⟨by simp only; omega, by simp only; omega⟩
      back := h.back
      next := ?_
      last := ?_
      items := ?_ }
  · simp only
    rw [h.size, List.length_cons]
    omega
  · simp only
    rw [h.next, hNat, List.length_cons, Nat.add_assoc,
      Nat.mod_add_mod, Nat.add_comm 1]
  · intro hNonempty
    have hLast := h.last (List.cons_ne_nil x l)
    have hLen := List.length_pos_of_ne_nil hNonempty
    refine ⟨?_, hLast.2⟩
    simp only
    rw [hLast.1, hNat, List.length_cons, Nat.add_assoc,
      Nat.mod_add_mod,
      show l.length + 1 - 1 = 1 + (l.length - 1) by omega]
  · unfold BlockQueue.items
    simp only [h.maxSize, h.size, Int.toNat_natCast, hNat,
      List.length_cons]
    rw [show (((l.length + 1 : Nat) : Int) - 1).toNat =
      l.length by omega]
    have hShift :
        ringItems q.mArray cap
            ((q.mFront + 1).toNat % cap + 1) l.length =
          ringItems q.mArray cap
            ((q.mFront + 1).toNat + 1) l.length := by
      rw [← ringItems_mod, Nat.mod_add_mod, ringItems_mod]
    rw [hShift, hRest]

/- `back` reads the newest item. -/
theorem Represents.back_eq
    (h : q.Represents cap l) :
    q.back = some l.getLast? := by
  unfold BlockQueue.back
  cases hLen : l.length with
  | zero =>
      have hNil := List.length_eq_zero_iff.mp hLen
      have hZero : 0 = q.mSize := by
        rw [h.size, hLen]
        rfl
      rw [if_pos hZero, hNil]
      rfl
  | succ n =>
      have hNonempty : l ≠ [] := by
        rintro rfl
        cases hLen
      have hNot : ¬ 0 = q.mSize := by
        rw [h.size, hLen]
        omega
      have hLast := h.last hNonempty
      have hInside : 0 ≤ q.mBack ∧ q.mBack < q.mMaxSize :=
        ⟨hLast.2, by rw [h.maxSize]; exact h.back.2⟩
      rw [if_neg hNot]
      simp only [BlockQueue.read, if_pos hInside,
        Option.bind_eq_bind, Option.bind_some]
      rw [hLast.1, hLen, Nat.add_sub_cancel,
        ← ringItems_getLast, ← hLen, h.items_eq]

/-
  Each operation answers as on the list, and the queue
  stands for the list it leaves.
-/
theorem Represents.step
    {l l' : BoundedFifo α cap}
    {op : QueueOp α}
    {reply : QueueReply α}
    (h : q.Represents cap l.items)
    (hStep : l.step op = some (l', reply)) :
    ∃ q',
      q.step op = some (q', reply) ∧
        q'.Represents cap l'.items := by
  cases op with
  | push item =>
      cases hStep
      unfold BoundedFifo.push
      by_cases hRoom : l.items.length < cap
      · rw [dif_pos hRoom]
        rcases h.push hRoom item with ⟨q', hPush, hNext⟩
        refine ⟨q', ?_, hNext⟩
        simp [BlockQueue.step, hPush]
      · rw [dif_neg hRoom]
        refine ⟨q, ?_, h⟩
        simp [BlockQueue.step,
          h.push_full (Nat.not_lt.mp hRoom)]
  | pop =>
      unfold BoundedFifo.step at hStep
      cases hOld : l.pop with
      | none =>
          rw [hOld] at hStep
          cases hStep
      | some result =>
          rcases result with ⟨l₁, x⟩
          rw [hOld] at hStep
          cases hStep
          rw [BoundedFifo.items_of_pop hOld] at h
          rcases h.pop with ⟨q', hPop, hNext⟩
          refine ⟨q', ?_, hNext⟩
          simp [BlockQueue.step, hPop]
  | clear =>
      cases hStep
      exact ⟨_, rfl, h.clear⟩
  | size =>
      cases hStep
      refine ⟨q, ?_, h⟩
      simp [BlockQueue.step, h.size]
  | full =>
      cases hStep
      refine ⟨q, ?_, h⟩
      simp [BlockQueue.step, h.full_eq]
  | empty =>
      cases hStep
      refine ⟨q, ?_, h⟩
      simp [BlockQueue.step, h.empty_eq]
  | back =>
      cases hStep
      refine ⟨q, ?_, h⟩
      simp [BlockQueue.step, h.back_eq]

/- A whole run on a queue follows the run on its list. -/
theorem Represents.run
    {l l' : BoundedFifo α cap}
    {ops : List (QueueOp α)}
    {replies : List (QueueReply α)}
    (h : q.Represents cap l.items)
    (hRun : l.run ops = some (l', replies)) :
    ∃ q',
      q.run ops = some (q', replies) ∧
        q'.Represents cap l'.items := by
  induction ops generalizing q l replies with
  | nil =>
      cases hRun
      exact ⟨q, rfl, h⟩
  | cons op ops ih =>
      unfold BoundedFifo.run at hRun
      cases hStep : l.step op with
      | none =>
          rw [hStep] at hRun
          cases hRun
      | some result =>
          rcases result with ⟨l₁, reply⟩
          rw [hStep] at hRun
          simp only [Option.bind_eq_bind,
            Option.bind_some] at hRun
          cases hRest : l₁.run ops with
          | none =>
              rw [hRest] at hRun
              cases hRun
          | some rest =>
              rcases rest with ⟨l₂, more⟩
              rw [hRest] at hRun
              cases hRun
              rcases h.step hStep with ⟨q₁, hOp, hNext⟩
              rcases ih hNext hRest with ⟨q₂, hOps, hLast⟩
              refine ⟨q₂, ?_, hLast⟩
              simp [BlockQueue.run, hOp, hOps]

end BlockQueue

open BlockQueue in
/-
  A block queue of any capacity answers every run of
  operations as a list of at most that many items does, and
  holds the same items at its end. No access leaves the
  array.
-/
theorem blockQueue_refines
    {cap : Nat}
    (hPos : 1 ≤ cap)
    (hSmall : (cap : Int) < 2 ^ 31)
    (cells : Nat → α)
    {ops : List (QueueOp α)}
    {l : BoundedFifo α cap}
    {replies : List (QueueReply α)}
    (hRun : BoundedFifo.new.run ops = some (l, replies)) :
    ∃ q q' : BlockQueue α,
      BlockQueue.new cap cells = some q ∧
        q.run ops = some (q', replies) ∧
        q'.items = l.items := by
  rcases new_represents hPos hSmall cells with
    ⟨q, hNew, hInit⟩
  have hEmpty :
      q.Represents cap
        (BoundedFifo.new : BoundedFifo α cap).items :=
    hInit
  rcases hEmpty.run hRun with ⟨q', hOps, hLast⟩
  exact ⟨q, q', hNew, hOps, hLast.items⟩

/- A queue of one place, filled twice, emptied and cleared. -/
theorem blockQueue_refines_one_place :
    ∃ q q' : BlockQueue Nat,
      BlockQueue.new (1 : Nat) (fun _ => 0) = some q ∧
        q.run
            [.push 7, .push 8, .pop, .clear, .push 9, .back] =
          some
            (q',
              [.done, .done, .item (some 7), .done, .done,
                .item (some 9)]) ∧
        q'.items = [9] :=
  @blockQueue_refines Nat 1 (by decide) (by decide)
    (fun _ => 0)
    [.push 7, .push 8, .pop, .clear, .push 9, .back]
    ⟨[9], by decide⟩ _ rfl

end V2

end WebServer
