import Mathlib.Logic.Function.Basic

/-
  The sorted timer list of version 2.0
  (`timer/lst_timer.h`, `timer/lst_timer.cpp`).

  Timers are nodes of a heap, addressed by pointers; a null
  pointer is `none`. Every function runs in `Option`: the
  result `none` is a null or dangling dereference.

  Key definitions include:
    * `UtilTimer`
    * `SortTimerLst`
    * `SortTimerLst.addTimer`
    * `SortTimerLst.addTimerFrom`
    * `SortTimerLst.adjustTimer`
    * `SortTimerLst.delTimer`
    * `SortTimerLst.tick`
-/

------------------------------------------------------------
-- Timers And Their Heap
------------------------------------------------------------

namespace WebServer

namespace V2

/- Address of a heap-allocated timer. -/
abbrev Addr := Nat

/- A file descriptor number. -/
abbrev Fd := Nat

/-
  One timer. `userData` is the descriptor whose slot of the
  `users_timer` array the source's pointer designates, and
  the callback is always `cb_func`.
-/
structure UtilTimer where
  expire : Int
  userData : Fd
  prev : Option Addr
  next : Option Addr
deriving DecidableEq, Repr

/-
  The list object and the heap its nodes live in.
  `allocations` counts the timers ever created; it bounds
  every walk along a list.
-/
structure SortTimerLst where
  heap : Addr → Option UtilTimer
  allocations : Nat
  head : Option Addr
  tail : Option Addr

namespace SortTimerLst

/- The constructor: no node, both ends null. -/
def empty : SortTimerLst where
  heap := fun _ => none
  allocations := 0
  head := none
  tail := none

/- `new util_timer`, with the fields its creator fills in. -/
def alloc
    (s : SortTimerLst)
    (a : Addr)
    (expire : Int)
    (userData : Fd) : SortTimerLst :=
  { s with
    heap :=
      Function.update s.heap a
        (some ⟨expire, userData, none, none⟩)
    allocations := s.allocations + 1 }

/- `delete timer`. -/
def free
    (s : SortTimerLst)
    (a : Addr) : SortTimerLst :=
  { s with heap := Function.update s.heap a none }

def setNext
    (s : SortTimerLst)
    (a : Addr)
    (v : Option Addr) : Option SortTimerLst := do
  let node ← s.heap a
  some
    { s with
      heap :=
        Function.update s.heap a
          (some { node with next := v }) }

def setPrev
    (s : SortTimerLst)
    (a : Addr)
    (v : Option Addr) : Option SortTimerLst := do
  let node ← s.heap a
  some
    { s with
      heap :=
        Function.update s.heap a
          (some { node with prev := v }) }

/- `timer->expire = expire`. -/
def setExpire
    (s : SortTimerLst)
    (a : Addr)
    (expire : Int) : Option SortTimerLst := do
  let node ← s.heap a
  some
    { s with
      heap :=
        Function.update s.heap a
          (some { node with expire := expire }) }

end SortTimerLst

end V2

end WebServer

------------------------------------------------------------
-- List Operations
------------------------------------------------------------

namespace WebServer

namespace V2

namespace SortTimerLst

/-
  The loop of the private `add_timer(timer, lst_head)`, at
  its local variables `prev` and `tmp`.
-/
def addTimerLoop
    (timer : Addr) :
    Nat → Addr → Option Addr → SortTimerLst →
      Option SortTimerLst
| _, prev, none, s => do
    -- no later timer expires after this one: new tail
    let s ← s.setNext prev (some timer)
    let s ← s.setPrev timer (some prev)
    let s ← s.setNext timer none
    some { s with tail := some timer }
| 0, _, some _, _ => none
| fuel + 1, prev, some tmp, s => do
    let node ← s.heap timer
    let other ← s.heap tmp
    if node.expire < other.expire then
      let s ← s.setNext prev (some timer)
      let s ← s.setNext timer (some tmp)
      let s ← s.setPrev tmp (some timer)
      s.setPrev timer (some prev)
    else
      addTimerLoop timer fuel tmp other.next s

/- The private overload `add_timer(timer, lst_head)`. -/
def addTimerFrom
    (s : SortTimerLst)
    (timer lstHead : Addr) : Option SortTimerLst := do
  let node ← s.heap lstHead
  addTimerLoop timer s.allocations lstHead node.next s

/- The public `add_timer(timer)`. -/
def addTimer
    (s : SortTimerLst)
    (timer : Addr) : Option SortTimerLst :=
  match s.head with
  | none =>
      some { s with head := some timer, tail := some timer }
  | some head => do
      let node ← s.heap timer
      let first ← s.heap head
      if node.expire < first.expire then
        -- the source returns without `head = timer`
        let s ← s.setNext timer (some head)
        s.setPrev head (some timer)
      else
        s.addTimerFrom timer head

/- `adjust_timer(timer)`. -/
def adjustTimer
    (s : SortTimerLst)
    (timer : Addr) : Option SortTimerLst := do
  let node ← s.heap timer
  match node.next with
  | none => some s
  | some tmp =>
      let other ← s.heap tmp
      if node.expire < other.expire then
        some s
      else if s.head = some timer then
        let s := { s with head := some tmp }
        let s ← s.setPrev tmp none
        s.addTimerFrom timer tmp
      else
        let before ← node.prev
        let s ← s.setNext before (some tmp)
        let s ← s.setPrev tmp (some before)
        s.addTimerFrom timer tmp

/- `del_timer(timer)`. -/
def delTimer
    (s : SortTimerLst)
    (timer : Addr) : Option SortTimerLst := do
  if s.head = some timer ∧ s.tail = some timer then
    some { s.free timer with head := none, tail := none }
  else if s.head = some timer then
    let node ← s.heap timer
    let first ← node.next
    let s := { s with head := some first }
    let s ← s.setPrev first none
    some (s.free timer)
  else if s.tail = some timer then
    let node ← s.heap timer
    let last ← node.prev
    let s := { s with tail := some last }
    let s ← s.setNext last none
    some (s.free timer)
  else
    -- the node in the middle is unlinked, not deleted
    let node ← s.heap timer
    let before ← node.prev
    let after ← node.next
    let s ← s.setNext before (some after)
    s.setPrev after (some before)

/- `head = next; if (head) head->prev = NULL;` in `tick`. -/
def moveHead
    (s : SortTimerLst) :
    Option Addr → Option SortTimerLst
| none => some { s with head := none }
| some first =>
    { s with head := some first }.setPrev first none

/-
  The loop of `tick` at its local variable `tmp`. It returns
  the timers whose callback ran and the slot passed to each,
  in order.
-/
def tickLoop
    (cur : Int) :
    Nat → Option Addr → SortTimerLst →
      Option (SortTimerLst × List (Addr × Fd))
| _, none, s => some (s, [])
| 0, some _, _ => none
| fuel + 1, some tmp, s => do
    let node ← s.heap tmp
    if cur < node.expire then
      some (s, [])
    else
      let s ← s.moveHead node.next
      let (s, fired) ←
        tickLoop cur fuel s.head (s.free tmp)
      some (s, (tmp, node.userData) :: fired)

/- `tick()` at clock reading `cur`. -/
def tick
    (s : SortTimerLst)
    (cur : Int) :
    Option (SortTimerLst × List (Addr × Fd)) :=
  tickLoop cur s.allocations s.head s

end SortTimerLst

end V2

end WebServer
