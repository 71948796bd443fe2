import Mathlib.Algebra.Group.Int.Defs
import Mathlib.Algebra.Group.Nat.Defs
import Mathlib.Data.List.MinMax
import Mathlib.Tactic.Common

/-
  The timers of version 3.0 (`net/Timer.h`, `net/Timer.cpp`).

  A timer node holds the connection it will close and an
  expiry in milliseconds. All clock readings are reduced to
  a window of 10000 seconds before they are compared, so
  this file also settles when a reduced comparison agrees
  with the wall clock.

  Key definitions include:
    * `Timeval`
    * `reducedMillis`
    * `TimerNode`
    * `TimerNode.isValid`
    * `TimerManager`
    * `timerCmp`
    * `TopPolicy`
    * `TimerManager.addTimer`
    * `TimerManager.clearReq`
    * `TimerManager.handleExpiredEvent`
    * `PlacedWell`

  Key theorems include:
    * `TopPolicy.expiredTime_le_of_top`
    * `TimerNode.isValid_new_eq_false_iff`
    * `TimerNode.never_expires_of_wrapped_expiry`
    * `TimerNode.expires_on_time_iff`
-/

------------------------------------------------------------
-- Clock Readings
------------------------------------------------------------

namespace WebServer

namespace V3

/- The result of `gettimeofday`. -/
structure Timeval where
  tvSec : Nat
  tvUsec : Nat
  usec_lt : tvUsec < 1000000

/- A reading on the second has no microseconds. -/
theorem Timeval.on_second : 0 < 1000000 := by decide

/- Wall-clock milliseconds of one reading. -/
def Timeval.millis
    (now : Timeval) : Nat :=
  now.tvSec * 1000 + now.tvUsec / 1000

/- The window, in milliseconds, to which readings reduce. -/
def clockWindow : Nat := 10000 * 1000

/- A reading as the code reduces it before any comparison. -/
def reducedMillis
    (now : Timeval) : Nat :=
  ((now.tvSec % 10000) * 1000) + (now.tvUsec / 1000)

/- The code's reduction is the remainder of the window. -/
theorem reducedMillis_eq_mod
    (now : Timeval) :
    reducedMillis now = now.millis % clockWindow := by
  have hUsec := now.usec_lt
  unfold reducedMillis Timeval.millis clockWindow
  omega

end V3

end WebServer

------------------------------------------------------------
-- Timer Nodes
------------------------------------------------------------

namespace WebServer

namespace V3

/- Identity of one `HttpData` object. -/
abbrev ConnId := Nat

/- Identity of one heap-allocated timer node. -/
abbrev TimerAddr := Nat

/-
  One timer node. `addr` is the address that the queue and
  the connection's weak pointer share.
-/
structure TimerNode where
  addr : TimerAddr
  deleted : Bool
  expiredTime : Nat
  spHttpData : Option ConnId
deriving DecidableEq, Repr

namespace TimerNode

/- The constructor reads the clock and adds the timeout. -/
def new
    (addr : TimerAddr)
    (requestData : ConnId)
    (timeout : Nat)
    (now : Timeval) : TimerNode where
  addr := addr
  deleted := false
  expiredTime := reducedMillis now + timeout
  spHttpData := some requestData

def setDeleted
    (node : TimerNode) : TimerNode :=
  { node with deleted := true }

/-
  Compare the reduced clock with the expiry. An expired node
  is marked deleted before the answer is returned.
-/
def isValid
    (node : TimerNode)
    (now : Timeval) : Bool × TimerNode :=
  let temp := reducedMillis now
  if temp < node.expiredTime then
    (true, node)
  else
    (false, node.setDeleted)

/- Drop the connection and mark the node deleted. -/
def clearReq
    (node : TimerNode) : TimerNode :=
  { node with spHttpData := none }.setDeleted

@[simp] theorem clearReq_addr
    (node : TimerNode) :
    node.clearReq.addr = node.addr := rfl

@[simp] theorem clearReq_deleted
    (node : TimerNode) :
    node.clearReq.deleted = true := rfl

@[simp] theorem clearReq_spHttpData
    (node : TimerNode) :
    node.clearReq.spHttpData = none := rfl

end TimerNode

end V3

end WebServer

------------------------------------------------------------
-- Timer Queues
------------------------------------------------------------

namespace WebServer

namespace V3

/-
  The timers of one loop. The queue keeps its nodes alive:
  an address not in it is that of a destroyed node.
-/
structure TimerManager where
  timerNodeQueue : List TimerNode
  nextAddr : Nat
deriving DecidableEq, Repr

namespace TimerManager

def new : TimerManager where
  timerNodeQueue := []
  nextAddr := 0

/- A weak pointer to this address can be locked. -/
def holds
    (m : TimerManager)
    (addr : TimerAddr) : Bool :=
  m.timerNodeQueue.any fun node => node.addr == addr

/- `clearReq()` on the node at an address. -/
def clearReq
    (m : TimerManager)
    (addr : TimerAddr) : TimerManager :=
  { m with
    timerNodeQueue :=
      m.timerNodeQueue.map fun node =>
        if node.addr = addr then node.clearReq else node }

/-
  `addTimer(SPHttpData, timeout)`: the queue, and the node
  that the connection is linked to.
-/
def addTimer
    (m : TimerManager)
    (spHttpData : ConnId)
    (timeout : Nat)
    (now : Timeval) : TimerManager × TimerAddr :=
  ({ timerNodeQueue :=
        TimerNode.new m.nextAddr spHttpData timeout now ::
          m.timerNodeQueue
     nextAddr := m.nextAddr + 1 },
    m.nextAddr)

end TimerManager

/- `TimerCmp`, by which the queue orders its nodes. -/
def timerCmp
    (a b : TimerNode) : Bool :=
  decide (a.expiredTime > b.expiredTime)

/-
  A choice of `timerNodeQueue.top()`: some node of a
  non-empty queue that `TimerCmp` puts behind no other.
-/
structure TopPolicy where
  top : List TimerNode → Option TimerNode
  top_none : ∀ q, top q = none ↔ q = []
  top_mem : ∀ q node, top q = some node → node ∈ q
  top_first :
    ∀ q node, top q = some node →
      ∀ other ∈ q, timerCmp node other = false

namespace TopPolicy

/- The top expires no later than the other nodes. -/
theorem expiredTime_le_of_top
    (policy : TopPolicy)
    {q : List TimerNode}
    {node other : TimerNode}
    (hTop : policy.top q = some node)
    (hOther : other ∈ q) :
    node.expiredTime ≤ other.expiredTime := by
  have hFirst := policy.top_first q node hTop other hOther
  simpa [timerCmp] using hFirst

/- The node in front, of those that expire first. -/
def front : TopPolicy where
  top := List.argmin TimerNode.expiredTime
  top_none := fun _ => List.argmin_eq_none
  top_mem := fun _ _ hTop => List.argmin_mem hTop
  top_first := by
    intro q node hTop other hOther
    have hLe := List.le_of_mem_argmin hOther hTop
    simpa [timerCmp] using hLe

end TopPolicy

namespace TimerManager

/-
  The loop of `handleExpiredEvent()`, with the clock
  readings of its `isValid()` calls. It returns the queue
  and, in order, the connections closed by the destructors
  of the nodes popped.
-/
def handleExpiredLoop
    (policy : TopPolicy)
    (clock : Nat → Timeval) :
    Nat → Nat → List TimerNode →
      List TimerNode × List ConnId
| 0, _, q => (q, [])
| fuel + 1, k, q =>
    match policy.top q with
    | none => (q, [])
    | some node =>
        if node.deleted then
          let (q, closed) :=
            handleExpiredLoop policy clock fuel k
              (q.erase node)
          (q, node.spHttpData.toList ++ closed)
        else if (node.isValid (clock k)).1 = false then
          let (q, closed) :=
            handleExpiredLoop policy clock fuel (k + 1)
              (q.erase node)
          (q, node.spHttpData.toList ++ closed)
        else
          (q, [])

/- `handleExpiredEvent()`. -/
def handleExpiredEvent
    (m : TimerManager)
    (policy : TopPolicy)
    (clock : Nat → Timeval) :
    TimerManager × List ConnId :=
  let (q, closed) :=
    handleExpiredLoop policy clock m.timerNodeQueue.length 0
      m.timerNodeQueue
  ({ m with timerNodeQueue := q }, closed)

end TimerManager

end V3

end WebServer

------------------------------------------------------------
-- Windows Of The Clock
------------------------------------------------------------

namespace WebServer

namespace V3

/- The window in which a time lies. -/
def windowOf
    (millis : Nat) : Nat :=
  millis / clockWindow

/- How far into its window a time lies. -/
def intoWindow
    (millis : Nat) : Nat :=
  millis % clockWindow

/-
  Where an arming, its deadline and a check lie in the
  windows when the reduced comparison serves the check:
    * the check lies in the window of the arming, or
    * the deadline lies in the window of the arming, and the
      check at least as far into its own window, or
    * the deadline lies in a later window, and the check in
      that window, less far into it.
-/
inductive PlacedWell
    (armed deadline check : Nat) : Prop
| sameWindow
    (hCheck : windowOf check = windowOf armed)
| asFarIn
    (hDeadline : windowOf deadline = windowOf armed)
    (hCheck : intoWindow deadline ≤ intoWindow check)
| lessFarIn
    (hDeadline : windowOf armed < windowOf deadline)
    (hCheck : windowOf check = windowOf deadline)
    (hBefore : intoWindow check < intoWindow deadline)

/- A time is its window and its place in it. -/
theorem windowOf_add_intoWindow
    (millis : Nat) :
    clockWindow * windowOf millis + intoWindow millis =
      millis :=
  Nat.div_add_mod millis clockWindow

theorem intoWindow_lt
    (millis : Nat) :
    intoWindow millis < clockWindow :=
  Nat.mod_lt _ (by decide)

theorem windowOf_le
    {earlier later : Nat}
    (hLater : earlier ≤ later) :
    windowOf earlier ≤ windowOf later :=
  Nat.div_le_div_right hLater

/- Times of one window come in the order of their places. -/
theorem le_iff_of_windowOf_eq
    {first second : Nat}
    (hSame : windowOf first = windowOf second) :
    first ≤ second ↔
      intoWindow first ≤ intoWindow second := by
  have hFirst := windowOf_add_intoWindow first
  have hSecond := windowOf_add_intoWindow second
  rw [hSame] at hFirst
  omega

theorem lt_of_windowOf_lt
    {first second : Nat}
    (hBefore : windowOf first < windowOf second) :
    first < second :=
  Nat.lt_of_not_le fun hLe =>
    Nat.not_lt_of_le (windowOf_le hLe) hBefore

end V3

end WebServer

------------------------------------------------------------
-- Expiry Against The Wall Clock
------------------------------------------------------------

namespace WebServer

namespace V3

namespace TimerNode

/- The reduced comparison that decides expiry. -/
theorem isValid_new_eq_false_iff
    (addr : TimerAddr)
    (requestData : ConnId)
    (timeout : Nat)
    (armed check : Timeval) :
    ((new addr requestData timeout armed).isValid
        check).1 = false ↔
      intoWindow armed.millis + timeout ≤
        intoWindow check.millis := by
  unfold intoWindow
  rw [← reducedMillis_eq_mod, ← reducedMillis_eq_mod]
  unfold isValid new
  by_cases hLt :
      reducedMillis check < reducedMillis armed + timeout
  · simp [hLt]
  · simp [hLt]
    omega

/-
  With the deadline in the window of the arming, the check
  is compared with the deadline's place in that window.
-/
theorem expires_iff_of_deadline_in_window
    {addr : TimerAddr}
    {requestData : ConnId}
    {timeout : Nat}
    {armed check : Timeval}
    (hDeadline :
      windowOf (armed.millis + timeout) =
        windowOf armed.millis) :
    ((new addr requestData timeout armed).isValid
        check).1 = false ↔
      intoWindow (armed.millis + timeout) ≤
        intoWindow check.millis := by
  rw [isValid_new_eq_false_iff]
  have hArmed := windowOf_add_intoWindow armed.millis
  have hEnd :=
    windowOf_add_intoWindow (armed.millis + timeout)
  rw [hDeadline] at hEnd
  have hPlace :
      intoWindow armed.millis + timeout =
        intoWindow (armed.millis + timeout) := by
    omega
  rw [hPlace]

/-
  A node whose deadline lies in a later window than its
  arming is valid at every reading.
-/
theorem never_expires_of_wrapped_expiry
    (addr : TimerAddr)
    (requestData : ConnId)
    {timeout : Nat}
    {armed : Timeval}
    (hWrapped :
      windowOf armed.millis <
        windowOf (armed.millis + timeout))
    (check : Timeval) :
    ((new addr requestData timeout armed).isValid
      check).1 = true := by
  have hArmed := windowOf_add_intoWindow armed.millis
  have hEnd :=
    windowOf_add_intoWindow (armed.millis + timeout)
  have hPast :
      clockWindow * (windowOf armed.millis + 1) ≤
        clockWindow * windowOf (armed.millis + timeout) :=
    Nat.mul_le_mul_left clockWindow hWrapped
  have hSmall := intoWindow_lt check.millis
  have hNot :
      ¬ intoWindow armed.millis + timeout ≤
        intoWindow check.millis := by
    rw [Nat.mul_add] at hPast
    omega
  simpa using
    (isValid_new_eq_false_iff addr requestData timeout
      armed check).not.mpr hNot

/- A check in the window of the arming is on time. -/
theorem expires_on_time_of_sameWindow
    (addr : TimerAddr)
    (requestData : ConnId)
    (timeout : Nat)
    {armed check : Timeval}
    (hCheck :
      windowOf check.millis = windowOf armed.millis) :
    ((new addr requestData timeout armed).isValid
        check).1 = false ↔
      armed.millis + timeout ≤ check.millis := by
  rw [isValid_new_eq_false_iff]
  have hArmed := windowOf_add_intoWindow armed.millis
  have hAt := windowOf_add_intoWindow check.millis
  rw [hCheck] at hAt
  omega

/-
  A node reports expiry exactly at and after its wall-clock
  deadline if and only if the arming, the deadline and the
  check are well placed in the windows of the clock.
-/
theorem expires_on_time_iff
    (addr : TimerAddr)
    (requestData : ConnId)
    (timeout : Nat)
    (armed check : Timeval)
    (hTimeout : timeout ≤ clockWindow)
    (hLater : armed.millis ≤ check.millis) :
    (((new addr requestData timeout armed).isValid
          check).1 = false ↔
        armed.millis + timeout ≤ check.millis) ↔
      PlacedWell armed.millis (armed.millis + timeout)
        check.millis := by
  by_cases hCheck :
      windowOf check.millis = windowOf armed.millis
  · have hOnTime :=
      expires_on_time_of_sameWindow addr requestData timeout
        hCheck
    exact ⟨fun _ => .sameWindow hCheck, fun _ => hOnTime⟩
  have hNext :
      windowOf armed.millis < windowOf check.millis :=
    Nat.lt_of_le_of_ne (windowOf_le hLater)
      (Ne.symm hCheck)
  have hReach :
      windowOf armed.millis ≤
        windowOf (armed.millis + timeout) :=
    windowOf_le (Nat.le_add_right _ _)
  rcases Nat.eq_or_lt_of_le hReach with hSame | hWrapped
  · -- the deadline is past: the check comes a window later
    have hPast :
        armed.millis + timeout ≤ check.millis :=
      Nat.le_of_lt
        (lt_of_windowOf_lt (hSame.symm.trans_lt hNext))
    rw [expires_iff_of_deadline_in_window hSame.symm]
    constructor
    · intro hOnTime
      exact .asFarIn hSame.symm (hOnTime.mpr hPast)
    · intro hPlaced
      cases hPlaced with
      | sameWindow h => exact absurd h hCheck
      | asFarIn _ hFar =>
          exact ⟨fun _ => hPast, fun _ => hFar⟩
      | lessFarIn h => exact absurd hSame (Nat.ne_of_lt h)
  · -- the node never expires
    have hValid :=
      never_expires_of_wrapped_expiry addr requestData
        hWrapped check
    simp only [hValid, Bool.true_eq_false, false_iff,
      Nat.not_le]
    constructor
    · intro hBefore
      -- the deadline lies in the window behind the arming's
      have hEnd :
          windowOf (armed.millis + timeout) =
            windowOf armed.millis + 1 := by
        refine Nat.le_antisymm ?_ hWrapped
        calc windowOf (armed.millis + timeout)
            ≤ windowOf (armed.millis + clockWindow) :=
              windowOf_le (Nat.add_le_add_left hTimeout _)
          _ = windowOf armed.millis + 1 :=
              Nat.add_div_right _ (by decide)
      have hIn :
          windowOf check.millis =
            windowOf (armed.millis + timeout) :=
        Nat.le_antisymm (windowOf_le (Nat.le_of_lt hBefore))
          (hEnd.trans_le hNext)
      refine .lessFarIn hWrapped hIn ?_
      exact Nat.lt_of_not_le fun hLe =>
        Nat.not_lt_of_le
          ((le_iff_of_windowOf_eq hIn.symm).mpr hLe) hBefore
    · intro hPlaced
      cases hPlaced with
      | sameWindow h => exact absurd h hCheck
      | asFarIn h => exact absurd h (Nat.ne_of_gt hWrapped)
      | lessFarIn _ hIn hFar =>
          exact Nat.lt_of_not_le fun hLe =>
            Nat.not_lt_of_le
              ((le_iff_of_windowOf_eq hIn.symm).mp hLe) hFar

/-
  Armed at seven seconds and checked at nine, the node
  expires on time.
-/
theorem expires_on_time_iff_same_second :
    (((new 0 0 2000 ⟨7, 0, by decide⟩).isValid
          ⟨9, 0, by decide⟩).1 = false ↔
        (⟨7, 0, by decide⟩ : Timeval).millis + 2000 ≤
          (⟨9, 0, by decide⟩ : Timeval).millis) :=
  (expires_on_time_iff 0 0 2000 ⟨7, 0, by decide⟩
    ⟨9, 0, by decide⟩ (by decide) (by decide)).mpr
    (.sameWindow (by decide))

/-
  Armed one second before a window ends with the default
  timeout of two seconds, the node is still valid a second
  past its deadline.
-/
theorem still_valid_past_deadline :
    ¬ (((new 0 0 2000 ⟨9999, 0, by decide⟩).isValid
          ⟨10002, 0, by decide⟩).1 = false ↔
        (⟨9999, 0, by decide⟩ : Timeval).millis + 2000 ≤
          (⟨10002, 0, by decide⟩ : Timeval).millis) := by
  decide

end TimerNode

end V3

end WebServer
