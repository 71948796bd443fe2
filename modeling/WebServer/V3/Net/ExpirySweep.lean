import WebServer.V3.Net.TimerCoverage

/-
  What one sweep of the timers of version 3.0 removes and
  what it leaves (`TimerManager::handleExpiredEvent`).

  A node that was separated stays in the queue until it
  comes to the top, and the sweep stops at the first top
  that is live and not expired. The sweep is recorded here
  with the nodes that it pops, each with the clock reading
  that found it expired.

  Key definitions include:
    * `TimerCall`
    * `TimerManager.after`
    * `Sweep`
    * `TimerManager.sweep`
    * `TimerManager.SweptExactly`

  Key theorems include:
    * `TimerManager.sweepLoop_result`
    * `TimerManager.sweepLoop_stops`
    * `TimerManager.sound_after`
    * `sweep_exact`
-/

------------------------------------------------------------
-- Contents Of The Queue
------------------------------------------------------------

namespace WebServer

namespace V3

/-
  What is done to the timers of a loop. A timeout is any
  number, so that every expiry of a node is covered.
-/
inductive TimerCall
| addTimer
    (spHttpData : ConnId)
    (timeout : Nat)
    (now : Timeval)
| clearReq (addr : TimerAddr)
| handleExpiredEvent
    (policy : TopPolicy)
    (clock : Nat → Timeval)

namespace TimerManager

def call
    (m : TimerManager) :
    TimerCall → TimerManager
| .addTimer spHttpData timeout now =>
    (m.addTimer spHttpData timeout now).1
| .clearReq addr => m.clearReq addr
| .handleExpiredEvent policy clock =>
    (m.handleExpiredEvent policy clock).1

/- The timers after some calls. -/
def after
    (calls : List TimerCall) : TimerManager :=
  calls.foldl call new

/- No connection has two live nodes. -/
def OneLive
    (m : TimerManager) : Prop :=
  ∀ node ∈ m.timerNodeQueue,
    ∀ node' ∈ m.timerNodeQueue,
      node.deleted = false → node'.deleted = false →
        node.spHttpData = node'.spHttpData → node = node'

theorem Sound.handleExpiredEvent
    {m : TimerManager}
    (h : m.Sound)
    (policy : TopPolicy)
    (clock : Nat → Timeval) :
    (m.handleExpiredEvent policy clock).1.Sound := by
  rcases
    handleExpiredLoop_pops policy clock
      m.timerNodeQueue.length 0 m.timerNodeQueue with
    ⟨popped, hPerm, _⟩
  have hAddrs := (hPerm.map TimerNode.addr).nodup_iff.mp
    h.addrs
  rw [List.map_append] at hAddrs
  exact
    { live := fun node hNode =>
        h.live node (mem_of_handleExpiredEvent hNode)
      addrs := (List.nodup_append.mp hAddrs).2.1
      fresh := fun node hNode =>
        h.fresh node (mem_of_handleExpiredEvent hNode) }

theorem Sound.call
    {m : TimerManager}
    (h : m.Sound)
    (c : TimerCall) :
    (m.call c).Sound := by
  cases c with
  | addTimer id timeout now => exact h.addTimer id timeout now
  | clearReq addr => exact h.clearReq addr
  | handleExpiredEvent policy clock =>
      exact h.handleExpiredEvent policy clock

/- By induction on the calls. -/
theorem sound_after
    (calls : List TimerCall) :
    (after calls).Sound := by
  have hFold : ∀ {m : TimerManager},
      m.Sound → (calls.foldl TimerManager.call m).Sound := by
    induction calls with
    | nil => exact fun h => h
    | cons c calls ih => exact fun h => ih (h.call c)
  exact hFold sound_new

/- Live nodes of one connection have one address. -/
theorem Sound.addr_eq
    {m : TimerManager}
    (h : m.Sound)
    (hOne : m.OneLive) :
    ∀ node ∈ m.timerNodeQueue,
      ∀ node' ∈ m.timerNodeQueue,
        ∀ id, node.spHttpData = some id →
          node'.spHttpData = some id →
            node.addr = node'.addr := by
  intro node hNode node' hNode' id hNames hNames'
  have hLive : node.deleted = false := by
    rw [h.live node hNode, hNames]
    rfl
  have hLive' : node'.deleted = false := by
    rw [h.live node' hNode', hNames']
    rfl
  rw [hOne node hNode node' hNode' hLive hLive'
    (hNames.trans hNames'.symm)]

end TimerManager

end V3

end WebServer

------------------------------------------------------------
-- The Record Of A Sweep
------------------------------------------------------------

namespace WebServer

namespace V3

/-
  A node that a sweep popped: because it was deleted, or
  because a reading of the clock found it expired.
-/
structure PoppedNode where
  node : TimerNode
  reading : Option Nat
deriving DecidableEq, Repr

/-
  The nodes that a sweep leaves, those that it popped, in
  order, and how often the clock was read until its end.
-/
structure Sweep where
  left : List TimerNode
  popped : List PoppedNode
  reads : Nat
deriving DecidableEq, Repr

namespace TimerManager

/- The loop of `handleExpiredEvent()`, recorded. -/
def sweepLoop
    (policy : TopPolicy)
    (clock : Nat → Timeval) :
    Nat → Nat → List TimerNode → Sweep
| 0, k, q => ⟨q, [], k⟩
| fuel + 1, k, q =>
    match policy.top q with
    | none => ⟨q, [], k⟩
    | some node =>
        if node.deleted then
          let rest :=
            sweepLoop policy clock fuel k (q.erase node)
          { rest with popped := ⟨node, none⟩ :: rest.popped }
        else if (node.isValid (clock k)).1 = false then
          let rest :=
            sweepLoop policy clock fuel (k + 1)
              (q.erase node)
          { rest with
            popped := ⟨node, some k⟩ :: rest.popped }
        else
          ⟨q, [], k + 1⟩

/- `handleExpiredEvent()`, recorded. -/
def sweep
    (m : TimerManager)
    (policy : TopPolicy)
    (clock : Nat → Timeval) : Sweep :=
  sweepLoop policy clock m.timerNodeQueue.length 0
    m.timerNodeQueue

/- The record is of what `handleExpiredEvent` does. -/
theorem sweepLoop_result
    (policy : TopPolicy)
    (clock : Nat → Timeval)
    (fuel k : Nat)
    (q : List TimerNode) :
    handleExpiredLoop policy clock fuel k q =
      ((sweepLoop policy clock fuel k q).left,
        (sweepLoop policy clock fuel k q).popped.flatMap
          fun p => p.node.spHttpData.toList) := by
  induction fuel generalizing k q with
  | zero => rfl
  | succ fuel ih =>
      unfold handleExpiredLoop sweepLoop
      cases hTop : policy.top q with
      | none => rfl
      | some node =>
          simp only
          split_ifs with hDeleted hExpired
          · rw [ih k (q.erase node)]
            rfl
          · rw [ih (k + 1) (q.erase node)]
            rfl
          · rfl

/- Every node is popped or left. -/
theorem sweepLoop_perm
    (policy : TopPolicy)
    (clock : Nat → Timeval)
    (fuel k : Nat)
    (q : List TimerNode) :
    q.Perm
      ((sweepLoop policy clock fuel k q).popped.map
          PoppedNode.node ++
        (sweepLoop policy clock fuel k q).left) := by
  induction fuel generalizing k q with
  | zero => exact List.Perm.refl q
  | succ fuel ih =>
      unfold sweepLoop
      cases hTop : policy.top q with
      | none => exact List.Perm.refl q
      | some node =>
          have hMem := policy.top_mem q node hTop
          have hFirst := List.perm_cons_erase hMem
          simp only
          split_ifs with hDeleted hExpired
          · exact hFirst.trans ((ih k _).cons node)
          · exact hFirst.trans ((ih (k + 1) _).cons node)
          · exact List.Perm.refl q

/- The clock is only read onwards. -/
theorem le_sweepLoop_reads
    (policy : TopPolicy)
    (clock : Nat → Timeval)
    (fuel k : Nat)
    (q : List TimerNode) :
    k ≤ (sweepLoop policy clock fuel k q).reads := by
  induction fuel generalizing k q with
  | zero => exact Nat.le_refl k
  | succ fuel ih =>
      unfold sweepLoop
      cases hTop : policy.top q with
      | none => exact Nat.le_refl k
      | some node =>
          simp only
          split_ifs with hDeleted hExpired
          · exact ih k _
          · exact Nat.le_of_succ_le (ih (k + 1) _)
          · exact Nat.le_succ k

/- Why a node was popped. -/
def Justified
    (clock : Nat → Timeval)
    (reads : Nat)
    (p : PoppedNode) : Prop :=
  match p.reading with
  | none => p.node.deleted = true
  | some k =>
      k < reads ∧ p.node.deleted = false ∧
        (p.node.isValid (clock k)).1 = false

theorem sweepLoop_justified
    (policy : TopPolicy)
    (clock : Nat → Timeval)
    (fuel k : Nat)
    (q : List TimerNode) :
    ∀ p ∈ (sweepLoop policy clock fuel k q).popped,
      Justified clock
        (sweepLoop policy clock fuel k q).reads p := by
  induction fuel generalizing k q with
  | zero => exact fun _ hMem => nomatch hMem
  | succ fuel ih =>
      unfold sweepLoop
      cases hTop : policy.top q with
      | none => exact fun _ hMem => nomatch hMem
      | some node =>
          simp only
          split_ifs with hDeleted hExpired
          · intro p hMem
            rcases List.mem_cons.mp hMem with rfl | hLater
            · exact hDeleted
            · exact ih k _ p hLater
          · intro p hMem
            rcases List.mem_cons.mp hMem with rfl | hLater
            · exact
                ⟨le_sweepLoop_reads policy clock fuel (k + 1)
                    (q.erase node),
                  Bool.eq_false_iff.mpr hDeleted, hExpired⟩
            · exact ih (k + 1) _ p hLater
          · exact fun _ hMem => nomatch hMem

/-
  A sweep with turns for all nodes ends where nothing is
  left, or at a top that the last reading finds live and not
  expired. Each turn takes one node out.
-/
theorem sweepLoop_stops
    (policy : TopPolicy)
    (clock : Nat → Timeval)
    {fuel k : Nat}
    {q : List TimerNode}
    (hFuel : q.length ≤ fuel) :
    (sweepLoop policy clock fuel k q).left = [] ∨
      ∃ node last,
        policy.top (sweepLoop policy clock fuel k q).left =
            some node ∧
          (sweepLoop policy clock fuel k q).reads =
            last + 1 ∧
          node.deleted = false ∧
          (node.isValid (clock last)).1 = true := by
  induction fuel generalizing k q with
  | zero =>
      exact
        .inl
          (List.eq_nil_of_length_eq_zero
            (Nat.le_zero.mp hFuel))
  | succ fuel ih =>
      unfold sweepLoop
      cases hTop : policy.top q with
      | none => exact .inl ((policy.top_none q).mp hTop)
      | some node =>
          have hMem := policy.top_mem q node hTop
          have hShort : (q.erase node).length ≤ fuel := by
            rw [List.length_erase_of_mem hMem]
            omega
          simp only
          split_ifs with hDeleted hExpired
          · exact ih hShort
          · exact ih hShort
          · right
            exact
              ⟨node, k, hTop, rfl,
                Bool.eq_false_iff.mpr hDeleted,
                (Bool.not_eq_false _).mp hExpired⟩

end TimerManager

end V3

end WebServer

------------------------------------------------------------
-- Exact Sweeps
------------------------------------------------------------

namespace WebServer

namespace V3

namespace TimerManager

/-
  A sweep pops only nodes that were deleted or had expired
  at their reading, leaves a queue whose top is live and not
  expired, and so no node that has expired at the last
  reading, and closes the connections of the live nodes that
  it popped, each once, and no other.
-/
structure SweptExactly
    (m : TimerManager)
    (policy : TopPolicy)
    (clock : Nat → Timeval) : Prop where
  left :
    (m.handleExpiredEvent policy clock).1.timerNodeQueue =
      (m.sweep policy clock).left
  split :
    m.timerNodeQueue.Perm
      ((m.sweep policy clock).popped.map PoppedNode.node ++
        (m.sweep policy clock).left)
  justified :
    ∀ p ∈ (m.sweep policy clock).popped,
      Justified clock (m.sweep policy clock).reads p
  top :
    (m.sweep policy clock).left = [] ∨
      ∃ node last,
        policy.top (m.sweep policy clock).left =
            some node ∧
          (m.sweep policy clock).reads = last + 1 ∧
          node.deleted = false ∧
          (node.isValid (clock last)).1 = true
  unexpired :
    ∀ node ∈ (m.sweep policy clock).left,
      ∀ last, (m.sweep policy clock).reads = last + 1 →
        reducedMillis (clock last) < node.expiredTime
  closed_once :
    ∀ p ∈ (m.sweep policy clock).popped,
      p.node.deleted = false →
        ∃ id,
          p.node.spHttpData = some id ∧
            (m.handleExpiredEvent policy clock).2.count id =
              1
  closed_only :
    ∀ id ∈ (m.handleExpiredEvent policy clock).2,
      ∃ p ∈ (m.sweep policy clock).popped,
        p.node.deleted = false ∧ p.node.spHttpData = some id

theorem handleExpiredEvent_eq
    (m : TimerManager)
    (policy : TopPolicy)
    (clock : Nat → Timeval) :
    m.handleExpiredEvent policy clock =
      ({ m with
          timerNodeQueue := (m.sweep policy clock).left },
        (m.sweep policy clock).popped.flatMap
          fun p => p.node.spHttpData.toList) := by
  unfold TimerManager.handleExpiredEvent
  rw [sweepLoop_result]
  rfl

/- A valid node expires after the reading. -/
theorem lt_expiredTime_of_isValid
    {node : TimerNode}
    {now : Timeval}
    (hValid : (node.isValid now).1 = true) :
    reducedMillis now < node.expiredTime := by
  unfold TimerNode.isValid at hValid
  by_contra hNot
  simp only [if_neg hNot] at hValid
  cases hValid

/- Nothing below a top that has not expired has expired. -/
theorem unexpired_of_stops
    {policy : TopPolicy}
    {clock : Nat → Timeval}
    {s : Sweep}
    (hStops :
      s.left = [] ∨
        ∃ node last,
          policy.top s.left = some node ∧
            s.reads = last + 1 ∧
            node.deleted = false ∧
            (node.isValid (clock last)).1 = true) :
    ∀ node ∈ s.left,
      ∀ last, s.reads = last + 1 →
        reducedMillis (clock last) < node.expiredTime := by
  intro node hNode last hLast
  rcases hStops with
    hNil | ⟨top, last', hTop, hReads, _, hValid⟩
  · rw [hNil] at hNode
    cases hNode
  · have hSame : last' = last := by omega
    subst hSame
    exact
      Nat.lt_of_lt_of_le (lt_expiredTime_of_isValid hValid)
        (policy.expiredTime_le_of_top hTop hNode)

/- Which connections the popped nodes name. -/
theorem mem_closed_iff
    {m : TimerManager}
    {policy : TopPolicy}
    {clock : Nat → Timeval}
    {id : ConnId} :
    id ∈ (m.handleExpiredEvent policy clock).2 ↔
      ∃ p ∈ (m.sweep policy clock).popped,
        p.node.spHttpData = some id := by
  rw [handleExpiredEvent_eq]
  simp only [List.mem_flatMap, Option.mem_toList]

theorem Sound.sweptExactly
    {m : TimerManager}
    (h : m.Sound)
    (hOne : m.OneLive)
    (policy : TopPolicy)
    (clock : Nat → Timeval) :
    m.SweptExactly policy clock := by
  have hSplit :=
    sweepLoop_perm policy clock m.timerNodeQueue.length 0
      m.timerNodeQueue
  have hStops :=
    sweepLoop_stops (k := 0) policy clock
      (Nat.le_refl m.timerNodeQueue.length)
  have hLive :
      ∀ p ∈ (m.sweep policy clock).popped,
        p.node.deleted = p.node.spHttpData.isNone := by
    intro p hMem
    apply h.live
    rw [hSplit.mem_iff]
    exact
      List.mem_append_left _
        (List.mem_map_of_mem hMem)
  have hNodup :
      (m.handleExpiredEvent policy clock).2.Nodup := by
    rcases
      handleExpiredEvent_parts h (h.addr_eq hOne) policy
        clock with
      ⟨left, closed, hEvent, _, _, _, _, _, hOnce⟩
    rw [hEvent]
    exact hOnce
  refine
    { left := by rw [handleExpiredEvent_eq]
      split := hSplit
      justified := sweepLoop_justified policy clock _ 0 _
      top := hStops
      unexpired := unexpired_of_stops hStops
      closed_once := ?_
      closed_only := ?_ }
  · intro p hMem hAlive
    have hNames := hLive p hMem
    rw [hAlive] at hNames
    rcases Option.isSome_iff_exists.mp
        (Option.isNone_eq_false_iff.mp hNames.symm) with
      ⟨id, hId⟩
    exact
      ⟨id, hId,
        List.count_eq_one_of_mem hNodup
          (mem_closed_iff.mpr ⟨p, hMem, hId⟩)⟩
  · intro id hClosed
    rcases mem_closed_iff.mp hClosed with ⟨p, hMem, hId⟩
    refine ⟨p, hMem, ?_, hId⟩
    rw [hLive p hMem, hId]
    rfl

end TimerManager

/-
  Every sweep of timers on which no connection has two live
  nodes is exact, whatever calls they come from, whichever
  of the nodes that expire first is on top and whatever the
  clock says.
-/
theorem sweep_exact
    {calls : List TimerCall}
    (hOne : (TimerManager.after calls).OneLive)
    (policy : TopPolicy)
    (clock : Nat → Timeval) :
    (TimerManager.after calls).SweptExactly policy clock :=
  (TimerManager.sound_after calls).sweptExactly hOne policy
    clock

/-
  A separated node, one that expires and one that does not.
-/
def threeNodes : List TimerCall :=
  [.addTimer 7 10 ⟨0, 0, Timeval.on_second⟩,
    .addTimer 8 20 ⟨0, 0, Timeval.on_second⟩,
    .addTimer 9 5000 ⟨0, 0, Timeval.on_second⟩, .clearReq 0]

theorem sweep_exact_three_nodes :
    (TimerManager.after threeNodes).SweptExactly .front
      fun _ => ⟨1, 0, by decide⟩ := by
  have hOne : (TimerManager.after threeNodes).OneLive := by
    show ∀ node ∈ _, _
    decide
  exact sweep_exact hOne .front _

end V3

end WebServer
