import Mathlib.Data.List.Nodup
import WebServer.V3.Net.EventLoop

/-
  Timers and the connections of a loop in version 3.0.

  A connection that stays idle is closed by its timer node,
  so every connection held in `fd2http_` needs a node that
  is not deleted. The handlers separate a connection from
  its node, and `handleConn` must link a new one on every
  branch that keeps the connection.

  This file settles when that holds in every state of a
  loop. One branch of `handleConn` links no timer: the one
  for a peer that has closed its side while output waits.

  Key definitions include:
    * `TimerManager.seperate`
    * `TimerManager.Sound`
    * `EventLoop.Covered`
    * `EventLoop.Linked`
    * `EventLoop.CoverageMeets`

  Key theorems include:
    * `Conn.sameTimer_handleEvents`
    * `TimerManager.handleExpiredEvent_parts`
    * `EventLoop.Linked.step`
    * `timers_covered_iff`
-/

------------------------------------------------------------
-- Coverage
------------------------------------------------------------

namespace WebServer

namespace V3

namespace EventLoop

/- Every connection held has a node that will close it. -/
def Covered
    (s : EventLoop) : Prop :=
  ∀ fd id, s.fd2http fd = some id →
    ∃ node ∈ s.timers.timerNodeQueue,
      node.deleted = false ∧ node.spHttpData = some id

/- The branch of `handleConn` without a timer is not taken. -/
def CoverageMeets
    (s : EventLoop)
    (e : LoopEvent) : Prop :=
  ∀ c, s.CallsHandleConn e c → ¬ c.HalfClosed

end EventLoop

end V3

end WebServer

------------------------------------------------------------
-- Separating A Timer
------------------------------------------------------------

namespace WebServer

namespace V3

namespace TimerManager

/- `seperateTimer()`, on the queue and the weak pointer. -/
def seperate
    (m : TimerManager)
    (timer : Option TimerAddr) :
    TimerManager × Option TimerAddr :=
  match timer with
  | none => (m, none)
  | some addr =>
      if m.holds addr then
        (m.clearReq addr, none)
      else
        (m, some addr)

/- A separated connection is not separated again. -/
theorem seperate_seperate
    (m : TimerManager)
    (timer : Option TimerAddr) :
    (m.seperate timer).1.seperate (m.seperate timer).2 =
      m.seperate timer := by
  cases timer with
  | none => rfl
  | some addr =>
      unfold seperate
      simp only
      split_ifs with hHolds
      · rfl
      · simp only [hHolds]
        rfl

end TimerManager

namespace Conn

theorem seperateTimer_eq
    (c : Conn) :
    c.seperateTimer =
      { c with
        http :=
          { c.http with
            timer := (c.timers.seperate c.http.timer).2 }
        timers := (c.timers.seperate c.http.timer).1 } := by
  unfold seperateTimer TimerManager.seperate
  cases hTimer : c.http.timer with
  | none =>
      simp only
      rw [← hTimer]
  | some addr =>
      simp only
      split_ifs
      · rfl
      · rw [← hTimer]

/- Separating leaves both connections with the same timers. -/
def SameTimer
    (c c' : Conn) : Prop :=
  c'.timers.seperate c'.http.timer =
    c.timers.seperate c.http.timer

theorem SameTimer.refl
    (c : Conn) :
    c.SameTimer c :=
  rfl

theorem SameTimer.trans
    {c₁ c₂ c₃ : Conn}
    (h₁ : c₁.SameTimer c₂)
    (h₂ : c₂.SameTimer c₃) :
    c₁.SameTimer c₃ :=
  Eq.trans h₂ h₁

theorem Onward.sameTimer
    {c c' : Conn}
    (h : c.Onward c') :
    c.SameTimer c' := by
  unfold SameTimer
  rw [h.timers, h.timer]

theorem sameTimer_askToWrite
    (c : Conn) :
    c.SameTimer c.askToWrite := by
  unfold askToWrite
  split_ifs
  · rfl
  · rfl

theorem sameTimer_handleWrite
    (c : Conn) :
    c.SameTimer c.handleWrite := by
  rcases c.handleWrite_cases with
    ⟨_, h⟩ | ⟨_, writes, sent, out, h⟩ |
      ⟨_, _, writes, sent, h⟩ <;>
    rw [h]
  · exact .refl c
  · exact sameTimer_askToWrite (c.wrote writes sent out)
  · exact
      sameTimer_askToWrite
        { c.wrote writes sent c.http.outBuffer with
          channel := c.channel.setEvents .none
          http := { c.http with error := true } }

theorem sameTimer_sendPending
    (c : Conn) :
    c.SameTimer c.sendPending := by
  unfold sendPending
  split_ifs
  · exact sameTimer_handleWrite c
  · exact .refl c

/- `reset` separates the timer and clears other fields. -/
theorem sameTimer_reset
    (c : Conn) :
    c.SameTimer c.reset := by
  unfold SameTimer reset
  rw [seperateTimer_eq]
  exact TimerManager.seperate_seperate _ _

theorem sameTimer_conclude
    (c : Conn) :
    c.SameTimer c.conclude.2 := by
  unfold conclude
  split_ifs
  · exact .refl c
  · exact sameTimer_reset c
  · rfl
  · exact .refl c

theorem sameTimer_pass
    {c c' : Conn}
    {fs : FileSystem}
    {again : Bool}
    (hPos : c.http.nowReadPos = 0)
    (h : c.pass fs = .ok (again, c')) :
    c.SameTimer c' := by
  rcases exists_stages h with ⟨c₁, hStages, hEnd⟩
  have hLast := sameTimer_conclude c₁.sendPending
  rw [hEnd] at hLast
  exact
    (onward_stages hPos hStages).sameTimer.trans
      ((sameTimer_sendPending c₁).trans hLast)

theorem sameTimer_handleRead
    {c c' : Conn}
    {fs : FileSystem}
    (hPos : c.http.nowReadPos = 0)
    (h : c.handleRead fs = .ok c') :
    c.SameTimer c' := by
  apply
    handleReadAt_rule
      (I := fun c₁ =>
        c₁.http.nowReadPos = 0 ∧ c.SameTimer c₁)
      (R := fun c₁ => c.SameTimer c₁) ?_ ?_
      ⟨hPos, .refl c⟩ h
  · rintro c₁ c₂ ⟨hPos₁, hSame⟩ hPass
    exact
      ⟨(later_pass hPos₁ hPass).nowReadPos hPos₁,
        hSame.trans (sameTimer_pass hPos₁ hPass)⟩
  · rintro c₁ c₂ ⟨hPos₁, hSame⟩ hPass
    exact hSame.trans (sameTimer_pass hPos₁ hPass)

/-
  Whatever the handlers do, `handleConn` separates the timer
  that the connection had.
-/
theorem sameTimer_handleEvents
    {c c' : Conn}
    {fs : FileSystem}
    {revents : Events}
    {handlerRan : Bool}
    (hPos : c.http.nowReadPos = 0)
    (h : c.handleEvents fs revents = .ok (handlerRan, c')) :
    c.SameTimer c' := by
  have hClear : c.SameTimer c.clearEvents := rfl
  rcases handleEvents_cases h with
    ⟨_, rfl⟩ | ⟨_, c₁, hRead, rfl⟩
  · exact hClear
  · have hSame : c.SameTimer c₁ := by
      rcases hRead with ⟨_, hCall⟩ | ⟨_, rfl⟩
      · have hPos₀ : c.clearEvents.http.nowReadPos = 0 :=
          hPos
        exact hClear.trans (sameTimer_handleRead hPos₀ hCall)
      · exact hClear
    split_ifs
    · exact hSame.trans (sameTimer_handleWrite c₁)
    · exact hSame

end Conn

end V3

end WebServer

------------------------------------------------------------
-- Operations On The Queue
------------------------------------------------------------

namespace WebServer

namespace V3

namespace TimerManager

/-
  A node is deleted exactly when it has dropped its
  connection, and no two nodes share an address.
-/
structure Sound
    (m : TimerManager) : Prop where
  live :
    ∀ node ∈ m.timerNodeQueue,
      node.deleted = node.spHttpData.isNone
  addrs : (m.timerNodeQueue.map TimerNode.addr).Nodup
  fresh :
    ∀ node ∈ m.timerNodeQueue, node.addr < m.nextAddr

theorem sound_new :
    new.Sound where
  live := fun _ hNode => nomatch hNode
  addrs := List.nodup_nil
  fresh := fun _ hNode => nomatch hNode

theorem mem_clearReq
    {m : TimerManager}
    {addr : TimerAddr}
    {node : TimerNode} :
    node ∈ (m.clearReq addr).timerNodeQueue ↔
      (∃ old ∈ m.timerNodeQueue,
        old.addr = addr ∧ node = old.clearReq) ∨
        (node ∈ m.timerNodeQueue ∧ node.addr ≠ addr) := by
  unfold clearReq
  simp only [List.mem_map]
  constructor
  · rintro ⟨old, hOld, rfl⟩
    split_ifs with hAddr
    · exact .inl ⟨old, hOld, hAddr, rfl⟩
    · exact .inr ⟨hOld, hAddr⟩
  · rintro (⟨old, hOld, hAddr, rfl⟩ | ⟨hNode, hAddr⟩)
    · exact ⟨old, hOld, if_pos hAddr⟩
    · exact ⟨node, hNode, if_neg hAddr⟩

theorem Sound.clearReq
    {m : TimerManager}
    (h : m.Sound)
    (addr : TimerAddr) :
    (m.clearReq addr).Sound := by
  have hAddrs :
      (m.clearReq addr).timerNodeQueue.map TimerNode.addr =
        m.timerNodeQueue.map TimerNode.addr := by
    unfold TimerManager.clearReq
    rw [List.map_map]
    apply List.map_congr_left
    intro node _
    simp only [Function.comp_apply]
    split_ifs
    · exact node.clearReq_addr
    · rfl
  refine ⟨?_, hAddrs ▸ h.addrs, ?_⟩
  · intro node hNode
    rcases mem_clearReq.mp hNode with
      ⟨old, _, _, rfl⟩ | ⟨hOld, _⟩
    · rfl
    · exact h.live node hOld
  · intro node hNode
    rcases mem_clearReq.mp hNode with
      ⟨old, hOld, _, rfl⟩ | ⟨hOld, _⟩
    · exact h.fresh old hOld
    · exact h.fresh node hOld

theorem Sound.addTimer
    {m : TimerManager}
    (h : m.Sound)
    (id : ConnId)
    (timeout : Nat)
    (now : Timeval) :
    (m.addTimer id timeout now).1.Sound := by
  refine ⟨?_, ?_, ?_⟩
  · intro node hNode
    rcases List.mem_cons.mp hNode with rfl | hOld
    · rfl
    · exact h.live node hOld
  · refine List.nodup_cons.mpr ⟨?_, h.addrs⟩
    intro hMem
    rcases List.mem_map.mp hMem with ⟨node, hNode, hAddr⟩
    exact Nat.ne_of_lt (h.fresh node hNode) hAddr
  · intro node hNode
    rcases List.mem_cons.mp hNode with rfl | hOld
    · exact Nat.lt_succ_self _
    · exact Nat.lt_succ_of_lt (h.fresh node hOld)

/- Two nodes of one address are the same node. -/
theorem Sound.eq_of_addr
    {m : TimerManager}
    {node node' : TimerNode}
    (h : m.Sound)
    (hNode : node ∈ m.timerNodeQueue)
    (hNode' : node' ∈ m.timerNodeQueue)
    (hAddr : node.addr = node'.addr) :
    node = node' :=
  List.inj_on_of_nodup_map h.addrs hNode hNode' hAddr

/- A node that still names a connection was not separated. -/
theorem mem_of_seperate
    {m : TimerManager}
    {timer : Option TimerAddr}
    {node : TimerNode}
    {id : ConnId}
    (hNode : node ∈ (m.seperate timer).1.timerNodeQueue)
    (hNames : node.spHttpData = some id) :
    node ∈ m.timerNodeQueue ∧ timer ≠ some node.addr := by
  unfold seperate at hNode
  cases timer with
  | none => exact ⟨hNode, nofun⟩
  | some addr =>
      simp only at hNode
      split_ifs at hNode with hHolds
      · rcases mem_clearReq.mp hNode with
          ⟨old, _, _, rfl⟩ | ⟨hOld, hAddr⟩
        · cases hNames
        · refine ⟨hOld, ?_⟩
          intro hSame
          exact hAddr (Option.some.inj hSame).symm
      · refine ⟨hNode, ?_⟩
        intro hSame
        have hAddr := (Option.some.inj hSame).symm
        exact
          hHolds
            (List.any_eq_true.mpr
              ⟨node, hNode, beq_iff_eq.mpr hAddr⟩)

theorem Sound.seperate
    {m : TimerManager}
    (h : m.Sound)
    (timer : Option TimerAddr) :
    (m.seperate timer).1.Sound := by
  unfold TimerManager.seperate
  cases timer with
  | none => exact h
  | some addr =>
      simp only
      split_ifs
      · exact h.clearReq addr
      · exact h

theorem seperate_nextAddr
    (m : TimerManager)
    (timer : Option TimerAddr) :
    (m.seperate timer).1.nextAddr = m.nextAddr := by
  unfold seperate
  cases timer with
  | none => rfl
  | some addr =>
      simp only
      split_ifs <;> rfl

/-
  `handleExpiredEvent` splits the queue into the nodes it
  pops and those it leaves, and closes what the popped nodes
  refer to.
-/
theorem handleExpiredLoop_pops
    (policy : TopPolicy)
    (clock : Nat → Timeval)
    (fuel k : Nat)
    (q : List TimerNode) :
    ∃ popped,
      q.Perm
          (popped ++
            (handleExpiredLoop policy clock fuel k q).1) ∧
        (handleExpiredLoop policy clock fuel k q).2 =
          popped.flatMap
            fun node => node.spHttpData.toList := by
  have hPop : ∀ {node : TimerNode} {q q' popped},
      policy.top q = some node →
        (q.erase node).Perm (popped ++ q') →
          q.Perm (node :: popped ++ q') := by
    intro node q q' popped hTop hRest
    have hMem := policy.top_mem q node hTop
    exact
      (List.perm_cons_erase hMem).trans (hRest.cons node)
  induction fuel generalizing k q with
  | zero => exact ⟨[], List.Perm.refl q, rfl⟩
  | succ fuel ih =>
      unfold handleExpiredLoop
      cases hTop : policy.top q with
      | none => exact ⟨[], List.Perm.refl q, rfl⟩
      | some node =>
          simp only
          split_ifs with hDeleted hExpired
          · rcases ih k (q.erase node) with
              ⟨popped, hPerm, hClosed⟩
            refine ⟨node :: popped, hPop hTop hPerm, ?_⟩
            rw [List.flatMap_cons, hClosed]
          · rcases ih (k + 1) (q.erase node) with
              ⟨popped, hPerm, hClosed⟩
            refine ⟨node :: popped, hPop hTop hPerm, ?_⟩
            rw [List.flatMap_cons, hClosed]
          · exact ⟨[], List.Perm.refl q, rfl⟩

/- The expiry check adds no node. -/
theorem mem_of_handleExpiredEvent
    {m : TimerManager}
    {policy : TopPolicy}
    {clock : Nat → Timeval}
    {node : TimerNode}
    (hNode :
      node ∈
        (m.handleExpiredEvent policy
          clock).1.timerNodeQueue) :
    node ∈ m.timerNodeQueue := by
  rcases
    handleExpiredLoop_pops policy clock
      m.timerNodeQueue.length 0 m.timerNodeQueue with
    ⟨popped, hPerm, _⟩
  exact hPerm.mem_iff.mpr (List.mem_append_right _ hNode)

/-
  What `handleExpiredEvent` closes: connections that a node
  named, each once, and no node left names one of them.
-/
theorem handleExpiredEvent_parts
    {m : TimerManager}
    (hSound : m.Sound)
    (hSame :
      ∀ node ∈ m.timerNodeQueue,
        ∀ node' ∈ m.timerNodeQueue,
          ∀ id, node.spHttpData = some id →
            node'.spHttpData = some id →
              node.addr = node'.addr)
    (policy : TopPolicy)
    (clock : Nat → Timeval) :
    ∃ left closed,
      m.handleExpiredEvent policy clock =
          ({ m with timerNodeQueue := left }, closed) ∧
        { m with timerNodeQueue := left }.Sound ∧
        (∀ node ∈ left, node ∈ m.timerNodeQueue) ∧
        (∀ node ∈ left, ∀ id,
          node.spHttpData = some id → id ∉ closed) ∧
        (∀ node ∈ m.timerNodeQueue, ∀ id,
          node.spHttpData = some id →
            id ∈ closed ∨ node ∈ left) ∧
        (∀ id ∈ closed, ∃ node ∈ m.timerNodeQueue,
          node.spHttpData = some id) ∧
        closed.Nodup := by
  rcases
    handleExpiredLoop_pops policy clock
      m.timerNodeQueue.length 0 m.timerNodeQueue with
    ⟨popped, hPerm, hClosed⟩
  obtain ⟨left, hLeft⟩ : ∃ left,
      left =
        (handleExpiredLoop policy clock
          m.timerNodeQueue.length 0 m.timerNodeQueue).1 :=
    ⟨_, rfl⟩
  have hEvent :
      m.handleExpiredEvent policy clock =
        ({ m with timerNodeQueue := left },
          popped.flatMap
            fun node => node.spHttpData.toList) := by
    rw [hLeft, ← hClosed]
    rfl
  rw [← hLeft] at hPerm
  have hMem : ∀ node, node ∈ m.timerNodeQueue ↔
      node ∈ popped ∨ node ∈ left := by
    intro node
    rw [hPerm.mem_iff, List.mem_append]
  have hAddrs :
      (popped.map TimerNode.addr ++
        left.map TimerNode.addr).Nodup := by
    rw [← List.map_append]
    exact (hPerm.map TimerNode.addr).nodup_iff.mp
      hSound.addrs
  have hParts := List.nodup_append.mp hAddrs
  have hNamed : ∀ id,
      id ∈ popped.flatMap
          (fun node => node.spHttpData.toList) ↔
        ∃ node ∈ popped, node.spHttpData = some id := by
    intro id
    simp only [List.mem_flatMap, Option.mem_toList]
  refine ⟨left, _, hEvent, ?_, ?_, ?_, ?_, ?_, ?_⟩
  · refine ⟨?_, hParts.2.1, ?_⟩
    · intro node hNode
      exact hSound.live node ((hMem node).mpr (.inr hNode))
    · intro node hNode
      exact hSound.fresh node ((hMem node).mpr (.inr hNode))
  · intro node hNode
    exact (hMem node).mpr (.inr hNode)
  · intro node hNode id hNames hPopped
    rcases (hNamed id).mp hPopped with
      ⟨node', hNode', hNames'⟩
    have hAddr :=
      hSame node' ((hMem node').mpr (.inl hNode')) node
        ((hMem node).mpr (.inr hNode)) id hNames' hNames
    exact
      hParts.2.2 _ (List.mem_map_of_mem hNode') _
        (List.mem_map_of_mem hNode) hAddr
  · intro node hNode id hNames
    rcases (hMem node).mp hNode with hPopped | hStays
    · exact .inl ((hNamed id).mpr ⟨node, hPopped, hNames⟩)
    · exact .inr hStays
  · intro id hPopped
    rcases (hNamed id).mp hPopped with
      ⟨node, hNode, hNames⟩
    exact ⟨node, (hMem node).mpr (.inl hNode), hNames⟩
  · refine List.nodup_flatMap.mpr ⟨?_, ?_⟩
    · intro node _
      cases node.spHttpData with
      | none => exact List.nodup_nil
      | some id => exact List.nodup_singleton id
    · have hApart := List.pairwise_map.mp hParts.1
      refine hApart.imp_of_mem ?_
      intro node node' hNode hNode' hNe id hLeftId hRightId
      refine
        hNe
          (hSame node ((hMem node).mpr (.inl hNode)) node'
            ((hMem node').mpr (.inl hNode')) id ?_ ?_)
      · simpa using hLeftId
      · simpa using hRightId

end TimerManager

end V3

end WebServer

------------------------------------------------------------
-- Connections And Their Nodes
------------------------------------------------------------

namespace WebServer

namespace V3

namespace EventLoop

/-
  Every connection held is linked to a node that refers to
  it, but for those in `due`: they are held without a timer
  and wait to be linked again or closed.
-/
structure Linked
    (s : EventLoop)
    (due : List ConnId) : Prop where
  sound : s.timers.Sound
  held :
    ∀ fd id, s.fd2http fd = some id → id ∉ due →
      ∃ node ∈ s.timers.timerNodeQueue,
        node.spHttpData = some id
  node :
    ∀ node ∈ s.timers.timerNodeQueue,
      ∀ id, node.spHttpData = some id →
        id ∉ due ∧
          ∃ obj,
            s.objects id = some obj ∧
              s.fd2http obj.fd = some id ∧
              obj.http.timer = some node.addr
  waits :
    ∀ id ∈ due, ∃ obj,
      s.objects id = some obj ∧ s.fd2http obj.fd = some id
  nodup : due.Nodup

theorem linked_new :
    new.Linked [] where
  sound := TimerManager.sound_new
  held := by
    intro fd id h
    cases h
  node := by
    intro node h
    cases h
  waits := by
    intro id h
    cases h
  nodup := List.nodup_nil

/- With nothing due, every connection held is covered. -/
theorem Linked.covered
    {s : EventLoop}
    (h : s.Linked []) :
    s.Covered := by
  intro fd id hHeld
  rcases h.held fd id hHeld List.not_mem_nil with
    ⟨node, hNode, hNames⟩
  refine ⟨node, hNode, ?_, hNames⟩
  rw [h.sound.live node hNode, hNames]
  rfl

/- A connection held without a timer is not covered. -/
theorem Linked.not_covered
    {s : EventLoop}
    {id : ConnId}
    {due : List ConnId}
    (h : s.Linked due)
    (hDue : id ∈ due) :
    ¬ s.Covered := by
  intro hCovered
  rcases h.waits id hDue with ⟨obj, _, hHeld⟩
  rcases hCovered obj.fd id hHeld with
    ⟨node, hNode, _, hNames⟩
  exact (h.node node hNode id hNames).1 hDue

/- The kernel's table and the channels do not matter. -/
theorem Linked.reregister
    {s : EventLoop}
    {due : List ConnId}
    (h : s.Linked due)
    (epoll : Fd → Option Registration) :
    { s with epoll := epoll }.Linked due where
  sound := h.sound
  held := h.held
  node := h.node
  waits := h.waits
  nodup := h.nodup

/-
  An object may change freely while it is due, and in all
  but its descriptor and its timer at any time.
-/
theorem Linked.put
    {s : EventLoop}
    {due : List ConnId}
    {id : ConnId}
    {old obj : HttpObject}
    (h : s.Linked due)
    (hOld : s.objects id = some old)
    (hFd : obj.fd = old.fd)
    (hTimer :
      id ∈ due ∨ obj.http.timer = old.http.timer) :
    (s.put id obj).Linked due where
  sound := h.sound
  held := h.held
  node := by
    intro node hNode id' hNames
    rcases h.node node hNode id' hNames with
      ⟨hNot, obj', hObj, hHeld, hLink⟩
    refine ⟨hNot, ?_⟩
    by_cases hSame : id' = id
    · subst hSame
      rw [hOld] at hObj
      cases hObj
      rcases hTimer with hDue | hTimer
      · exact absurd hDue hNot
      · exact
          ⟨obj, Function.update_self _ _ _, hFd ▸ hHeld,
            hTimer.trans hLink⟩
    · exact
        ⟨obj', (Function.update_of_ne hSame _ _).trans hObj,
          hHeld, hLink⟩
  waits := by
    intro id' hDue
    rcases h.waits id' hDue with ⟨obj', hObj, hHeld⟩
    by_cases hSame : id' = id
    · subst hSame
      rw [hOld] at hObj
      cases hObj
      exact
        ⟨obj, Function.update_self _ _ _, hFd ▸ hHeld⟩
    · exact
        ⟨obj', (Function.update_of_ne hSame _ _).trans hObj,
          hHeld⟩
  nodup := h.nodup

/- Separating its timer makes a connection due. -/
theorem Linked.seperate
    {s : EventLoop}
    {id : ConnId}
    {obj : HttpObject}
    (h : s.Linked [])
    (hObj : s.objects id = some obj)
    (hHeld : s.fd2http obj.fd = some id) :
    { s with
      timers :=
        (s.timers.seperate obj.http.timer).1 }.Linked
      [id] := by
  rcases h.held obj.fd id hHeld List.not_mem_nil with
    ⟨node, hNode, hNames⟩
  have hTimer : obj.http.timer = some node.addr := by
    rcases h.node node hNode id hNames with
      ⟨_, obj', hObj', _, hTimer⟩
    rw [hObj] at hObj'
    cases hObj'
    exact hTimer
  have hHolds : s.timers.holds node.addr = true :=
    List.any_eq_true.mpr
      ⟨node, hNode, beq_self_eq_true node.addr⟩
  have hSeperate :
      (s.timers.seperate obj.http.timer).1 =
        s.timers.clearReq node.addr := by
    rw [hTimer]
    simp [TimerManager.seperate, hHolds]
  rw [hSeperate]
  refine
    ⟨h.sound.clearReq node.addr, ?_, ?_, ?_,
      List.nodup_singleton id⟩
  · intro fd id' hHeld' hNot
    rcases h.held fd id' hHeld' List.not_mem_nil with
      ⟨other, hOther, hNames'⟩
    refine
      ⟨other,
        TimerManager.mem_clearReq.mpr (.inr ⟨hOther, ?_⟩),
        hNames'⟩
    intro hAddr
    have hEq := h.sound.eq_of_addr hOther hNode hAddr
    rw [hEq, hNames] at hNames'
    cases hNames'
    exact hNot List.mem_cons_self
  · intro other hOther id' hNames'
    rcases TimerManager.mem_clearReq.mp hOther with
      ⟨old, _, _, rfl⟩ | ⟨hOther', hAddr⟩
    · cases hNames'
    · rcases h.node other hOther' id' hNames' with
        ⟨_, obj', hObj', hHeld', hTimer'⟩
      refine ⟨?_, obj', hObj', hHeld', hTimer'⟩
      intro hMem
      have hSame := List.mem_singleton.mp hMem
      subst hSame
      rw [hObj] at hObj'
      cases hObj'
      rw [hTimer] at hTimer'
      exact hAddr (Option.some.inj hTimer').symm
  · intro id' hMem
    have hSame := List.mem_singleton.mp hMem
    subst hSame
    exact ⟨obj, hObj, hHeld⟩

/- A new timer covers the connection that was due. -/
theorem Linked.addTimer
    {s : EventLoop}
    {id : ConnId}
    {obj : HttpObject}
    (h : s.Linked [id])
    (hObj : s.objects id = some obj)
    (hTimer : obj.http.timer = some s.timers.nextAddr)
    (timeout : Nat)
    (now : Timeval) :
    { s with
      timers :=
        (s.timers.addTimer id timeout now).1 }.Linked
      [] := by
  have hHeld : s.fd2http obj.fd = some id := by
    rcases h.waits id List.mem_cons_self with
      ⟨obj', hObj', hHeld⟩
    rw [hObj] at hObj'
    cases hObj'
    exact hHeld
  refine
    ⟨h.sound.addTimer id timeout now, ?_, ?_, ?_,
      List.nodup_nil⟩
  · intro fd id' hHeld' _
    by_cases hSame : id' = id
    · subst hSame
      exact ⟨_, List.mem_cons_self, rfl⟩
    · have hNot : id' ∉ [id] := by
        simpa using hSame
      rcases h.held fd id' hHeld' hNot with
        ⟨node, hNode, hNames⟩
      exact ⟨node, List.mem_cons_of_mem _ hNode, hNames⟩
  · intro node hNode id' hNames
    refine ⟨List.not_mem_nil, ?_⟩
    rcases List.mem_cons.mp hNode with rfl | hOld
    · cases hNames
      exact ⟨obj, hObj, hHeld, hTimer⟩
    · exact (h.node node hOld id' hNames).2
  · intro id' hMem
    cases hMem

/- Closing a connection that is due. -/
theorem Linked.handleClose
    {s : EventLoop}
    {id : ConnId}
    {due : List ConnId}
    {old obj : HttpObject}
    (h : s.Linked (id :: due))
    (hWired : s.Wired)
    (hOld : s.objects id = some old)
    (hFd : obj.fd = old.fd) :
    (s.handleClose id obj).Linked due := by
  have hDue := List.nodup_cons.mp h.nodup
  have hHeld : s.fd2http obj.fd = some id := by
    rcases h.waits id List.mem_cons_self with
      ⟨obj', hObj', hHeld⟩
    rw [hOld] at hObj'
    cases hObj'
    rw [hFd]
    exact hHeld
  -- what the other connections have is not touched
  have hOther : ∀ id' obj', id' ≠ id →
      s.objects id' = some obj' →
        s.fd2http obj'.fd = some id' →
          (s.handleClose id obj).objects id' = some obj' ∧
            (s.handleClose id obj).fd2http obj'.fd =
              some id' := by
    intro id' obj' hNe hObj' hHeld'
    refine
      ⟨(Function.update_of_ne hNe _ _).trans hObj', ?_⟩
    have hFd' : obj'.fd ≠ obj.fd := by
      intro hSame
      rw [hSame, hHeld] at hHeld'
      exact hNe (Option.some.inj hHeld').symm
    exact (Function.update_of_ne hFd' _ _).trans hHeld'
  refine ⟨h.sound, ?_, ?_, ?_, hDue.2⟩
  · intro fd id' hHeld' hNot
    change Function.update s.fd2http obj.fd none fd =
      some id' at hHeld'
    by_cases hSame : fd = obj.fd
    · subst hSame
      rw [Function.update_self] at hHeld'
      cases hHeld'
    · rw [Function.update_of_ne hSame] at hHeld'
      refine h.held fd id' hHeld' ?_
      intro hMem
      rcases List.mem_cons.mp hMem with rfl | hLater
      · rcases hWired.object fd id' hHeld' with
          ⟨obj', hObj', hFd'⟩
        rw [hOld] at hObj'
        cases hObj'
        exact hSame (hFd'.symm.trans hFd.symm)
      · exact hNot hLater
  · intro node hNode id' hNames
    rcases h.node node hNode id' hNames with
      ⟨hNot, obj', hObj', hHeld', hTimer⟩
    have hNe := List.ne_of_not_mem_cons hNot
    have hKept := hOther id' obj' hNe hObj' hHeld'
    exact
      ⟨List.not_mem_of_not_mem_cons hNot, obj', hKept.1,
        hKept.2, hTimer⟩
  · intro id' hMem
    rcases h.waits id' (List.mem_cons_of_mem _ hMem) with
      ⟨obj', hObj', hHeld'⟩
    have hNe : id' ≠ id := by
      intro hSame
      exact hDue.1 (hSame ▸ hMem)
    exact ⟨obj', hOther id' obj' hNe hObj' hHeld'⟩

/- A new connection is due until its timer is added. -/
theorem Linked.newEvent
    {s : EventLoop}
    {fd : Fd}
    (h : s.Linked [])
    (hWired : s.Wired)
    (hUnused : s.Unused fd)
    (now : Timeval) :
    (s.newEvent fd now).Linked [] := by
  have hFree := hWired.slots.fd2http_of_unused hUnused
  rw [newEvent_eq (hWired.epoll_of_unused hUnused),
    EventLoop.opened]
  obtain ⟨opened, hOpened⟩ : ∃ opened : EventLoop,
      opened =
        { s with
          objects :=
            Function.update s.objects s.nextId
              (some
                (HttpObject.opened fd s.timers.nextAddr))
          fd2http :=
            Function.update s.fd2http fd (some s.nextId) } :=
    ⟨_, rfl⟩
  have hNew :
      opened.objects s.nextId =
        some (.opened fd s.timers.nextAddr) := by
    rw [hOpened]
    exact Function.update_self _ _ _
  have hNewHeld : opened.fd2http fd = some s.nextId := by
    rw [hOpened]
    exact Function.update_self _ _ _
  have hLinked : opened.Linked [s.nextId] := by
    refine ⟨?_, ?_, ?_, ?_, List.nodup_singleton _⟩
    · rw [hOpened]
      exact h.sound
    · intro fd' id hHeld hNot
      rw [hOpened] at hHeld ⊢
      simp only at hHeld ⊢
      by_cases hSame : fd' = fd
      · subst hSame
        rw [Function.update_self] at hHeld
        cases hHeld
        exact absurd List.mem_cons_self hNot
      · rw [Function.update_of_ne hSame] at hHeld
        exact h.held fd' id hHeld List.not_mem_nil
    · intro node hNode id hNames
      rw [hOpened] at hNode ⊢
      simp only
      rcases h.node node hNode id hNames with
        ⟨_, obj, hObj, hHeld, hTimer⟩
      have hNe : id ≠ s.nextId :=
        Nat.ne_of_lt (hWired.known id obj hObj).1
      have hFd : obj.fd ≠ fd := by
        intro hSame
        rw [hSame, hFree] at hHeld
        cases hHeld
      refine ⟨by simpa using hNe, obj, ?_, ?_, hTimer⟩
      · rw [Function.update_of_ne hNe]
        exact hObj
      · rw [Function.update_of_ne hFd]
        exact hHeld
    · intro id hMem
      have hSame := List.mem_singleton.mp hMem
      subst hSame
      exact ⟨_, hNew, hNewHeld⟩
  have hTimers : opened.timers = s.timers := by
    rw [hOpened]
  have hDone :=
    hLinked.addTimer hNew (by rw [hTimers]; rfl)
      defaultExpiredTime now
  rw [hOpened] at hDone
  exact ⟨hDone.sound, hDone.held, hDone.node, hDone.waits,
    hDone.nodup⟩

end EventLoop

end V3

end WebServer

------------------------------------------------------------
-- Expiry
------------------------------------------------------------

namespace WebServer

namespace V3

namespace EventLoop

/- The nodes popped leave their connections due. -/
theorem Linked.expire
    {s : EventLoop}
    (h : s.Linked [])
    (policy : TopPolicy)
    (clock : Nat → Timeval) :
    { s with
      timers :=
        (s.timers.handleExpiredEvent policy clock).1 }.Linked
      (s.timers.handleExpiredEvent policy clock).2 := by
  -- two nodes that name one connection share its link
  have hSame : ∀ node ∈ s.timers.timerNodeQueue,
      ∀ node' ∈ s.timers.timerNodeQueue,
        ∀ id, node.spHttpData = some id →
          node'.spHttpData = some id →
            node.addr = node'.addr := by
    intro node hNode node' hNode' id hNames hNames'
    rcases h.node node hNode id hNames with
      ⟨_, obj, hObj, _, hTimer⟩
    rcases h.node node' hNode' id hNames' with
      ⟨_, obj', hObj', _, hTimer'⟩
    rw [hObj] at hObj'
    cases hObj'
    rw [hTimer] at hTimer'
    exact Option.some.inj hTimer'
  rcases
    TimerManager.handleExpiredEvent_parts h.sound hSame
      policy clock with
    ⟨left, closed, hEvent, hSound, hSub, hApart, hSplit,
      hNamed, hNodup⟩
  rw [hEvent]
  refine ⟨hSound, ?_, ?_, ?_, hNodup⟩
  · intro fd id hHeld hNot
    rcases h.held fd id hHeld List.not_mem_nil with
      ⟨node, hNode, hNames⟩
    rcases hSplit node hNode id hNames with
      hPopped | hStays
    · exact absurd hPopped hNot
    · exact ⟨node, hStays, hNames⟩
  · intro node hNode id hNames
    exact
      ⟨hApart node hNode id hNames,
        (h.node node (hSub node hNode) id hNames).2⟩
  · intro id hPopped
    rcases hNamed id hPopped with ⟨node, hNode, hNames⟩
    rcases h.node node hNode id hNames with
      ⟨_, obj, hObj, hHeld, _⟩
    exact ⟨obj, hObj, hHeld⟩

/- The connections due are closed one after another. -/
theorem Linked.closeAll
    {s : EventLoop}
    {due : List ConnId}
    (h : s.Linked due)
    (hWired : s.Wired) :
    (due.foldl EventLoop.closeExpired s).Linked [] := by
  induction due generalizing s with
  | nil => exact h
  | cons id due ih =>
      refine ih ?_ (hWired.closeExpired id)
      rcases h.waits id List.mem_cons_self with ⟨obj, hObj, _⟩
      unfold EventLoop.closeExpired
      rw [hObj]
      exact h.handleClose hWired hObj rfl

theorem Linked.handleExpired
    {s : EventLoop}
    (h : s.Linked [])
    (hWired : s.Wired)
    (policy : TopPolicy)
    (clock : Nat → Timeval) :
    (s.handleExpired policy clock).Linked [] :=
  (h.expire policy clock).closeAll (hWired.setTimers _)

end EventLoop

end V3

end WebServer

------------------------------------------------------------
-- One Step
------------------------------------------------------------

namespace WebServer

namespace V3

namespace EventLoop

/-
  `handleConn` covers the connection or closes it, except
  that its half-closed branch leaves it due.
-/
theorem Linked.handleConn
    {s : EventLoop}
    {id : ConnId}
    {obj : HttpObject}
    {reg : Registration}
    {c : Conn}
    (h : s.Linked [])
    (hWired : s.Wired)
    (hObj : s.objects id = some obj)
    (hHeld : s.fd2http obj.fd = some id)
    (hReg : s.epoll obj.fd = some reg)
    (hSame :
      c.timers.seperate c.http.timer =
        s.timers.seperate obj.http.timer)
    (now : Timeval) :
    (s.handleConn id obj c now).Linked [] ∨
      (c.HalfClosed ∧
        (s.handleConn id obj c now).Linked [id]) := by
  have hTimers :
      c.seperateTimer.timers =
        (s.timers.seperate obj.http.timer).1 := by
    rw [c.seperateTimer_eq, ← hSame]
  have hDue := h.seperate hObj hHeld
  rw [← hTimers] at hDue
  rcases handleConn_cases hReg id c now with
    ⟨_, _, timeout, hCase⟩ | ⟨hHalf, hCase⟩ | ⟨_, hCase⟩
  · left
    rw [hCase]
    obtain ⟨next, hNext⟩ : ∃ next,
        next =
          obj.updated c c.seperateTimer.timers.nextAddr :=
      ⟨_, rfl⟩
    have hFd : next.fd = obj.fd := by
      rw [hNext]
      rfl
    have hLink :
        next.http.timer =
          some c.seperateTimer.timers.nextAddr := by
      rw [hNext]
      rfl
    rw [← hNext]
    have hPut :=
      hDue.put hObj hFd (.inl List.mem_cons_self)
    have hDone :=
      hPut.addTimer (Function.update_self _ _ _) hLink
        timeout now
    exact hDone.reregister _
  · right
    rw [hCase]
    exact
      ⟨hHalf, hDue.put hObj rfl (.inl List.mem_cons_self)⟩
  · left
    rw [hCase]
    exact
      hDue.handleClose (hWired.setTimers _) hObj rfl

/- What one reported event does to the timers. -/
theorem Linked.handleEvents
    {s t : EventLoop}
    {fd : Fd}
    {revents : Events}
    {fs : FileSystem}
    {reads : List ReadResult}
    {writes : List WriteResult}
    {now : Timeval}
    {reg : Registration}
    (h : s.Linked [])
    (hWired : s.Wired)
    (hReg : s.epoll fd = some reg)
    (hStep :
      s.handleEvents fd revents fs reads writes now = some t) :
    t.Linked [] ∨
      ∃ c id,
        s.CallsHandleConn
            (.handleEvents fd revents fs reads writes now)
            c ∧
          c.HalfClosed ∧
          t.Linked [id] := by
  rcases hWired.handleEvents_cases hReg hStep with
    ⟨id, obj, c, hHeld, hObj, hFd, hCase⟩
  have hPos := (hWired.known id obj hObj).2
  rcases hCase with ⟨hCall, rfl⟩ | ⟨hCall, rfl⟩
  · left
    have hClear :
        c = (obj.conn s.timers reads writes).clearEvents := by
      rcases Conn.handleEvents_cases hCall with
        ⟨_, hEq⟩ | ⟨hRan, _⟩
      · exact hEq
      · cases hRan
    rw [hClear]
    have hReported : (s.report fd).Linked [] :=
      h.reregister _
    exact hReported.put hObj rfl (.inr rfl)
  · have hSame := Conn.sameTimer_handleEvents hPos hCall
    have hReported : (s.report fd).Linked [] :=
      h.reregister _
    have hReg' :
        (s.report fd).epoll obj.fd = some reg.reported := by
      rw [report_eq hReg, hFd]
      exact Function.update_self _ _ _
    rcases
      hReported.handleConn (hWired.report hReg) hObj
        (hFd ▸ hHeld) hReg' hSame now with
      hDone | ⟨hHalf, hDue⟩
    · exact .inl hDone
    · exact
        .inr
          ⟨c, id,
            ⟨id, obj, (hWired.channel fd).trans hHeld, hObj,
              hCall⟩,
            hHalf, hDue⟩

/- A step that meets the condition leaves nothing due. -/
theorem Linked.step
    {s t : EventLoop}
    {e : LoopEvent}
    (h : s.Linked [])
    (hWired : s.Wired)
    (hEnabled : eventLoop.enabled s e)
    (hMeets : s.CoverageMeets e)
    (hStep : eventLoop.step s e = some t) :
    t.Linked [] := by
  cases e with
  | newEvent fd now =>
      cases hStep
      exact h.newEvent hWired hEnabled now
  | handleEvents fd revents fs reads writes now =>
      rcases hEnabled with ⟨reg, hReg, _⟩
      rcases h.handleEvents hWired hReg hStep with
        hDone | ⟨c, _, hCalls, hHalf, _⟩
      · exact hDone
      · exact absurd hHalf (hMeets c hCalls)
  | handleExpired policy clock =>
      cases hStep
      exact h.handleExpired hWired policy clock

/- A step without it holds a connection with no timer. -/
theorem Linked.step_not
    {s : EventLoop}
    {e : LoopEvent}
    (h : s.Linked [])
    (hWired : s.Wired)
    (hEnabled : eventLoop.enabled s e)
    (hNot : ¬ s.CoverageMeets e) :
    ∃ t, eventLoop.step s e = some t ∧ ¬ t.Covered := by
  unfold CoverageMeets at hNot
  push Not at hNot
  rcases hNot with ⟨c, hCalls, hHalf⟩
  cases e with
  | newEvent fd now => cases hCalls
  | handleExpired policy clock => cases hCalls
  | handleEvents fd revents fs reads writes now =>
      rcases hEnabled with ⟨reg, hReg, _⟩
      rcases hCalls with ⟨id, obj, hChan, hObj, hCall⟩
      refine
        ⟨_, handleEvents_of_calls hChan hObj hCall now, ?_⟩
      have hHeld := (hWired.channel fd).symm.trans hChan
      have hFd : obj.fd = fd := by
        rcases hWired.object fd id hHeld with
          ⟨obj', hObj', hFd⟩
        rw [hObj] at hObj'
        cases hObj'
        exact hFd
      have hPos := (hWired.known id obj hObj).2
      have hSame := Conn.sameTimer_handleEvents hPos hCall
      have hReported : (s.report fd).Linked [] :=
        h.reregister _
      have hReg' :
          (s.report fd).epoll obj.fd =
            some reg.reported := by
        rw [report_eq hReg, hFd]
        exact Function.update_self _ _ _
      have hTimers :
          c.seperateTimer.timers =
            (s.timers.seperate obj.http.timer).1 := by
        rw [c.seperateTimer_eq]
        exact congrArg Prod.fst hSame
      have hDue := hReported.seperate hObj (hFd ▸ hHeld)
      have hDue' :
          { s.report fd with
            timers := c.seperateTimer.timers }.Linked
            [id] := by
        rw [hTimers]
        exact hDue
      rcases handleConn_cases hReg' id c now with
        ⟨_, hOpen, _⟩ | ⟨_, hCase⟩ | ⟨hCloses, _⟩
      · rw [hHalf.2.1] at hOpen
        cases hOpen
      · rw [hCase]
        exact
          (hDue'.put hObj rfl
            (.inl List.mem_cons_self)).not_covered
            List.mem_cons_self
      · exact absurd hHalf hCloses.2

end EventLoop

end V3

end WebServer

------------------------------------------------------------
-- Whole Runs
------------------------------------------------------------

namespace WebServer

namespace V3

open EventLoop

/-
  Along a run every connection held is covered by a timer if
  and only if `handleConn` never takes its half-closed
  branch.
-/
theorem timers_covered_iff
    (es : List LoopEvent) :
    eventLoop.Always Covered .new es ↔
      eventLoop.StepsMeet CoverageMeets .new es := by
  apply
    Machine.always_iff_stepsMeet
      (I := fun s => s.Wired ∧ s.Linked [])
  · rintro s ⟨_, h⟩
    exact h.covered
  · rintro s e t ⟨hWired, h⟩ hEnabled hMeets hStep
    exact
      ⟨hWired.step hEnabled hStep,
        h.step hWired hEnabled hMeets hStep⟩
  · rintro s e ⟨hWired, h⟩ hEnabled hNot
    exact h.step_not hWired hEnabled hNot
  · exact ⟨wired_new, linked_new⟩

/-
  A client sends one request and closes its side, and the
  response cannot be sent at once.
-/
def halfClosedRun : List LoopEvent :=
  [ .newEvent 5 ⟨0, 0, Timeval.on_second⟩,
    .handleEvents 5 { Events.none with epollIn := true }
      noFiles
      [ .data (utf8 "GET /hello HTTP/1.1\r\nHost: a\r\n\r\n"),
        .data [] ]
      [.eagain] ⟨0, 0, Timeval.on_second⟩ ]

/-
  The connection stays in `fd2http_` and its only node is
  deleted.
-/
theorem half_closed_not_covered :
    ¬ ∀ es, eventLoop.Always Covered .new es := by
  intro hAll
  have hFirst :
      eventLoop.enabled .new
        (.newEvent 5 ⟨0, 0, by decide⟩) :=
    EventLoop.unused_new 5
  have hOpened := (hAll halfClosedRun).2 hFirst _ rfl
  have hReports := Registration.readable_reported
  have hAnswered := hOpened.2 ⟨_, rfl, hReports⟩
  have hEnd :
      ((EventLoop.new.newEvent 5
            ⟨0, 0, by decide⟩).handleEvents 5
          { Events.none with epollIn := true } noFiles
          [ .data
              (utf8 "GET /hello HTTP/1.1\r\nHost: a\r\n\r\n"),
            .data [] ]
          [.eagain] ⟨0, 0, by decide⟩).map
          (fun t =>
            (t.fd2http 5,
              t.timers.timerNodeQueue.all
                TimerNode.deleted)) =
        some (some 0, true) := by
    decide +kernel
  rcases Option.map_eq_some_iff.mp hEnd with
    ⟨t, hStep, hView⟩
  have hHeld := congrArg Prod.fst hView
  have hDeleted := congrArg Prod.snd hView
  rcases hAnswered t hStep 5 0 hHeld with
    ⟨node, hNode, hLive, _⟩
  rw [List.all_eq_true.mp hDeleted node hNode] at hLive
  cases hLive

end V3

end WebServer
