import WebServer.V3.Net.RefusedCalls

/-
  Who closes a connection of version 3.0, and how often.

  An `HttpData` object is referred to by its slot in
  `fd2http_` and by its timer node. Its descriptor is closed
  with the last reference, and a later connection may be
  given the same number. A handler, an expired node, or an
  expired node of a connection that could not be registered
  calls `handleClose`, and `delfd` clears the slots of the
  descriptor.

  This file keeps a record of those calls and shows that in
  every run each connection is closed at most once, that
  `delfd` finds its own connection in the slots that it
  clears, and that a slot refers to the one live object with
  that descriptor.

  Key definitions include:
    * `CloseCall`
    * `EventLoop.closeCalls`
    * `closingLoop`
    * `EventLoop.Owns`

  Key theorems include:
    * `ClosedOnce.handleClose`
    * `ClosedOnce.step`
    * `closed_once_by_owner`
-/

------------------------------------------------------------
-- The Record Of A Run
------------------------------------------------------------

namespace WebServer

namespace V3

/-
  A call of `handleClose`, and what `delfd` found in the two
  slots that it cleared.
-/
structure CloseCall where
  id : ConnId
  fd : Fd
  fd2chan : Option ConnId
  fd2http : Option ConnId
deriving DecidableEq, Repr

/- The slots cleared belonged to the connection closed. -/
def CloseCall.ClearsOwn
    (call : CloseCall) : Prop :=
  call.fd2http = some call.id ∧
    (call.fd2chan = none ∨ call.fd2chan = some call.id)

namespace EventLoop

def closeCall
    (s : EventLoop)
    (id : ConnId)
    (obj : HttpObject) : CloseCall where
  id := id
  fd := obj.fd
  fd2chan := s.fd2chan obj.fd
  fd2http := s.fd2http obj.fd

/- The calls made by the destructors of popped nodes. -/
def closeCalls :
    EventLoop → List ConnId → List CloseCall
| _, [] => []
| s, id :: due =>
    ((s.objects id).map (s.closeCall id)).toList ++
      closeCalls (s.closeExpired id) due

/- What a step adds to the record. -/
def noteCloses
    (s : EventLoop) :
    LoopEvent × Bool → List CloseCall → List CloseCall
| (.newEvent _ _, _), calls => calls
| (.handleEvents fd revents fs reads writes _, _), calls =>
    match s.handled fd revents fs reads writes with
    | none => calls
    | some (id, obj, c) =>
        if c.handleConn.1 = .handleClose then
          calls ++ [s.closeCall id obj]
        else
          calls
| (.handleExpired policy clock, _), calls =>
    let (timers, closed) :=
      s.timers.handleExpiredEvent policy clock
    calls ++ { s with timers := timers }.closeCalls closed

/-
  The object is alive, has the descriptor, and no other live
  object has it.
-/
def Owns
    (s : EventLoop)
    (id : ConnId)
    (fd : Fd) : Prop :=
  s.Alive id ∧
    ∃ obj,
      s.objects id = some obj ∧
        obj.fd = fd ∧
        ∀ id' obj',
          s.objects id' = some obj' →
            s.Alive id' → obj'.fd = fd → id' = id

end EventLoop

/- The loop with its calls of `handleClose`. -/
def closingLoop :
    Machine (EventLoop × List CloseCall)
      (LoopEvent × Bool) :=
  refusingLoop.recording EventLoop.noteCloses

end V3

end WebServer

------------------------------------------------------------
-- Closing
------------------------------------------------------------

namespace WebServer

namespace V3

/-
  A connection that was closed holds no slot, and will not
  be opened again.
-/
structure ClosedOnce
    (s : EventLoop)
    (calls : List CloseCall) : Prop where
  own : ∀ call ∈ calls, call.ClearsOwn
  known : ∀ call ∈ calls, call.id < s.nextId
  gone : ∀ call ∈ calls, ∀ fd, s.fd2http fd ≠ some call.id
  nodup : (calls.map CloseCall.id).Nodup

/- What was held before, or is new, was not closed. -/
theorem ClosedOnce.frame
    {s t : EventLoop}
    {calls : List CloseCall}
    (h : ClosedOnce s calls)
    (hNext : s.nextId ≤ t.nextId)
    (hHeld :
      ∀ fd id, t.fd2http fd = some id →
        s.fd2http fd = some id ∨ s.nextId ≤ id) :
    ClosedOnce t calls where
  own := h.own
  known := fun call hCall =>
    Nat.lt_of_lt_of_le (h.known call hCall) hNext
  gone := by
    intro call hCall fd hSlot
    rcases hHeld fd call.id hSlot with hOld | hNew
    · exact h.gone call hCall fd hOld
    · exact absurd (h.known call hCall) (Nat.not_lt.mpr hNew)
  nodup := h.nodup

theorem ClosedOnce.drops
    {s t : EventLoop}
    {calls : List CloseCall}
    (h : ClosedOnce s calls)
    (hDrops : s.Drops t) :
    ClosedOnce t calls := by
  refine h.frame (Nat.le_of_eq hDrops.nextId.symm) ?_
  intro fd id hHeld
  rw [hDrops.fd2http] at hHeld
  exact .inl hHeld

/- The connection held in its slot is closed. -/
theorem ClosedOnce.handleClose
    {s : EventLoop}
    {calls : List CloseCall}
    {id : ConnId}
    {old obj : HttpObject}
    (h : ClosedOnce s calls)
    (hOwned : s.Owned)
    (hOld : s.objects id = some old)
    (hHeld : s.fd2http old.fd = some id)
    (hFd : obj.fd = old.fd) :
    ClosedOnce (s.handleClose id obj)
      (calls ++ [s.closeCall id old]) := by
  have hKept : ∀ fd id',
      (s.handleClose id obj).fd2http fd = some id' →
        fd ≠ old.fd ∧ s.fd2http fd = some id' := by
    intro fd id' hSlot
    change Function.update s.fd2http obj.fd none fd =
      some id' at hSlot
    rw [hFd] at hSlot
    by_cases hSame : fd = old.fd
    · subst hSame
      rw [Function.update_self] at hSlot
      cases hSlot
    · rw [Function.update_of_ne hSame] at hSlot
      exact ⟨hSame, hSlot⟩
  have hNot : id ∉ calls.map CloseCall.id := by
    intro hMem
    rcases List.mem_map.mp hMem with ⟨call, hCall, rfl⟩
    exact h.gone call hCall old.fd hHeld
  refine ⟨?_, ?_, ?_, ?_⟩
  · intro call hCall
    rcases List.mem_append.mp hCall with hPast | hLast
    · exact h.own call hPast
    · rcases List.mem_singleton.mp hLast with rfl
      refine ⟨hHeld, ?_⟩
      -- the channel of the slot, if any, is its owner's
      cases hChan : s.fd2chan old.fd with
      | none => exact .inl hChan
      | some other =>
          have hSlot := hOwned.channel old.fd other hChan
          rw [hHeld] at hSlot
          cases hSlot
          exact .inr hChan
  · intro call hCall
    rcases List.mem_append.mp hCall with hPast | hLast
    · exact h.known call hPast
    · rcases List.mem_singleton.mp hLast with rfl
      exact (hOwned.slots.known id old hOld).1
  · intro call hCall fd hSlot
    have hSlot' := hKept fd call.id hSlot
    rcases List.mem_append.mp hCall with hPast | hLast
    · exact h.gone call hPast fd hSlot'.2
    · rcases List.mem_singleton.mp hLast with rfl
      have hObj := hOwned.object hSlot'.2 hOld
      exact hSlot'.1 hObj.symm
  · rw [List.map_append]
    refine List.nodup_append.mpr
      ⟨h.nodup, List.nodup_singleton _, ?_⟩
    intro x hx y hy
    rcases List.mem_singleton.mp hy with rfl
    rintro rfl
    exact hNot hx

/- The connections due are closed one after another. -/
theorem ClosedOnce.closeAll
    {s : EventLoop}
    {calls : List CloseCall}
    {due : List ConnId}
    (h : ClosedOnce s calls)
    (hOwned : s.Owned)
    (hDue : s.Expiring due) :
    ClosedOnce (due.foldl EventLoop.closeExpired s)
      (calls ++ s.closeCalls due) := by
  induction due generalizing s calls with
  | nil =>
      rw [EventLoop.closeCalls, List.append_nil]
      exact h
  | cons id due ih =>
      rcases hDue.held id List.mem_cons_self with
        ⟨obj, hObj, hHeld⟩
      have hNext := hOwned.closeExpired hDue
      have hClosed :
          ClosedOnce (s.closeExpired id)
            (calls ++ [s.closeCall id obj]) := by
        unfold EventLoop.closeExpired
        rw [hObj]
        exact h.handleClose hOwned hObj hHeld rfl
      have hRest := ih hClosed hNext.1 hNext.2
      rw [EventLoop.closeCalls, hObj, Option.map_some,
        Option.toList_some, ← List.append_assoc]
      exact hRest

/- Every step closes only what is held. -/
theorem ClosedOnce.step
    {s t : EventLoop}
    {calls : List CloseCall}
    {e : LoopEvent × Bool}
    (h : ClosedOnce s calls)
    (hOwned : s.Owned)
    (hStep : refusingLoop.step s e = some t) :
    ClosedOnce t (s.noteCloses e calls) := by
  rcases e with ⟨e, refused⟩
  cases e with
  | newEvent fd now =>
      cases hStep
      have hOpened : ClosedOnce (s.opened fd now) calls := by
        refine h.frame (Nat.le_succ _) ?_
        intro fd' id hHeld
        unfold EventLoop.opened at hHeld
        simp only at hHeld
        by_cases hSame : fd' = fd
        · subst hSame
          rw [Function.update_self] at hHeld
          cases hHeld
          exact .inr (Nat.le_refl _)
        · rw [Function.update_of_ne hSame] at hHeld
          exact .inl hHeld
      exact
        hOpened.drops
          (EventLoop.drops_tryNewEvent refused s fd now)
  | handleEvents fd revents fs reads writes now =>
      unfold EventLoop.noteCloses
      rcases EventLoop.tryHandleEvents_cases hStep with
        ⟨hNone, hDrops | ⟨id, obj, obj', _, _, _, hDrops⟩⟩ |
          ⟨id, obj, c, hSome, hChan, hObj, hCall, rfl⟩
      · simp only [hNone]
        exact h.drops hDrops
      · simp only [hNone]
        have hPut : ClosedOnce (s.put id obj') calls :=
          h.frame (Nat.le_refl _) fun _ _ hHeld => .inl hHeld
        exact hPut.drops hDrops
      · simp only [hSome]
        have hHeld := hOwned.channel fd id hChan
        rw [← hOwned.object hHeld hObj] at hHeld
        have hKept : ClosedOnce (s.seperated obj) calls :=
          h.frame (Nat.le_refl _) fun _ _ hHeld => .inl hHeld
        rcases hOwned.handled_cases hObj hCall now with
          ⟨hArms, next, _, _, _, hDrops⟩ |
            ⟨hKeeps, next, _, _, hDrops⟩ |
            ⟨hCloses, next, hFd, _, hDrops⟩
        · rw [if_neg (by rw [hArms]; nofun)]
          refine ClosedOnce.drops ?_ hDrops
          exact
            h.frame (Nat.le_refl _)
              fun _ _ hHeld => .inl hHeld
        · rw [if_neg (by rw [hKeeps]; nofun)]
          refine ClosedOnce.drops ?_ hDrops
          exact
            h.frame (Nat.le_refl _)
              fun _ _ hHeld => .inl hHeld
        · rw [if_pos hCloses]
          have hClosed :=
            hKept.handleClose (hOwned.seperate hObj).1 hObj
              hHeld hFd
          exact hClosed.drops hDrops
  | handleExpired policy clock =>
      cases hStep
      rcases hOwned.expire policy clock with ⟨hLeft, hDue⟩
      refine ClosedOnce.closeAll ?_ hLeft hDue
      exact
        h.frame (Nat.le_refl _) fun _ _ hHeld => .inl hHeld

end V3

end WebServer

------------------------------------------------------------
-- Whole Runs
------------------------------------------------------------

namespace WebServer

namespace V3

/- A slot refers to the live object with its descriptor. -/
theorem EventLoop.Owned.owns
    {s : EventLoop}
    {fd : Fd}
    {id : ConnId}
    (h : s.Owned)
    (hHeld : s.fd2http fd = some id) :
    s.Owns id fd := by
  rcases h.slots.object fd id hHeld with ⟨obj, hObj, hFd⟩
  refine ⟨.inl ⟨fd, hHeld⟩, obj, hObj, hFd, ?_⟩
  intro id' obj' hObj' hAlive hFd'
  have hSlot := h.slot hObj' hAlive
  rw [hFd', hHeld] at hSlot
  exact (Option.some.inj hSlot).symm

theorem closingLoop_invariant
    {es : List (LoopEvent × Bool)}
    {r : EventLoop × List CloseCall}
    (hRun : closingLoop.Reaches (.new, []) es r) :
    r.1.Owned ∧ ClosedOnce r.1 r.2 := by
  apply
    Machine.Reaches.invariant
      (I := fun r : EventLoop × List CloseCall =>
        r.1.Owned ∧ ClosedOnce r.1 r.2)
      ?_ ?_ hRun
  · rintro ⟨s, calls⟩ e r ⟨hOwned, h⟩ hEnabled hStep
    rcases Option.map_eq_some_iff.mp hStep with
      ⟨t, hNext, rfl⟩
    exact
      ⟨hOwned.step hEnabled hNext, h.step hOwned hNext⟩
  · refine ⟨EventLoop.owned_new, ?_, ?_, ?_, List.nodup_nil⟩
    · exact fun _ hCall => nomatch hCall
    · exact fun _ hCall => nomatch hCall
    · exact fun _ hCall => nomatch hCall

/-
  In every run of a loop, whichever calls of `epoll_ctl` are
  refused, a connection held in `fd2http_` owns its
  descriptor and was not closed, `handleClose` runs at most
  once for a connection, and `delfd` clears the slots of its
  own connection only.
-/
theorem closed_once_by_owner
    {es : List (LoopEvent × Bool)}
    {s : EventLoop}
    {calls : List CloseCall}
    (hRun : closingLoop.Reaches (.new, []) es (s, calls)) :
    (∀ fd id, s.fd2http fd = some id →
      s.Owns id fd ∧ id ∉ calls.map CloseCall.id) ∧
      (calls.map CloseCall.id).Nodup ∧
      ∀ call ∈ calls, call.ClearsOwn := by
  rcases closingLoop_invariant hRun with ⟨hOwned, h⟩
  refine ⟨?_, h.nodup, h.own⟩
  intro fd id hHeld
  refine ⟨hOwned.owns hHeld, ?_⟩
  intro hMem
  rcases List.mem_map.mp hMem with ⟨call, hCall, rfl⟩
  exact h.gone call hCall fd hHeld

/- A connection that the kernel does not register expires. -/
def refusedThenExpired : List (LoopEvent × Bool) :=
  [ (.newEvent 5 ⟨0, 0, Timeval.on_second⟩, true),
    (.handleExpired .front fun _ => ⟨3, 0, Timeval.on_second⟩,
      false) ]

theorem closed_once_refused_then_expired :
    ∃ s calls,
      closingLoop.Reaches (.new, []) refusedThenExpired
          (s, calls) ∧
        calls = [⟨0, 5, none, some 0⟩] ∧
        ((∀ fd id, s.fd2http fd = some id →
          s.Owns id fd ∧ id ∉ calls.map CloseCall.id) ∧
          (calls.map CloseCall.id).Nodup ∧
          ∀ call ∈ calls, call.ClearsOwn) := by
  have hRun : ∃ r,
      closingLoop.Reaches (.new, []) refusedThenExpired r ∧
        r.2 = [⟨0, 5, none, some 0⟩] := by
    have hFree : EventLoop.new.Unused 5 :=
      EventLoop.owned_new.unused rfl
    refine
      ⟨_, .cons hFree rfl (.cons trivial rfl (.nil _)), ?_⟩
    decide +kernel
  rcases hRun with ⟨⟨s, calls⟩, hRun, hCalls⟩
  exact ⟨s, calls, hRun, hCalls, closed_once_by_owner hRun⟩

end V3

end WebServer
