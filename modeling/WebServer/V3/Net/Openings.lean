import WebServer.V3.Net.RefusedCalls

/-
  The connections that a loop of version 3.0 opens.

  A run of the loop gives its objects numbers in the order
  of its calls of `newEvent`. Nothing else makes an object,
  gives one another descriptor, or fills a slot.

  Key definitions include:
    * `LoopEvent.opens`
    * `EventLoop.Opens`

  Key theorems include:
    * `EventLoop.Owned.opens_step`
    * `EventLoop.Owned.opens_run`
-/

------------------------------------------------------------
-- What A Loop Opens
------------------------------------------------------------

namespace WebServer

namespace V3

/- The descriptor of a connection that is opened. -/
def LoopEvent.opens :
    LoopEvent × Bool → Option Fd
| (.newEvent fd _, _) => some fd
| _ => none

namespace EventLoop

/-
  From one state to a later one, the loop opened connections
  with these descriptors, in this order. It holds nothing
  that it did not hold or open, and no object changed its
  descriptor.
-/
structure Opens
    (s t : EventLoop)
    (fds : List Fd) : Prop where
  nextId : t.nextId = s.nextId + fds.length
  kept :
    ∀ id obj, s.objects id = some obj →
      ∃ obj', t.objects id = some obj' ∧ obj'.fd = obj.fd
  opened :
    ∀ k fd, fds[k]? = some fd →
      ∃ obj,
        t.objects (s.nextId + k) = some obj ∧ obj.fd = fd
  held :
    ∀ fd id, t.fd2http fd = some id →
      s.fd2http fd = some id ∨
        ∃ k, fds[k]? = some fd ∧ id = s.nextId + k

variable {s t u : EventLoop}

theorem Opens.refl
    (s : EventLoop) :
    s.Opens s [] where
  nextId := rfl
  kept := fun _ obj hObj => ⟨obj, hObj, rfl⟩
  opened := fun _ _ hMem => nomatch hMem
  held := fun _ _ hHeld => .inl hHeld

theorem Opens.trans
    {fds fds' : List Fd}
    (h : s.Opens t fds)
    (h' : t.Opens u fds') :
    s.Opens u (fds ++ fds') := by
  refine ⟨?_, ?_, ?_, ?_⟩
  · rw [h'.nextId, h.nextId, List.length_append,
      Nat.add_assoc]
  · intro id obj hObj
    rcases h.kept id obj hObj with ⟨obj', hObj', hFd⟩
    rcases h'.kept id obj' hObj' with ⟨obj'', hObj'', hFd'⟩
    exact ⟨obj'', hObj'', hFd'.trans hFd⟩
  · intro k fd hMem
    by_cases hFront : k < fds.length
    · rw [List.getElem?_append_left hFront] at hMem
      rcases h.opened k fd hMem with ⟨obj, hObj, hFd⟩
      rcases h'.kept _ obj hObj with ⟨obj', hObj', hFd'⟩
      exact ⟨obj', hObj', hFd'.trans hFd⟩
    · have hBack := Nat.le_of_not_lt hFront
      rw [List.getElem?_append_right hBack] at hMem
      rcases h'.opened _ fd hMem with ⟨obj, hObj, hFd⟩
      have hPlace :
          t.nextId + (k - fds.length) = s.nextId + k := by
        rw [h.nextId, Nat.add_assoc,
          Nat.add_sub_cancel' hBack]
      rw [hPlace] at hObj
      exact ⟨obj, hObj, hFd⟩
  · intro fd id hHeld
    rcases h'.held fd id hHeld with hOld | ⟨k, hMem, rfl⟩
    · rcases h.held fd id hOld with hFirst | ⟨k, hMem, hId⟩
      · exact .inl hFirst
      · refine .inr ⟨k, ?_, hId⟩
        have hFront := (List.getElem?_eq_some_iff.mp hMem).1
        rw [List.getElem?_append_left hFront]
        exact hMem
    · refine .inr ⟨fds.length + k, ?_, ?_⟩
      · rw [List.getElem?_append_right
          (Nat.le_add_right _ _), Nat.add_sub_cancel_left]
        exact hMem
      · rw [h.nextId, Nat.add_assoc]

theorem Drops.opens
    (h : s.Drops t) :
    s.Opens t [] := by
  refine ⟨h.nextId, ?_, ?_, ?_⟩
  · intro id obj hObj
    rw [h.objects]
    exact ⟨obj, hObj, rfl⟩
  · exact fun _ _ hMem => nomatch hMem
  · intro fd id hHeld
    rw [h.fd2http] at hHeld
    exact .inl hHeld

theorem opens_setTimers
    (s : EventLoop)
    (timers : TimerManager) :
    s.Opens { s with timers := timers } [] where
  nextId := rfl
  kept := fun _ obj hObj => ⟨obj, hObj, rfl⟩
  opened := fun _ _ hMem => nomatch hMem
  held := fun _ _ hHeld => .inl hHeld

/- An object is stored again. -/
theorem opens_put
    {id : ConnId}
    {obj obj' : HttpObject}
    (timers : TimerManager)
    (hObj : s.objects id = some obj)
    (hFd : obj'.fd = obj.fd) :
    s.Opens ({ s with timers := timers }.put id obj') [] := by
  refine ⟨rfl, ?_, ?_, ?_⟩
  · intro id' old hOld
    by_cases hSame : id' = id
    · subst hSame
      rw [hObj] at hOld
      cases hOld
      exact ⟨obj', Function.update_self _ _ _, hFd⟩
    · exact
        ⟨old, (Function.update_of_ne hSame _ _).trans hOld,
          rfl⟩
  · exact fun _ _ hMem => nomatch hMem
  · exact fun _ _ hHeld => .inl hHeld

theorem opens_handleClose
    {id : ConnId}
    {obj obj' : HttpObject}
    (hObj : s.objects id = some obj)
    (hFd : obj'.fd = obj.fd) :
    s.Opens (s.handleClose id obj') [] := by
  have hGone : s.Opens (s.delfd obj') [] := by
    refine ⟨rfl, fun _ old hOld => ⟨old, hOld, rfl⟩, ?_, ?_⟩
    · exact fun _ _ hMem => nomatch hMem
    · intro fd id' hHeld
      by_cases hSame : fd = obj'.fd
      · subst hSame
        change Function.update s.fd2http obj'.fd none obj'.fd =
          some id' at hHeld
        rw [Function.update_self] at hHeld
        cases hHeld
      · change Function.update s.fd2http obj'.fd none fd =
          some id' at hHeld
        rw [Function.update_of_ne hSame] at hHeld
        exact .inl hHeld
  have hStored : (s.delfd obj').objects id = some obj := hObj
  exact hGone.trans (opens_put s.timers hStored hFd)

theorem opens_closeAll
    (due : List ConnId)
    (s : EventLoop) :
    s.Opens (due.foldl EventLoop.closeExpired s) [] := by
  induction due generalizing s with
  | nil => exact .refl s
  | cons id due ih =>
      have hFirst : s.Opens (s.closeExpired id) [] := by
        unfold closeExpired
        cases hObj : s.objects id with
        | none => exact .refl s
        | some obj => exact opens_handleClose hObj rfl
      exact hFirst.trans (ih _)

theorem opens_opened
    {fd : Fd}
    (h : s.Owned)
    (now : Timeval) :
    s.Opens (s.opened fd now) [fd] := by
  refine ⟨rfl, ?_, ?_, ?_⟩
  · intro id obj hObj
    have hNe : id ≠ s.nextId :=
      Nat.ne_of_lt (h.slots.known id obj hObj).1
    exact
      ⟨obj, (Function.update_of_ne hNe _ _).trans hObj, rfl⟩
  · intro k fd' hMem
    rcases k with _ | k
    · rcases Option.some.inj hMem with rfl
      exact ⟨_, Function.update_self _ _ _, rfl⟩
    · cases hMem
  · intro fd' id hHeld
    change Function.update s.fd2http fd (some s.nextId) fd' =
      some id at hHeld
    by_cases hSame : fd' = fd
    · subst hSame
      rw [Function.update_self] at hHeld
      exact .inr ⟨0, rfl, (Option.some.inj hHeld).symm⟩
    · rw [Function.update_of_ne hSame] at hHeld
      exact .inl hHeld

/- Every step opens what its event says. -/
theorem Owned.opens_step
    {e : LoopEvent × Bool}
    (h : s.Owned)
    (hStep : refusingLoop.step s e = some t) :
    s.Opens t (LoopEvent.opens e).toList := by
  rcases e with ⟨e, refused⟩
  cases e with
  | newEvent fd now =>
      cases hStep
      have hOpened :=
        (opens_opened h now).trans
          (drops_tryNewEvent refused s fd now).opens
      exact hOpened
  | handleEvents fd revents fs reads writes now =>
      rcases tryHandleEvents_cases hStep with
        ⟨_, hDrops | ⟨id, obj, obj', hObj, hFd, _, hDrops⟩⟩ |
          ⟨id, obj, c, _, _, hObj, hCall, rfl⟩
      · exact hDrops.opens
      · exact
          (opens_put s.timers hObj hFd).trans hDrops.opens
      · have hSep : s.Opens (s.seperated obj) [] :=
          opens_setTimers s _
        rcases h.handled_cases hObj hCall now with
          ⟨_, next, hFd, _, _, hDrops⟩ |
            ⟨_, next, hFd, _, hDrops⟩ |
            ⟨_, next, hFd, _, hDrops⟩
        · exact
            Opens.trans (opens_put _ hObj hFd) hDrops.opens
        · exact
            Opens.trans (opens_put _ hObj hFd) hDrops.opens
        · exact
            (hSep.trans (opens_handleClose hObj hFd)).trans
              hDrops.opens
  | handleExpired policy clock =>
      cases hStep
      exact
        (opens_setTimers s _).trans
          (opens_closeAll
            (s.timers.handleExpiredEvent policy clock).2 _)

/- A run opens what its events say, in their order. -/
theorem Owned.opens_run
    {ds : List (LoopEvent × Bool)}
    (h : s.Owned)
    (hRun : refusingLoop.Reaches s ds t) :
    s.Opens t (ds.filterMap LoopEvent.opens) := by
  induction hRun with
  | nil s => exact .refl s
  | @cons s u t e ds hEnabled hStep _ ih =>
      have hFirst := h.opens_step hStep
      have hRest := ih (h.step hEnabled hStep)
      have hBoth := hFirst.trans hRest
      cases hOpens : LoopEvent.opens e with
      | none =>
          rw [hOpens] at hBoth
          rw [List.filterMap_cons_none hOpens]
          exact hBoth
      | some fd =>
          rw [hOpens] at hBoth
          rw [List.filterMap_cons_some hOpens]
          exact hBoth

end EventLoop

end V3

end WebServer
