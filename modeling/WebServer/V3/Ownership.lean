import WebServer.V3.Server

/-
  Who keeps a descriptor open in version 3.0.

  A connection is handed from the main thread to a loop, and
  no lock guards it on the way: while the main thread has
  it, while it waits in the list of functors of its loop,
  and while an object of that loop has it, nothing else in
  the process may. So the descriptor that a loop opens is
  new to that loop, and every loop of a running server is a
  run of the loops that the other files treat one at a time.

  Key definitions include:
    * `Reactor.Ran`
    * `Server.Distinct`
    * `Server.Sound`

  Key theorems include:
    * `Reactor.Ran.step`
    * `Server.Distinct.of_back`
    * `Server.Sound.step`
    * `server_loops_follow`
    * `descriptors_have_one_place`
-/

------------------------------------------------------------
-- Connections That Are Open
------------------------------------------------------------

namespace WebServer

namespace V3

namespace EventLoop

variable {s t : EventLoop}

/- An object that is alive is the one in its slot. -/
theorem Owned.alive_iff
    (h : s.Owned)
    (id : ConnId)
    (fd : Fd) :
    (s.Alive id ∧
      ∃ obj, s.objects id = some obj ∧ obj.fd = fd) ↔
      s.fd2http fd = some id := by
  constructor
  · rintro ⟨hHeld | hNamed, obj, hObj, rfl⟩
    · rcases hHeld with ⟨fd, hHeld⟩
      rw [← h.object hHeld hObj] at hHeld
      exact hHeld
    · rcases hNamed with ⟨node, hNode, hNames⟩
      rcases h.node node hNode id hNames with
        ⟨obj', hObj', hHeld, _⟩
      rcases Option.some.inj (hObj.symm.trans hObj') with rfl
      exact hHeld
  · intro hHeld
    exact
      ⟨.inl ⟨fd, hHeld⟩, h.slots.object fd id hHeld⟩

/- Reports change nothing that is owned. -/
theorem Owned.reportAll
    (h : s.Owned)
    (fds : List Fd) :
    (s.reportAll fds).Owned := by
  rcases s.reportAll_frame fds with ⟨epoll, hFrame, _⟩
  rw [hFrame]
  exact
    { sound := h.sound
      slots := ⟨h.slots.object, h.slots.known⟩
      channel := h.channel
      node := h.node }

/- Nor do they open anything. -/
theorem Opens.reportAll
    {opened : List Fd}
    (h : s.Opens t opened)
    (fds fds' : List Fd) :
    (s.reportAll fds).Opens (t.reportAll fds') opened := by
  rcases s.reportAll_frame fds with ⟨epoll, hFrame, _⟩
  rcases t.reportAll_frame fds' with ⟨epoll', hFrame', _⟩
  rw [hFrame, hFrame']
  exact
    { nextId := h.nextId
      kept := h.kept
      opened := h.opened
      held := h.held }

end EventLoop

end V3

end WebServer

------------------------------------------------------------
-- The Run Of One Loop
------------------------------------------------------------

namespace WebServer

namespace V3

namespace Reactor

/-
  The thread of the loop took the steps of a recorded loop,
  and its connections those of a loop that opened what the
  record says was executed.
-/
structure Ran
    (r : Reactor)
    (record : FunctorRecord Fd)
    (t : EventLoop) : Prop where
  thread :
    ∃ es, recordedLoop.Reaches loopStart es (r.thread, record)
  connections :
    ∃ ds,
      refusingLoop.Reaches .new ds t ∧
        ds.filterMap LoopEvent.opens = record.executed
  behind : r.Behind t

variable {r r' : Reactor}
variable {record : FunctorRecord Fd}
variable {t : EventLoop}

theorem ran_new :
    Reactor.new.Ran { inserted := [], executed := [] } .new where
  thread := ⟨[], .nil _⟩
  connections := ⟨[], .nil _, rfl⟩
  behind := behind_new

theorem Ran.served
    (h : r.Ran record t) :
    Served (r.thread, record) := by
  rcases h.thread with ⟨es, hRun⟩
  refine hRun.invariant ?_ loopStart_served
  intro s e s' hServed hEnabled hStep
  rcases Served.step s e hServed hEnabled with
    ⟨s'', hNext, hKept⟩
  rcases Option.some.inj (hStep.symm.trans hNext) with rfl
  exact hKept

/- The functors of the loop, in their order. -/
theorem Ran.inserted
    (h : r.Ran record t) :
    record.inserted = record.executed ++ r.queued :=
  h.served.inOrder

theorem Ran.owned
    (h : r.Ran record t) :
    r.poller.Owned := by
  rw [h.behind.poller]
  exact h.behind.owned.reportAll _

/- The connections of the loop are those that it executed. -/
theorem Ran.opens
    (h : r.Ran record t) :
    EventLoop.new.Opens r.poller record.executed := by
  rcases h.connections with ⟨ds, hRun, hOpened⟩
  have hOpens := EventLoop.owned_new.opens_run hRun
  rw [hOpened] at hOpens
  have hReported :=
    hOpens.reportAll [] (r.active.map ActiveConn.fd)
  rw [h.behind.poller]
  exact hReported

theorem Ran.queueInLoop
    (h : r.Ran record t)
    (fd : Fd) :
    (r.queueInLoop fd).Ran
      { record with inserted := record.inserted ++ [fd] }
      t := by
  rcases h.thread with ⟨es, hRun⟩
  refine
    ⟨⟨es ++ [.queueInLoop false fd], ?_⟩, h.connections,
      h.behind.queueInLoop fd⟩
  refine hRun.append (.single ?_ rfl)
  intro hLoop
  cases hLoop

/- What a step writes to the record of its thread. -/
theorem note_loopStep
    (r : Reactor)
    (e : ReactorStep)
    (record : FunctorRecord Fd) :
    r.thread.note (r.loopStep e) record =
      { record with
        executed := record.executed ++ r.opens e } := by
  have hSame :
      record =
        { record with executed := record.executed ++ [] } := by
    rw [List.append_nil]
  cases e with
  | epollWait entries =>
      cases entries with
      | none => exact hSame
      | some entries => exact hSame
  | callFunctor now refused => rfl
  | wakeup => exact hSame
  | handleWakeup => exact hSame
  | handleConn fs reads writes now refused => exact hSame
  | swapFunctors => exact hSame
  | endFunctors => exact hSame
  | handleExpired policy clock => exact hSame

/-
  A step of the loop is one of its thread, and matched by
  steps of its connections. What the step opens, it takes
  from the head of the queue.
-/
theorem Ran.step
    {e : ReactorStep}
    (h : r.Ran record t)
    (hEnabled : r.enabled e)
    (hUnused :
      ∀ now refused, e = .callFunctor now refused →
        ∀ fd ∈ r.thread.taken.head?, r.poller.Unused fd)
    (hStep : r.step e = some r') :
    r.queued = r.opens e ++ r'.queued ∧
      r.poller.Opens r'.poller (r.opens e) ∧
      ∃ t',
        r'.Ran
          { record with
            executed := record.executed ++ r.opens e }
          t' := by
  rcases h.behind.step hEnabled hUnused hStep with
    ⟨ds, t', hRun, hOpened, hBehind⟩
  have hNext :
      r'.Ran
        { record with
          executed := record.executed ++ r.opens e }
        t' := by
    rcases h.thread with ⟨es, hThread⟩
    rcases h.connections with ⟨ds', hFront, hOpens⟩
    refine
      ⟨⟨es ++ [r.loopStep e], hThread.append ?_⟩,
        ⟨ds' ++ ds, hFront.append hRun, ?_⟩, hBehind⟩
    · refine .single hEnabled.1 ?_
      rcases Option.map_eq_some_iff.mp hStep with
        ⟨served, _, rfl⟩
      rw [← note_loopStep]
      rfl
    · rw [List.filterMap_append, hOpens, hOpened]
  refine ⟨?_, ?_, t', hNext⟩
  · have hOrder := h.inserted.symm.trans hNext.inserted
    simp only [List.append_assoc] at hOrder
    exact List.append_cancel_left hOrder
  · have hOpens := h.behind.owned.opens_run hRun
    rw [hOpened] at hOpens
    rw [h.behind.poller, hBehind.poller]
    exact hOpens.reportAll _ _

end Reactor

end V3

end WebServer

------------------------------------------------------------
-- One Place For Each
------------------------------------------------------------

namespace WebServer

namespace V3

namespace Server

variable {numThreads : Nat}
variable {s t : Server numThreads}

/- No descriptor is kept open in two places. -/
def Distinct
    (s : Server numThreads) : Prop :=
  ∀ fd p q, s.At fd p → s.At fd q → p = q

/-
  Where a descriptor comes from: a place that it had before,
  or the kernel, which gives out what is open nowhere.
-/
def Comes
    (s : Server numThreads)
    (fd : Fd) :
    Option (Place numThreads) → Prop
| some p => s.At fd p
| none => ¬ s.Open fd ∧ fd < maxFds

/-
  Each place of the second state took over the descriptor of
  one place of the first, or a new one, and no two took over
  the same.
-/
structure Hands
    (s t : Server numThreads)
    (back : Place numThreads → Option (Place numThreads)) :
    Prop where
  comes : ∀ fd p, t.At fd p → s.Comes fd (back p)
  apart :
    ∀ fd p q,
      t.At fd p → t.At fd q → back p = back q → p = q

theorem Distinct.of_back
    {back : Place numThreads → Option (Place numThreads)}
    (h : s.Distinct)
    (hHands : s.Hands t back) :
    t.Distinct := by
  intro fd p q hp hq
  refine hHands.apart fd p q hp hq ?_
  have hFrom := hHands.comes fd p hp
  have hFrom' := hHands.comes fd q hq
  cases hBack : back p with
  | none =>
      rw [hBack] at hFrom
      cases hBack' : back q with
      | none => rfl
      | some q' =>
          rw [hBack'] at hFrom'
          exact absurd ⟨q', hFrom'⟩ hFrom.1
  | some p' =>
      rw [hBack] at hFrom
      cases hBack' : back q with
      | none =>
          rw [hBack'] at hFrom'
          exact absurd ⟨p', hFrom⟩ hFrom'.1
      | some q' =>
          rw [hBack'] at hFrom'
          rw [h fd p' q' hFrom hFrom']

/- The tables of a poller have a slot for what is open. -/
def Bounded
    (s : Server numThreads) : Prop :=
  ∀ fd, s.Open fd → fd < maxFds

theorem Bounded.of_back
    {back : Place numThreads → Option (Place numThreads)}
    (h : s.Bounded)
    (hHands : s.Hands t back) :
    t.Bounded := by
  rintro fd ⟨p, hp⟩
  have hFrom := hHands.comes fd p hp
  cases hBack : back p with
  | none =>
      rw [hBack] at hFrom
      exact hFrom.2
  | some q =>
      rw [hBack] at hFrom
      exact h fd ⟨q, hFrom⟩

/- A step that opens nothing and hands nothing over. -/
theorem hands_same
    (hSame : ∀ fd p, t.At fd p → s.At fd p) :
    s.Hands t some where
  comes := hSame
  apart := fun _ _ _ _ _ hBack => Option.some.inj hBack

/- A descriptor comes to a new place. -/
theorem hands_moved
    {place : Place numThreads}
    {source : Option (Place numThreads)}
    (hNew : ∀ fd, t.At fd place → s.Comes fd source)
    (hGone : ∀ fd p, source = some p → ¬ t.At fd p)
    (hSame : ∀ fd p, p ≠ place → t.At fd p → s.At fd p) :
    s.Hands t fun p => if p = place then source else some p
    where
  comes := by
    intro fd p hp
    by_cases hPlace : p = place
    · subst hPlace
      simp only [if_true]
      exact hNew fd hp
    · simp only [hPlace, if_false]
      exact hSame fd p hPlace hp
  apart := by
    intro fd p q hp hq hBack
    by_cases hPlace : p = place
    · by_cases hPlace' : q = place
      · rw [hPlace, hPlace']
      · simp only [hPlace, hPlace', if_true, if_false]
          at hBack
        exact absurd hq (hGone fd q hBack)
    · by_cases hPlace' : q = place
      · simp only [hPlace, hPlace', if_true, if_false]
          at hBack
        exact absurd hp (hGone fd p hBack.symm)
      · simp only [hPlace, hPlace', if_false] at hBack
        exact Option.some.inj hBack

end Server

end V3

end WebServer

------------------------------------------------------------
-- Steps Of The Main Thread
------------------------------------------------------------

namespace WebServer

namespace V3

namespace Server

variable {numThreads : Nat}
variable {s t : Server numThreads}

theorem at_frame
    (hLoops : t.loops = s.loops)
    (hLost : t.lost = s.lost)
    (hPos :
      ∀ fd loop,
        t.pos = .accepted fd loop → s.pos = .accepted fd loop)
    {fd : Fd}
    {p : Place numThreads}
    (h : t.At fd p) :
    s.At fd p := by
  cases p with
  | lost k =>
      change t.lost[k]? = some fd at h
      rw [hLost] at h
      exact h
  | accepted =>
      rcases h with ⟨loop, hAccepted⟩
      exact ⟨loop, hPos fd loop hAccepted⟩
  | queued i k =>
      change (t.loops i).queued[k]? = some fd at h
      rw [hLoops] at h
      exact h
  | object i id =>
      unfold At at h ⊢
      rw [hLoops] at h
      exact h

theorem at_object_iff
    (s : Server numThreads)
    (fd : Fd)
    (i : Fin numThreads)
    (id : ConnId) :
    s.At fd (.object i id) ↔
      (s.loops i).poller.Alive id ∧
        ∃ obj,
          (s.loops i).poller.objects id = some obj ∧
            obj.fd = fd :=
  Iff.rfl

/- An object is found by the poller of its loop alone. -/
theorem at_object
    {i : Fin numThreads}
    {id : ConnId}
    {fd : Fd}
    (hPoller : (t.loops i).poller = (s.loops i).poller)
    (h : t.At fd (.object i id)) :
    s.At fd (.object i id) := by
  rw [at_object_iff] at h ⊢
  rw [hPoller] at h
  exact h

/- The end of a pass leaves all descriptors where they are. -/
theorem handThisConn_frame
    (s : Server numThreads) :
    s.handThisConn.loops = s.loops ∧
      s.handThisConn.lost = s.lost ∧
      s.handThisConn.next = s.next ∧
      s.handThisConn.pos = .waiting := by
  unfold handThisConn
  rcases s.acceptChannel.equalAndUpdateLastEvents with
    ⟨equal, channel⟩
  cases equal <;> exact ⟨rfl, rfl, rfl, rfl⟩

theorem at_handThisConn
    {fd : Fd}
    {p : Place numThreads}
    (h : s.handThisConn.At fd p) :
    s.At fd p := by
  rcases s.handThisConn_frame with ⟨hLoops, hLost, _, hPos⟩
  refine at_frame hLoops hLost ?_ h
  intro fd loop hAccepted
  rw [hPos] at hAccepted
  cases hAccepted

/- What is added to the descriptors that nothing refers to. -/
theorem hands_lost
    {fd₀ : Fd}
    {source : Option (Place numThreads)}
    (hLoops : t.loops = s.loops)
    (hLost : t.lost = s.lost ++ [fd₀])
    (hPos : ∀ fd loop, t.pos ≠ .accepted fd loop)
    (hSource : source = none ∨ source = some .accepted)
    (hNew : s.Comes fd₀ source) :
    s.Hands t fun p =>
      if p = .lost s.lost.length then source else some p := by
  refine hands_moved ?_ ?_ ?_
  · intro fd hAt
    change t.lost[s.lost.length]? = some fd at hAt
    rw [hLost, List.getElem?_concat_length] at hAt
    rcases Option.some.inj hAt with rfl
    exact hNew
  · rintro fd p hFrom hAt
    rcases hSource with rfl | rfl
    · cases hFrom
    · rcases Option.some.inj hFrom with rfl
      rcases hAt with ⟨loop, hAccepted⟩
      exact hPos fd loop hAccepted
  · intro fd p hNe hAt
    cases p with
    | lost k =>
        change t.lost[k]? = some fd at hAt
        have hLength : k ≠ s.lost.length := by
          rintro rfl
          exact hNe rfl
        have hBound := (List.getElem?_eq_some_iff.mp hAt).1
        rw [hLost, List.length_append,
          List.length_singleton] at hBound
        rw [hLost,
          List.getElem?_append_left (by omega)] at hAt
        exact hAt
    | accepted =>
        rcases hAt with ⟨loop, hAccepted⟩
        exact absurd hAccepted (hPos fd loop)
    | queued i k =>
        change (t.loops i).queued[k]? = some fd at hAt
        rw [hLoops] at hAt
        exact hAt
    | object i id =>
        unfold At at hAt ⊢
        rw [hLoops] at hAt
        exact hAt

/- `accept` returns. -/
theorem hands_accept
    {result : Option Fd}
    (hEnabled : s.enabled (.accept result)) :
    ∃ back, s.Hands (s.accept result) back := by
  cases result with
  | none =>
      refine ⟨_, hands_same ?_⟩
      intro fd p hAt
      have hBefore :=
        at_handThisConn
          (s :=
            { s with
              acceptChannel := s.acceptChannel.setEvents .inEt })
          hAt
      exact at_frame rfl rfl (fun _ _ => id) hBefore
  | some fd₀ =>
      rcases hEnabled with ⟨hPos, _, hFree⟩
      cases fd₀ with
      | zero =>
          rcases
            { s with
              backlog := s.backlog - 1
              lost := s.lost ++ [0]
              acceptChannel :=
                s.acceptChannel.setEvents
                  .inEt }.handThisConn_frame with
            ⟨hLoops, hLost, _, hWaits⟩
          refine
            ⟨_, @hands_lost _ _ _ _ none hLoops hLost ?_
              (.inl rfl) ⟨hFree, by decide⟩⟩
          intro fd loop hAccepted
          have hNever := hWaits.symm.trans hAccepted
          cases hNever
      | succ fd₀ =>
          unfold Server.accept getNextLoop
          simp only
          split_ifs with hLarge
          · refine ⟨_, hands_same ?_⟩
            intro fd p hAt
            exact at_frame rfl rfl (fun _ _ => id) hAt
          · refine
              ⟨_, @hands_moved _ _ _ .accepted none ?_ ?_ ?_⟩
            · rintro fd ⟨loop, hAccepted⟩
              cases hAccepted
              exact ⟨hFree, Nat.lt_of_not_le hLarge⟩
            · intro fd p hNone
              cases hNone
            · intro fd p hNe hAt
              cases p with
              | accepted => exact absurd rfl hNe
              | lost k => exact hAt
              | queued i k => exact hAt
              | object i id => exact hAt

/- `setSocketNonBlocking` returns. -/
theorem hands_setNonBlocking
    {succeeds : Bool}
    (hEnabled : s.enabled (.setNonBlocking succeeds)) :
    ∃ back, s.Hands (s.setNonBlocking succeeds) back := by
  rcases hEnabled with ⟨fd₀, loop, hPos⟩
  unfold Server.setNonBlocking
  rw [hPos]
  cases succeeds with
  | false =>
      rcases
        { s with
          lost := s.lost ++ [fd₀] }.handThisConn_frame with
        ⟨hLoops, hLost, _, hWaits⟩
      refine
        ⟨_, @hands_lost _ _ _ _ (some .accepted) hLoops hLost
          ?_ (.inr rfl) ⟨loop, hPos⟩⟩
      intro fd loop hAccepted
      have hNever := hWaits.symm.trans hAccepted
      cases hNever
  | true =>
      have hQueue :
          ((s.loops loop).queueInLoop fd₀).queued =
            (s.loops loop).queued ++ [fd₀] :=
        (List.append_assoc _ _ _).symm
      refine
        ⟨_, @hands_moved _ _ _
          (.queued loop (s.loops loop).queued.length)
          (some .accepted) ?_ ?_ ?_⟩
      · intro fd hAt
        change
          (Function.update s.loops loop
            ((s.loops loop).queueInLoop fd₀) loop).queued[
              (s.loops loop).queued.length]? =
            some fd at hAt
        rw [Function.update_self, hQueue,
          List.getElem?_concat_length] at hAt
        rcases Option.some.inj hAt with rfl
        exact ⟨loop, hPos⟩
      · rintro fd p hFrom hAt
        rcases Option.some.inj hFrom with rfl
        rcases hAt with ⟨loop, hNever⟩
        cases hNever
      · intro fd p hNe hAt
        cases p with
        | lost k => exact hAt
        | accepted =>
            rcases hAt with ⟨loop, hNever⟩
            cases hNever
        | queued i k =>
            change
              (Function.update s.loops loop
                ((s.loops loop).queueInLoop fd₀) i).queued[
                  k]? = some fd at hAt
            by_cases hLoop : i = loop
            · subst hLoop
              rw [Function.update_self, hQueue] at hAt
              have hLength :
                  k ≠ (s.loops i).queued.length := by
                rintro rfl
                exact hNe rfl
              have hBound :=
                (List.getElem?_eq_some_iff.mp hAt).1
              rw [List.length_append,
                List.length_singleton] at hBound
              rw [List.getElem?_append_left (by omega)]
                at hAt
              exact hAt
            · rw [Function.update_of_ne hLoop] at hAt
              exact hAt
        | object i id =>
            refine at_object ?_ hAt
            show (Function.update s.loops loop _ i).poller = _
            by_cases hLoop : i = loop
            · subst hLoop
              rw [Function.update_self]
              rfl
            · rw [Function.update_of_ne hLoop]

end Server

end V3

end WebServer

------------------------------------------------------------
-- Steps Of The Loops
------------------------------------------------------------

namespace WebServer

namespace V3

namespace Server

variable {numThreads : Nat}
variable {s : Server numThreads}

/- The server after a step of one of its loops. -/
def setLoop
    (s : Server numThreads)
    (i : Fin numThreads)
    (r : Reactor) : Server numThreads :=
  { s with loops := Function.update s.loops i r }

theorem setLoop_self
    (s : Server numThreads)
    (i : Fin numThreads)
    (r : Reactor) :
    (s.setLoop i r).loops i = r :=
  Function.update_self _ _ _

theorem setLoop_of_ne
    {i j : Fin numThreads}
    (hNe : j ≠ i)
    (s : Server numThreads)
    (r : Reactor) :
    (s.setLoop i r).loops j = s.loops j :=
  Function.update_of_ne hNe _ _

/-
  Where a descriptor was before a loop took some from its
  queue: behind those that were taken, or among them if its
  object is new.
-/
def backOfLoop
    (i : Fin numThreads)
    (nextId taken : Nat) :
    Place numThreads → Place numThreads
| .queued j k => .queued j (if j = i then taken + k else k)
| .object j id =>
    if j = i ∧ nextId ≤ id then
      .queued j (id - nextId)
    else
      .object j id
| p => p

/- Where it went: to its object, or forward in the queue. -/
def aheadOfLoop
    (i : Fin numThreads)
    (nextId taken : Nat) :
    Place numThreads → Place numThreads
| .queued j k =>
    if j = i then
      if k < taken then
        .object j (nextId + k)
      else
        .queued j (k - taken)
    else
      .queued j k
| p => p

/- A loop takes descriptors from its queue and opens them. -/
theorem hands_loop
    {i : Fin numThreads}
    {r : Reactor}
    {opened : List Fd}
    (hOwned : (s.loops i).poller.Owned)
    (hOwned' : r.poller.Owned)
    (hQueue : (s.loops i).queued = opened ++ r.queued)
    (hOpens : (s.loops i).poller.Opens r.poller opened) :
    s.Hands (s.setLoop i r) fun p =>
      some
        (backOfLoop i (s.loops i).poller.nextId opened.length
          p) := by
  have hHeld : ∀ fd id,
      (s.setLoop i r).At fd (.object i id) →
        (id < (s.loops i).poller.nextId ∧
          (s.loops i).poller.fd2http fd = some id) ∨
          ∃ k, opened[k]? = some fd ∧
            id = (s.loops i).poller.nextId + k := by
    intro fd id hAt
    rw [at_object_iff, setLoop_self] at hAt
    have hSlot := (hOwned'.alive_iff id fd).mp hAt
    rcases hOpens.held fd id hSlot with hOld | hNew
    · rcases hOwned.slots.object fd id hOld with
        ⟨obj, hObj, _⟩
      exact
        .inl ⟨(hOwned.slots.known id obj hObj).1, hOld⟩
    · exact .inr hNew
  constructor
  · intro fd p hAt
    cases p with
    | lost k => exact hAt
    | accepted => exact hAt
    | queued j k =>
        by_cases hLoop : j = i
        · subst hLoop
          change ((s.setLoop j r).loops j).queued[k]? =
            some fd at hAt
          rw [setLoop_self] at hAt
          simp only [backOfLoop, if_true]
          show (s.loops j).queued[opened.length + k]? = some fd
          rw [hQueue,
            List.getElem?_append_right
              (Nat.le_add_right _ _),
            Nat.add_sub_cancel_left]
          exact hAt
        · change ((s.setLoop i r).loops j).queued[k]? =
            some fd at hAt
          rw [setLoop_of_ne hLoop] at hAt
          simp only [backOfLoop, hLoop, if_false]
          exact hAt
    | object j id =>
        by_cases hLoop : j = i
        · subst hLoop
          rcases hHeld fd id hAt with
            ⟨hOld, hSlot⟩ | ⟨k, hOpened, rfl⟩
          · have hNot :
                ¬ (s.loops j).poller.nextId ≤ id :=
              Nat.not_le_of_lt hOld
            simp only [backOfLoop, hNot, and_false, if_false]
            exact (hOwned.alive_iff id fd).mpr hSlot
          · simp only [backOfLoop, Nat.le_add_right, and_true,
              if_true, Nat.add_sub_cancel_left]
            have hBound :=
              (List.getElem?_eq_some_iff.mp hOpened).1
            show (s.loops j).queued[k]? = some fd
            rw [hQueue, List.getElem?_append_left hBound]
            exact hOpened
        · simp only [backOfLoop, hLoop, false_and, if_false]
          refine at_object ?_ hAt
          rw [setLoop_of_ne hLoop]
  · intro fd p q hp hq hBack
    have hInverse : ∀ p, (s.setLoop i r).At fd p →
        aheadOfLoop i (s.loops i).poller.nextId opened.length
            (backOfLoop i (s.loops i).poller.nextId
              opened.length p) =
          p := by
      intro p hAt
      cases p with
      | lost k => rfl
      | accepted => rfl
      | queued j k =>
          by_cases hLoop : j = i
          · have hNot :
                ¬ opened.length + k < opened.length :=
              Nat.not_lt.mpr (Nat.le_add_right _ _)
            simp only [backOfLoop, aheadOfLoop, hLoop,
              if_true, hNot, if_false,
              Nat.add_sub_cancel_left]
          · simp only [backOfLoop, aheadOfLoop, hLoop,
              if_false]
      | object j id =>
          by_cases hLater :
              j = i ∧ (s.loops i).poller.nextId ≤ id
          · rcases hLater with ⟨rfl, hLater⟩
            -- a new object is one of those opened
            have hTaken :
                id - (s.loops j).poller.nextId <
                  opened.length := by
              rcases hHeld fd id hAt with
                ⟨hOld, _⟩ | ⟨k, hOpened, rfl⟩
              · exact absurd hLater (Nat.not_le_of_lt hOld)
              · rw [Nat.add_sub_cancel_left]
                exact (List.getElem?_eq_some_iff.mp hOpened).1
            simp only [backOfLoop, aheadOfLoop, true_and,
              hLater, if_true, hTaken,
              Nat.add_sub_cancel' hLater]
          · simp only [backOfLoop, aheadOfLoop, hLater,
              if_false]
    rw [← hInverse p hp, ← hInverse q hq,
      Option.some.inj hBack]

end Server

end V3

end WebServer

------------------------------------------------------------
-- Whole Runs
------------------------------------------------------------

namespace WebServer

namespace V3

namespace Server

variable {numThreads : Nat}
variable {s t : Server numThreads}
variable {handed : Fin numThreads → List Fd}

/- What a step hands to the loops. -/
def handOver
    (s : Server numThreads) :
    ServerStep numThreads →
      (Fin numThreads → List Fd) → Fin numThreads → List Fd
| .setNonBlocking true, handed =>
    match s.pos with
    | .accepted fd loop =>
        Function.update handed loop (handed loop ++ [fd])
    | _ => handed
| _, handed => handed

/-
  Every loop ran on what was handed to it, and a descriptor
  has one place, for which there are tables.
-/
structure Sound
    (s : Server numThreads)
    (handed : Fin numThreads → List Fd) : Prop where
  loops :
    ∀ i, ∃ record t,
      (s.loops i).Ran record t ∧ record.inserted = handed i
  distinct : s.Distinct
  bounded : s.Bounded

theorem not_open_start
    (size : PoolSize)
    (fd : Fd) :
    ¬ (start size).Open fd := by
  rintro ⟨p, hAt⟩
  cases p with
  | lost k => cases hAt
  | accepted =>
      rcases hAt with ⟨loop, hAccepted⟩
      cases hAccepted
  | queued i k => cases hAt
  | object i id =>
      rcases hAt.2 with ⟨obj, hObj, _⟩
      cases hObj

theorem sound_start
    (size : PoolSize) :
    (start size).Sound fun _ => [] where
  loops := fun _ => ⟨_, _, Reactor.ran_new, rfl⟩
  distinct := fun fd p _ hAt =>
    absurd ⟨p, hAt⟩ (not_open_start size fd)
  bounded := fun fd hOpen =>
    absurd hOpen (not_open_start size fd)

/- Steps that leave all descriptors where they are. -/
theorem Sound.frame
    (h : s.Sound handed)
    (hLoops : t.loops = s.loops)
    (hLost : t.lost = s.lost)
    (hPos :
      ∀ fd loop,
        t.pos = .accepted fd loop →
          s.pos = .accepted fd loop) :
    t.Sound handed := by
  have hHands : s.Hands t some :=
    hands_same fun _ _ hAt => at_frame hLoops hLost hPos hAt
  refine
    ⟨?_, h.distinct.of_back hHands,
      h.bounded.of_back hHands⟩
  rw [hLoops]
  exact h.loops

/- The descriptor of a functor is open nowhere else. -/
theorem Distinct.unused
    {i : Fin numThreads}
    (h : s.Distinct) :
    ∀ fd ∈ (s.loops i).thread.taken.head?,
      (s.loops i).poller.Unused fd := by
  intro fd hHead id obj hObj hAlive hFd
  have hQueued : s.At fd (.queued i 0) := by
    show (s.loops i).queued[0]? = some fd
    unfold Reactor.queued
    cases hTaken : (s.loops i).thread.taken with
    | nil =>
        rw [hTaken] at hHead
        cases hHead
    | cons first left =>
        rw [hTaken] at hHead
        exact hHead
  have hSame :=
    h fd _ _ hQueued
      ((s.at_object_iff fd i id).mpr ⟨hAlive, obj, hObj, hFd⟩)
  cases hSame

theorem Sound.loopStep
    {i : Fin numThreads}
    {e : ReactorStep}
    {r : Reactor}
    (h : s.Sound handed)
    (hEnabled : (s.loops i).enabled e)
    (hStep : (s.loops i).step e = some r) :
    (s.setLoop i r).Sound handed := by
  rcases h.loops i with ⟨record, t, hRan, hHanded⟩
  rcases
    hRan.step hEnabled (fun _ _ _ => h.distinct.unused)
      hStep with
    ⟨hQueue, hOpens, t', hNext⟩
  have hHands := hands_loop hRan.owned hNext.owned hQueue hOpens
  refine
    ⟨?_, h.distinct.of_back hHands,
      h.bounded.of_back hHands⟩
  intro j
  by_cases hLoop : j = i
  · subst hLoop
    rw [setLoop_self]
    exact ⟨_, _, hNext, hHanded⟩
  · rw [setLoop_of_ne hLoop]
    exact h.loops j

/- The main thread hands a descriptor over. -/
theorem Sound.setNonBlocking
    {succeeds : Bool}
    (h : s.Sound handed)
    (hEnabled : s.enabled (.setNonBlocking succeeds)) :
    (s.setNonBlocking succeeds).Sound
      (s.handOver (.setNonBlocking succeeds) handed) := by
  rcases hands_setNonBlocking hEnabled with ⟨back, hHands⟩
  refine
    ⟨?_, h.distinct.of_back hHands,
      h.bounded.of_back hHands⟩
  rcases hEnabled with ⟨fd, loop, hPos⟩
  intro i
  cases succeeds with
  | false =>
      have hLoops :
          (s.setNonBlocking false).loops = s.loops := by
        unfold Server.setNonBlocking
        rw [hPos]
        exact (handThisConn_frame _).1
      rw [hLoops]
      exact h.loops i
  | true =>
      unfold Server.setNonBlocking handOver
      rw [hPos]
      simp only [if_true]
      by_cases hLoop : i = loop
      · subst hLoop
        rw [Function.update_self, Function.update_self]
        rcases h.loops i with ⟨record, t, hRan, hHanded⟩
        refine ⟨_, _, hRan.queueInLoop fd, ?_⟩
        rw [← hHanded]
      · rw [Function.update_of_ne hLoop,
          Function.update_of_ne hLoop]
        exact h.loops i

theorem Sound.accept
    {result : Option Fd}
    (h : s.Sound handed)
    (hEnabled : s.enabled (.accept result)) :
    (s.accept result).Sound handed := by
  rcases hands_accept hEnabled with ⟨back, hHands⟩
  have hLoops : (s.accept result).loops = s.loops := by
    cases result with
    | none => exact (handThisConn_frame _).1
    | some fd =>
        cases fd with
        | zero => exact (handThisConn_frame _).1
        | succ fd =>
            unfold Server.accept getNextLoop
            simp only
            split_ifs <;> rfl
  refine
    ⟨?_, h.distinct.of_back hHands,
      h.bounded.of_back hHands⟩
  intro i
  rw [hLoops]
  exact h.loops i

/- Every step of every thread keeps the invariant. -/
theorem Sound.step
    {e : ServerStep numThreads}
    (h : s.Sound handed)
    (hEnabled : s.enabled e)
    (hStep : s.step e = some t) :
    t.Sound (s.handOver e handed) := by
  cases e with
  | connect =>
      rcases Option.some.inj hStep with rfl
      exact h.frame rfl rfl fun _ _ => id
  | pollAccept =>
      rcases Option.some.inj hStep with rfl
      exact h.frame rfl rfl fun _ _ hNever => nomatch hNever
  | accept result =>
      rcases Option.some.inj hStep with rfl
      exact h.accept hEnabled
  | setNonBlocking succeeds =>
      rcases Option.some.inj hStep with rfl
      exact h.setNonBlocking hEnabled
  | loop i e =>
      rcases Option.map_eq_some_iff.mp hStep with
        ⟨r, hNext, rfl⟩
      exact h.loopStep hEnabled hNext

theorem sound_of_reaches
    {size : PoolSize}
    {es : List (ServerStep size.val)}
    {s : Server size.val}
    (hRun :
      (serverMachine size.val).Reaches (start size) es s) :
    ∃ handed, s.Sound handed := by
  refine
    hRun.invariant (I := fun s => ∃ handed, s.Sound handed) ?_
      ⟨_, sound_start size⟩
  rintro s e t ⟨handed, h⟩ hEnabled hStep
  exact ⟨_, h.step hEnabled hStep⟩

/- A first connection is opened by the first loop. -/
theorem first_connection :
    ∃ s : Server 2,
      (serverMachine 2).Reaches (start ⟨2, Nat.two_pos⟩)
          [.connect, .pollAccept, .accept (some 5),
            .setNonBlocking true, .loop 0 .wakeup,
            .loop 0 (.epollWait (some [.wakeup])),
            .loop 0 .handleWakeup, .loop 0 .swapFunctors,
            .loop 0
              (.callFunctor ⟨0, 0, Timeval.on_second⟩ false)]
          s ∧
        s.At 5 (.object 0 0) := by
  have hFree : ∀ t : Server 2,
      t.loops = (start ⟨2, Nat.two_pos⟩).loops →
        t.lost = [] → t.pos = .accepting → ¬ t.Open 5 := by
    rintro t hLoops hLost hPos ⟨p, hAt⟩
    refine not_open_start ⟨2, Nat.two_pos⟩ 5 ⟨p, ?_⟩
    refine at_frame hLoops hLost ?_ hAt
    intro fd loop hAccepted
    rw [hPos] at hAccepted
    cases hAccepted
  exact
    ⟨_,
      .cons trivial rfl
        (.cons ⟨rfl, rfl, rfl, Nat.one_pos⟩ rfl
          (.cons ⟨rfl, Nat.one_pos, hFree _ rfl rfl rfl⟩ rfl
            (.cons ⟨5, 0, rfl⟩ rfl
              (.cons ⟨Nat.one_pos, trivial⟩ rfl
                (.cons
                  ⟨⟨rfl, fun _ => rfl, le_refl 1⟩,
                    List.nodup_nil, by simp⟩
                  rfl
                  (.cons ⟨⟨rfl, _, _, rfl⟩, _, rfl⟩ rfl
                    (.cons ⟨rfl, trivial⟩ rfl
                      (.cons ⟨⟨rfl, _, _, _, rfl⟩, trivial⟩
                        rfl (.nil _))))))))),
      .inl ⟨5, rfl⟩, _, rfl, rfl⟩

end Server

/-
  In a run of the server each loop behaves as the two loops
  that the other files treat: its thread took steps of a
  recorded loop, and its connections those of a loop that
  handles one report at a time and opens each connection with
  a descriptor of its own, in the order in which the thread
  executed the functors. Only reports of active connections
  are ahead.
-/
theorem server_loops_follow
    (size : PoolSize)
    (es : List (ServerStep size.val))
    (s : Server size.val)
    (hRun :
      (serverMachine size.val).Reaches (Server.start size) es
        s)
    (i : Fin size.val) :
    ∃ steps record ds t,
      recordedLoop.Reaches loopStart steps
          ((s.loops i).thread, record) ∧
        refusingLoop.Reaches .new ds t ∧
        ds.filterMap LoopEvent.opens = record.executed ∧
        (s.loops i).poller =
          t.reportAll
            ((s.loops i).active.map ActiveConn.fd) := by
  rcases Server.sound_of_reaches hRun with ⟨handed, hSound⟩
  rcases hSound.loops i with ⟨record, t, hRan, _⟩
  rcases hRan.thread with ⟨steps, hSteps⟩
  rcases hRan.connections with ⟨ds, hReach, hOpened⟩
  exact
    ⟨steps, record, ds, t, hSteps, hReach, hOpened,
      hRan.behind.poller⟩

theorem first_loop_follows :
    ∃ s : Server 2,
      s.At 5 (.object 0 0) ∧
        ∃ steps record ds t,
          recordedLoop.Reaches loopStart steps
              ((s.loops 0).thread, record) ∧
            refusingLoop.Reaches .new ds t ∧
            ds.filterMap LoopEvent.opens = record.executed ∧
            (s.loops 0).poller =
              t.reportAll
                ((s.loops 0).active.map ActiveConn.fd) := by
  rcases Server.first_connection with ⟨s, hRun, hAt⟩
  exact
    ⟨s, hAt,
      server_loops_follow ⟨2, Nat.two_pos⟩ _ s hRun 0⟩

/-
  In every run of the server a descriptor that is open has
  one place: the main thread, one position in the queue of
  one loop, one object that is alive in one loop, or none of
  them for good. And the poller tables have a slot for it.
-/
theorem descriptors_have_one_place
    (size : PoolSize)
    (es : List (ServerStep size.val))
    (s : Server size.val)
    (hRun :
      (serverMachine size.val).Reaches (Server.start size) es
        s)
    (fd : Fd) :
    (∀ p q, s.At fd p → s.At fd q → p = q) ∧
      (s.Open fd → fd < maxFds) := by
  rcases Server.sound_of_reaches hRun with ⟨handed, hSound⟩
  exact ⟨hSound.distinct fd, hSound.bounded fd⟩

theorem first_connection_has_one_place :
    ∃ s : Server 2,
      s.At 5 (.object 0 0) ∧
        (∀ p q, s.At 5 p → s.At 5 q → p = q) ∧
          (s.Open 5 → 5 < maxFds) := by
  rcases Server.first_connection with ⟨s, hRun, hAt⟩
  exact
    ⟨s, hAt,
      descriptors_have_one_place ⟨2, Nat.two_pos⟩ _ s hRun
        5⟩

end V3

end WebServer
