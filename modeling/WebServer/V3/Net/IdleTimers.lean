import WebServer.V3.Net.RefusedCalls

/-
  Timers close only idle connections in version 3.0.

  A superseded node stays in the queue. It is made harmless
  by `seperateTimer`, which takes the connection out of the
  node, and every round of the handlers must do so before it
  arms another.

  This file keeps a record of the rounds, each with the
  timer that it armed, and shows that in every run at most
  one node refers to a connection, that it is the node armed
  by its last round, and that a connection is closed by
  `handleExpiredEvent` only after that node expired.

  Key definitions include:
    * `Arming`
    * `HandlerRound`
    * `EventLoop.noteRounds`
    * `roundLoop`
    * `ArmedLast`

  Key theorems include:
    * `TimerManager.handleExpiredLoop_expired`
    * `TimerNode.elapsed_of_isValid_false`
    * `ArmedLast.step`
    * `timers_close_idle`
-/

------------------------------------------------------------
-- The Record Of A Run
------------------------------------------------------------

namespace WebServer

namespace V3

/- One call of `addTimer`, and the node that it allocates. -/
structure Arming where
  addr : TimerAddr
  timeout : Nat
  now : Timeval

def Arming.node
    (arming : Arming)
    (id : ConnId) : TimerNode :=
  .new arming.addr id arming.timeout arming.now

/-
  A round of the handlers of a connection, or its `newEvent`,
  and the timer that it armed.
-/
structure HandlerRound where
  id : ConnId
  armed : Option Arming

/- The latest round of a connection; the last one is first. -/
def lastRound
    (rounds : List HandlerRound)
    (id : ConnId) : Option HandlerRound :=
  rounds.find? fun round => round.id == id

namespace EventLoop

/- What a step adds to the record. -/
def noteRounds
    (s : EventLoop) :
    LoopEvent × Bool → List HandlerRound → List HandlerRound
| (.newEvent _ now, _), rounds =>
    ⟨s.nextId,
      some ⟨s.timers.nextAddr, defaultExpiredTime, now⟩⟩ ::
      rounds
| (.handleEvents fd revents fs reads writes now, _),
    rounds =>
    match s.handled fd revents fs reads writes with
    | none => rounds
    | some (id, _, c) =>
        match c.handleConn.1 with
        | .updatePoller timeout =>
            ⟨id, some ⟨s.timers.nextAddr, timeout, now⟩⟩ ::
              rounds
        | _ => ⟨id, none⟩ :: rounds
| (.handleExpired _ _, _), rounds => rounds

end EventLoop

/- The loop with the rounds of its connections. -/
def roundLoop :
    Machine (EventLoop × List HandlerRound) (LoopEvent × Bool) :=
  refusingLoop.recording EventLoop.noteRounds

theorem lastRound_cons_self
    (round : HandlerRound)
    (rounds : List HandlerRound) :
    lastRound (round :: rounds) round.id = some round := by
  simp [lastRound]

theorem lastRound_cons_of_ne
    {round : HandlerRound}
    {id : ConnId}
    (hNe : round.id ≠ id)
    (rounds : List HandlerRound) :
    lastRound (round :: rounds) id = lastRound rounds id := by
  simp [lastRound, hNe]

end V3

end WebServer

------------------------------------------------------------
-- Expired Nodes
------------------------------------------------------------

namespace WebServer

namespace V3

namespace TimerManager

/- What the expiry check closes was deleted or has expired. -/
theorem handleExpiredLoop_expired
    {policy : TopPolicy}
    {clock : Nat → Timeval}
    {fuel k : Nat}
    {q : List TimerNode}
    {id : ConnId}
    (hClosed :
      id ∈ (handleExpiredLoop policy clock fuel k q).2) :
    ∃ node ∈ q,
      node.spHttpData = some id ∧
        (node.deleted = true ∨
          ∃ i, (node.isValid (clock i)).1 = false) := by
  induction fuel generalizing k q with
  | zero => cases hClosed
  | succ fuel ih =>
      unfold handleExpiredLoop at hClosed
      cases hTop : policy.top q with
      | none =>
          rw [hTop] at hClosed
          cases hClosed
      | some node =>
          have hNode := policy.top_mem q node hTop
          have hRest : ∀ {k},
              id ∈
                  (handleExpiredLoop policy clock fuel k
                    (q.erase node)).2 →
                ∃ node ∈ q,
                  node.spHttpData = some id ∧
                    (node.deleted = true ∨
                      ∃ i,
                        (node.isValid (clock i)).1 =
                          false) := by
            intro k hLater
            rcases ih hLater with ⟨other, hOther, hDone⟩
            exact ⟨other, List.mem_of_mem_erase hOther, hDone⟩
          rw [hTop] at hClosed
          simp only at hClosed
          split_ifs at hClosed with hDeleted hExpired
          · rcases List.mem_append.mp hClosed with
              hNow | hLater
            · exact
                ⟨node, hNode, Option.mem_toList.mp hNow,
                  .inl hDeleted⟩
            · exact hRest hLater
          · rcases List.mem_append.mp hClosed with
              hNow | hLater
            · exact
                ⟨node, hNode, Option.mem_toList.mp hNow,
                  .inr ⟨k, hExpired⟩⟩
            · exact hRest hLater
          · cases hClosed

/- A node that refers to a connection is closed by expiry. -/
theorem Sound.expired
    {m : TimerManager}
    {policy : TopPolicy}
    {clock : Nat → Timeval}
    {id : ConnId}
    (h : m.Sound)
    (hClosed :
      id ∈ (m.handleExpiredEvent policy clock).2) :
    ∃ node ∈ m.timerNodeQueue,
      node.spHttpData = some id ∧
        ∃ i, (node.isValid (clock i)).1 = false := by
  rcases handleExpiredLoop_expired hClosed with
    ⟨node, hNode, hNames, hDeleted | hExpired⟩
  · rw [h.live node hNode, hNames] at hDeleted
    cases hDeleted
  · exact ⟨node, hNode, hNames, hExpired⟩

end TimerManager

namespace TimerNode

/- An expired node was armed at least its timeout before. -/
theorem elapsed_of_isValid_false
    {addr : TimerAddr}
    {id : ConnId}
    {timeout : Nat}
    {armed check : Timeval}
    (hExpired :
      ((new addr id timeout armed).isValid check).1 = false)
    (hLater : armed.millis ≤ check.millis) :
    armed.millis + timeout ≤ check.millis := by
  rw [isValid_new_eq_false_iff] at hExpired
  have hArmed := windowOf_add_intoWindow armed.millis
  have hCheck := windowOf_add_intoWindow check.millis
  have hWindows :
      clockWindow * windowOf armed.millis ≤
        clockWindow * windowOf check.millis :=
    Nat.mul_le_mul_left _ (windowOf_le hLater)
  omega

end TimerNode

end V3

end WebServer

------------------------------------------------------------
-- The Node Of The Last HandlerRound
------------------------------------------------------------

namespace WebServer

namespace V3

/- A node that refers to a connection was armed last. -/
def ArmedLast
    (s : EventLoop)
    (rounds : List HandlerRound) : Prop :=
  ∀ node ∈ s.timers.timerNodeQueue,
    ∀ id, node.spHttpData = some id →
      ∃ arming,
        lastRound rounds id = some ⟨id, some arming⟩ ∧
          node = arming.node id

/- Nodes may drop their connections, and may be popped. -/
theorem ArmedLast.sub
    {s t : EventLoop}
    {rounds : List HandlerRound}
    (h : ArmedLast s rounds)
    (hSub :
      ∀ node ∈ t.timers.timerNodeQueue, ∀ id,
        node.spHttpData = some id →
          node ∈ s.timers.timerNodeQueue) :
    ArmedLast t rounds := by
  intro node hNode id hNames
  exact h node (hSub node hNode id hNames) id hNames

/- A round of a connection to which no node refers. -/
theorem ArmedLast.round
    {s : EventLoop}
    {rounds : List HandlerRound}
    (h : ArmedLast s rounds)
    {id : ConnId}
    (hUnnamed : s.Unnamed id)
    (armed : Option Arming) :
    ArmedLast s (⟨id, armed⟩ :: rounds) := by
  intro node hNode id' hNames
  have hNe : id ≠ id' := by
    rintro rfl
    exact hUnnamed node hNode hNames
  rw [lastRound_cons_of_ne hNe]
  exact h node hNode id' hNames

/- The round that arms a new timer. -/
theorem ArmedLast.arm
    {s t : EventLoop}
    {rounds : List HandlerRound}
    {id : ConnId}
    {timeout : Nat}
    {now : Timeval}
    (h : ArmedLast s rounds)
    (hUnnamed : s.Unnamed id)
    (hTimers :
      t.timers = (s.timers.addTimer id timeout now).1) :
    ArmedLast t
      (⟨id, some ⟨s.timers.nextAddr, timeout, now⟩⟩ ::
        rounds) := by
  intro node hNode id' hNames
  rw [hTimers] at hNode
  rcases List.mem_cons.mp hNode with rfl | hKept
  · cases hNames
    exact ⟨_, lastRound_cons_self _ _, rfl⟩
  · exact h.round hUnnamed _ node hKept id' hNames

/- Closing expired connections leaves the queue alone. -/
theorem EventLoop.closeAll_timers
    (s : EventLoop)
    (due : List ConnId) :
    (due.foldl EventLoop.closeExpired s).timers = s.timers := by
  induction due generalizing s with
  | nil => rfl
  | cons id due ih =>
      refine (ih _).trans ?_
      unfold EventLoop.closeExpired
      cases s.objects id <;> rfl

/- Every round cuts the link of the one before it. -/
theorem ArmedLast.step
    {s t : EventLoop}
    {rounds : List HandlerRound}
    {e : LoopEvent × Bool}
    (h : ArmedLast s rounds)
    (hOwned : s.Owned)
    (hStep : refusingLoop.step s e = some t) :
    ArmedLast t (s.noteRounds e rounds) := by
  have hDrops : ∀ {u : EventLoop} {rounds},
      ArmedLast u rounds →
        ∀ {t}, u.Drops t → ArmedLast t rounds := by
    intro u rounds hArmed t hDrops
    refine hArmed.sub ?_
    rw [hDrops.timers]
    exact fun node hNode _ _ => hNode
  rcases e with ⟨e, refused⟩
  cases e with
  | newEvent fd now =>
      cases hStep
      -- no node refers to a connection that is yet to come
      have hUnnamed : s.Unnamed s.nextId := by
        intro node hNode hNames
        rcases hOwned.node node hNode _ hNames with
          ⟨obj, hObj, _⟩
        exact
          Nat.lt_irrefl _ (hOwned.slots.known _ obj hObj).1
      have hOpened :=
        h.arm (t := s.opened fd now) hUnnamed rfl
      exact
        hDrops hOpened
          (EventLoop.drops_tryNewEvent refused s fd now)
  | handleEvents fd revents fs reads writes now =>
      unfold EventLoop.noteRounds
      rcases EventLoop.tryHandleEvents_cases hStep with
        ⟨hNone, hSame | ⟨id, obj, obj', _, _, _, hSame⟩⟩ |
          ⟨id, obj, c, hSome, _, hObj, hCall, rfl⟩
      · simp only [hNone]
        exact hDrops h hSame
      · simp only [hNone]
        have hPut : ArmedLast (s.put id obj') rounds := h
        exact hDrops hPut hSame
      · simp only [hSome]
        have hUnnamed := (hOwned.seperate hObj).2
        have hAddr :
            (s.seperated obj).timers.nextAddr =
              s.timers.nextAddr :=
          TimerManager.seperate_nextAddr _ _
        have hKept : ArmedLast (s.seperated obj) rounds :=
          h.sub fun node hNode _ hNames =>
            (TimerManager.mem_of_seperate hNode hNames).1
        rcases hOwned.handled_cases hObj hCall now with
          ⟨hArms, next, _, _, _, hSame⟩ |
            ⟨hKeeps, next, _, _, hSame⟩ |
            ⟨hCloses, next, _, _, hSame⟩
        · rw [hArms, ← hAddr]
          exact hDrops (hKept.arm hUnnamed rfl) hSame
        · rw [hKeeps]
          refine hDrops ?_ hSame
          exact hKept.round hUnnamed none
        · rw [hCloses]
          refine hDrops ?_ hSame
          exact hKept.round hUnnamed none
  | handleExpired policy clock =>
      cases hStep
      refine h.sub ?_
      intro node hNode id _
      unfold EventLoop.handleExpired at hNode
      rw [EventLoop.closeAll_timers] at hNode
      exact TimerManager.mem_of_handleExpiredEvent hNode

end V3

end WebServer

------------------------------------------------------------
-- Whole Runs
------------------------------------------------------------

namespace WebServer

namespace V3

/-
  At a reading of the clock the timeout is over, by the test
  of the node and, unless the clock was set back, by the
  wall clock.
-/
def Arming.Expired
    (arming : Arming)
    (id : ConnId)
    (check : Timeval) : Prop :=
  ((arming.node id).isValid check).1 = false ∧
    (arming.now.millis ≤ check.millis →
      arming.now.millis + arming.timeout ≤ check.millis)

theorem EventLoop.Owned.length_filter_le_one
    {s : EventLoop}
    (h : s.Owned)
    (id : ConnId) :
    (s.timers.timerNodeQueue.filter
      fun node => node.spHttpData = some id).length ≤ 1 := by
  have hNodup :
      (s.timers.timerNodeQueue.filter
        fun node => node.spHttpData = some id).Nodup :=
    h.sound.addrs.of_map.filter _
  have hNamed : ∀ node ∈
      s.timers.timerNodeQueue.filter
        fun node => node.spHttpData = some id,
      node ∈ s.timers.timerNodeQueue ∧
        node.spHttpData = some id := by
    intro node hNode
    simpa using List.mem_filter.mp hNode
  generalize
    (s.timers.timerNodeQueue.filter
      fun node => node.spHttpData = some id) = nodes
    at hNodup hNamed
  cases nodes with
  | nil => exact Nat.zero_le _
  | cons node nodes =>
      cases nodes with
      | nil => exact Nat.le_refl _
      | cons node' nodes =>
          have hFirst := hNamed node List.mem_cons_self
          have hSecond :=
            hNamed node'
              (List.mem_cons_of_mem _ List.mem_cons_self)
          have hSame :=
            h.unique hFirst.1 hSecond.1 hFirst.2 hSecond.2
          subst hSame
          exact
            absurd List.mem_cons_self
              (List.nodup_cons.mp hNodup).1

theorem roundLoop_invariant
    {es : List (LoopEvent × Bool)}
    {r : EventLoop × List HandlerRound}
    (hRun : roundLoop.Reaches (.new, []) es r) :
    r.1.Owned ∧ ArmedLast r.1 r.2 := by
  apply
    Machine.Reaches.invariant
      (I := fun r : EventLoop × List HandlerRound =>
        r.1.Owned ∧ ArmedLast r.1 r.2)
      ?_ ?_ hRun
  · rintro ⟨s, rounds⟩ e r ⟨hOwned, h⟩ hEnabled hStep
    rcases Option.map_eq_some_iff.mp hStep with
      ⟨t, hNext, rfl⟩
    exact
      ⟨hOwned.step hEnabled hNext, h.step hOwned hNext⟩
  · exact
      ⟨EventLoop.owned_new, fun _ hNode => nomatch hNode⟩

/-
  In every run of a loop at most one node of the queue still
  refers to a connection, it is the node that its last round
  armed, and `handleExpiredEvent` closes a connection only
  when the timeout armed by its last round is over.
-/
theorem timers_close_idle
    {es : List (LoopEvent × Bool)}
    {s : EventLoop}
    {rounds : List HandlerRound}
    (hRun : roundLoop.Reaches (.new, []) es (s, rounds)) :
    (∀ id,
      (s.timers.timerNodeQueue.filter
        fun node => node.spHttpData = some id).length ≤
        1) ∧
      (∀ node ∈ s.timers.timerNodeQueue,
        ∀ id, node.spHttpData = some id →
          ∃ arming,
            lastRound rounds id = some ⟨id, some arming⟩ ∧
              node = arming.node id) ∧
      ∀ policy clock id,
        id ∈ (s.timers.handleExpiredEvent policy clock).2 →
          ∃ arming i,
            lastRound rounds id = some ⟨id, some arming⟩ ∧
              arming.Expired id (clock i) := by
  rcases roundLoop_invariant hRun with ⟨hOwned, hArmed⟩
  refine ⟨hOwned.length_filter_le_one, hArmed, ?_⟩
  intro policy clock id hClosed
  rcases hOwned.sound.expired hClosed with
    ⟨node, hNode, hNames, i, hExpired⟩
  rcases hArmed node hNode id hNames with
    ⟨arming, hLast, rfl⟩
  exact
    ⟨arming, i, hLast, hExpired,
      TimerNode.elapsed_of_isValid_false hExpired⟩

/- A connection is served before its first timeout is over. -/
def servedInTime : List (LoopEvent × Bool) :=
  [ (.newEvent 5 ⟨0, 0, Timeval.on_second⟩, false),
    (.handleEvents 5 { Events.none with epollIn := true }
      noFiles
      [ .data (utf8 "GET /hello HTTP/1.1\r\nHost: a\r\n\r\n"),
        .eagain ]
      [.accepted 4096] ⟨1, 0, Timeval.on_second⟩, false) ]

theorem timers_close_idle_served :
    ∃ s rounds,
      roundLoop.Reaches (.new, []) servedInTime (s, rounds) ∧
        rounds.map (fun round =>
            round.armed.map Arming.addr) =
          [some 1, some 0] ∧
        ((∀ id,
          (s.timers.timerNodeQueue.filter
            fun node => node.spHttpData = some id).length ≤
            1) ∧
          (∀ node ∈ s.timers.timerNodeQueue,
            ∀ id, node.spHttpData = some id →
              ∃ arming,
                lastRound rounds id =
                    some ⟨id, some arming⟩ ∧
                  node = arming.node id) ∧
          ∀ policy clock id,
            id ∈ (s.timers.handleExpiredEvent policy
                clock).2 →
              ∃ arming i,
                lastRound rounds id =
                    some ⟨id, some arming⟩ ∧
                  arming.Expired id (clock i)) := by
  have hFree : EventLoop.new.Unused 5 :=
    EventLoop.owned_new.unused rfl
  have hReports := Registration.readable_reported
  obtain ⟨r, hOpened⟩ : ∃ r,
      r =
        (EventLoop.new.tryNewEvent false 5
            ⟨0, 0, by decide⟩,
          EventLoop.new.noteRounds
            (.newEvent 5 ⟨0, 0, by decide⟩, false) []) :=
    ⟨_, rfl⟩
  have hServed :
      (roundLoop.step r
          (.handleEvents 5
            { Events.none with epollIn := true } noFiles
            [ .data
                (utf8
                  "GET /hello HTTP/1.1\r\nHost: a\r\n\r\n"),
              .eagain ]
            [.accepted 4096] ⟨1, 0, by decide⟩, false)).map
          (fun r =>
            r.2.map fun round =>
              round.armed.map Arming.addr) =
        some [some 1, some 0] := by
    rw [hOpened]
    decide +kernel
  rcases Option.map_eq_some_iff.mp hServed with
    ⟨⟨s, rounds⟩, hStep, hRounds⟩
  have hEnabled :
      ∃ reg,
        r.1.epoll 5 = some reg ∧
          reg.Reports
            { Events.none with epollIn := true } := by
    rw [hOpened]
    exact ⟨_, rfl, hReports⟩
  have hRun :
      roundLoop.Reaches (.new, []) servedInTime
        (s, rounds) :=
    .cons hFree (congrArg some hOpened.symm)
      (.cons hEnabled hStep (.nil _))
  exact
    ⟨s, rounds, hRun, hRounds, timers_close_idle hRun⟩

end V3

end WebServer
