import WebServer.V3.Server

/-
  Whether the server of version 3.0 goes on accepting
  (`Server::handNewConn`, `Server::handThisConn`).

  The listening socket is edge-triggered, so `handNewConn`
  must take every connection off the backlog before it
  returns: one that stays behind is not reported again until
  another one comes. And each pass must leave the channel
  with the events that it had, or the poller registers none.

  Key definitions include:
    * `Server.Listens`
    * `Server.DrainsBacklog`

  Key theorems include:
    * `Server.Asks.step`
    * `Server.Asks.deaf_of_failure`
    * `server_listens_iff`
-/

------------------------------------------------------------
-- Listening
------------------------------------------------------------

namespace WebServer

namespace V3

namespace Server

variable {numThreads : Nat}

/-
  Where the main thread waits, the kernel watches the socket
  for connections, and one not yet accepted is an edge that
  it will report.
-/
def Listens
    (s : Server numThreads) : Prop :=
  s.pos = .waiting →
    s.registered.epollIn = true ∧
      (0 < s.backlog → s.edge = true)

/-
  `handNewConn` ends with nothing left on the backlog, or
  with an edge for what came meanwhile, and no descriptor
  fails to be made non-blocking.
-/
def DrainsBacklog
    (s : Server numThreads) :
    ServerStep numThreads → Prop
| .accept none => s.backlog = 0 ∨ s.edge = true
| .accept (some 0) => s.backlog ≤ 1 ∨ s.edge = true
| .setNonBlocking succeeds => succeeds = true
| _ => True

/- No client will be accepted any more. -/
def Deaf
    (s : Server numThreads) : Prop :=
  s.pos = .waiting ∧ s.registered.epollIn = false

/-
  The kernel watches the socket for what the channel asked
  for last, and the channel asks for it again at the end of
  every pass.
-/
structure Asks
    (s : Server numThreads) : Prop where
  registered : s.registered = .inEt
  lastEvents : s.acceptChannel.lastEvents = .inEt
  events :
    s.pos ≠ .waiting → s.acceptChannel.events = .none

theorem asks_start
    (size : PoolSize) :
    (start size).Asks where
  registered := rfl
  lastEvents := rfl
  events := fun hPos => absurd rfl hPos

/- The pass ends with the events asked for again. -/
theorem handThisConn_of_inEt
    {s : Server numThreads}
    (hEvents : s.acceptChannel.events = .inEt)
    (hLast : s.acceptChannel.lastEvents = .inEt) :
    s.handThisConn = { s with pos := .waiting } := by
  rcases s with
    ⟨loops, next, ⟨events, lastEvents⟩, registered, backlog,
      edge, pos, lost⟩
  subst hEvents
  subst hLast
  rfl

/- The pass ends with none, and the poller registers none. -/
theorem handThisConn_of_none
    {s : Server numThreads}
    (hEvents : s.acceptChannel.events = .none)
    (hLast : s.acceptChannel.lastEvents = .inEt) :
    s.handThisConn.Deaf := by
  rcases s with
    ⟨loops, next, ⟨events, lastEvents⟩, registered, backlog,
      edge, pos, lost⟩
  subst hEvents
  subst hLast
  exact ⟨rfl, rfl⟩

end Server

end V3

end WebServer

------------------------------------------------------------
-- Steps
------------------------------------------------------------

namespace WebServer

namespace V3

namespace Server

variable {numThreads : Nat}
variable {s t : Server numThreads}

theorem busy_of_accepting
    (hPos : s.pos = .accepting) :
    s.pos ≠ .waiting := by
  rw [hPos]
  intro hWaits
  cases hWaits

theorem busy_of_accepted
    {fd : Fd}
    {loop : Fin numThreads}
    (hPos : s.pos = .accepted fd loop) :
    s.pos ≠ .waiting := by
  rw [hPos]
  intro hWaits
  cases hWaits

/- `accept` fails, and the loop of `handNewConn` ends. -/
theorem Asks.accept_none
    (h : s.Asks) :
    s.accept none =
      { s with
        acceptChannel := s.acceptChannel.setEvents .inEt
        pos := .waiting } :=
  handThisConn_of_inEt rfl h.lastEvents

/- The descriptor 0 ends the loop as well. -/
theorem Asks.accept_zero
    (h : s.Asks) :
    s.accept (some 0) =
      { s with
        backlog := s.backlog - 1
        lost := s.lost ++ [0]
        acceptChannel := s.acceptChannel.setEvents .inEt
        pos := .waiting } :=
  handThisConn_of_inEt rfl h.lastEvents

/- A descriptor is closed, or belongs to the main thread. -/
theorem accept_succ
    (s : Server numThreads)
    (fd : Fd) :
    s.accept (some (fd + 1)) =
      { s with
        backlog := s.backlog - 1
        next := s.getNextLoop.2.next
        pos :=
          if maxFds ≤ fd + 1 then
            s.pos
          else
            .accepted (fd + 1) s.next } := by
  unfold Server.accept getNextLoop
  simp only
  split <;> rfl

/- `handNewConn` returns without asking for events again. -/
theorem Asks.deaf_of_failure
    {fd : Fd}
    {loop : Fin numThreads}
    (h : s.Asks)
    (hPos : s.pos = .accepted fd loop) :
    (s.setNonBlocking false).Deaf := by
  unfold Server.setNonBlocking
  rw [hPos]
  exact
    handThisConn_of_none (h.events (busy_of_accepted hPos))
      h.lastEvents

/- No other step takes the events back. -/
theorem Asks.step
    {e : ServerStep numThreads}
    (h : s.Asks)
    (hEnabled : s.enabled e)
    (hNot : e ≠ .setNonBlocking false)
    (hStep : s.step e = some t) :
    t.Asks := by
  cases e with
  | connect =>
      rcases Option.some.inj hStep with rfl
      exact ⟨h.registered, h.lastEvents, h.events⟩
  | pollAccept =>
      rcases Option.some.inj hStep with rfl
      exact ⟨h.registered, h.lastEvents, fun _ => rfl⟩
  | accept result =>
      rcases Option.some.inj hStep with rfl
      cases result with
      | none =>
          rw [h.accept_none]
          exact
            ⟨h.registered, h.lastEvents,
              fun hPos => absurd rfl hPos⟩
      | some fd =>
          have hBusy := busy_of_accepting hEnabled.1
          cases fd with
          | zero =>
              rw [h.accept_zero]
              exact
                ⟨h.registered, h.lastEvents,
                  fun hPos => absurd rfl hPos⟩
          | succ fd =>
              rw [accept_succ]
              exact
                ⟨h.registered, h.lastEvents,
                  fun _ => h.events hBusy⟩
  | setNonBlocking succeeds =>
      rcases Option.some.inj hStep with rfl
      rcases hEnabled with ⟨fd, loop, hPos⟩
      cases succeeds with
      | false => exact absurd rfl hNot
      | true =>
          unfold Server.setNonBlocking
          rw [hPos]
          exact
            ⟨h.registered, h.lastEvents,
              fun _ => h.events (busy_of_accepted hPos)⟩
  | loop i e =>
      rcases Option.map_eq_some_iff.mp hStep with
        ⟨r, _, rfl⟩
      exact ⟨h.registered, h.lastEvents, h.events⟩

/- A server that is deaf stays so, whatever its clients do. -/
theorem Deaf.step
    {e : ServerStep numThreads}
    (h : s.Deaf)
    (hEnabled : s.enabled e)
    (hStep : s.step e = some t) :
    t.Deaf := by
  cases e with
  | connect =>
      rcases Option.some.inj hStep with rfl
      exact h
  | pollAccept =>
      have hOn : s.registered.epollIn = true := hEnabled.2.1
      rw [h.2] at hOn
      cases hOn
  | accept result =>
      have hPos : s.pos = .accepting := by
        cases result with
        | none => exact hEnabled
        | some fd => exact hEnabled.1
      rw [h.1] at hPos
      cases hPos
  | setNonBlocking succeeds =>
      rcases hEnabled with ⟨fd, loop, hPos⟩
      rw [h.1] at hPos
      cases hPos
  | loop i e =>
      rcases Option.map_eq_some_iff.mp hStep with
        ⟨r, _, rfl⟩
      exact h

/- An edge is pending for what is left on the backlog. -/
def Reported
    (s : Server numThreads) : Prop :=
  s.pos = .waiting → 0 < s.backlog → s.edge = true

theorem Asks.listens_iff
    (h : s.Asks) :
    s.Listens ↔ s.Reported := by
  unfold Listens Reported
  rw [h.registered]
  exact
    ⟨fun hListens hPos => (hListens hPos).2,
      fun hReported hPos => ⟨rfl, hReported hPos⟩⟩

/- What ends a pass, reports what it leaves or strands it. -/
theorem Asks.reported_step
    {e : ServerStep numThreads}
    (h : s.Asks)
    (hReported : s.Reported)
    (hEnabled : s.enabled e)
    (hNot : e ≠ .setNonBlocking false)
    (hStep : s.step e = some t) :
    t.Reported ↔ s.DrainsBacklog e := by
  unfold Reported
  cases e with
  | connect =>
      rcases Option.some.inj hStep with rfl
      refine ⟨fun _ => trivial, fun _ _ _ => ?_⟩
      show (s.edge || s.registered.epollIn) = true
      rw [h.registered]
      exact Bool.or_true _
  | pollAccept =>
      rcases Option.some.inj hStep with rfl
      refine ⟨fun _ => trivial, fun _ hPos => ?_⟩
      cases hPos
  | accept result =>
      rcases Option.some.inj hStep with rfl
      cases result with
      | none =>
          rw [h.accept_none]
          show (_ → 0 < s.backlog → s.edge = true) ↔
            s.backlog = 0 ∨ s.edge = true
          constructor
          · intro hEdge
            rcases Nat.eq_zero_or_pos s.backlog with
              hNone | hMore
            · exact .inl hNone
            · exact .inr (hEdge rfl hMore)
          · rintro (hNone | hEdge) _ hMore
            · exact absurd hNone (Nat.ne_of_gt hMore)
            · exact hEdge
      | some fd =>
          have hBusy := busy_of_accepting hEnabled.1
          cases fd with
          | zero =>
              rw [h.accept_zero]
              show (_ → 0 < s.backlog - 1 → s.edge = true) ↔
                s.backlog ≤ 1 ∨ s.edge = true
              constructor
              · intro hEdge
                rcases Nat.lt_or_ge 1 s.backlog with
                  hMore | hLast
                · exact .inr (hEdge rfl (by omega))
                · exact .inl hLast
              · rintro (hLast | hEdge) _ hMore
                · omega
                · exact hEdge
          | succ fd =>
              rw [accept_succ]
              refine ⟨fun _ => trivial, fun _ hPos => ?_⟩
              simp only at hPos
              split at hPos
              next => exact absurd hPos hBusy
              next => cases hPos
  | setNonBlocking succeeds =>
      rcases Option.some.inj hStep with rfl
      rcases hEnabled with ⟨fd, loop, hPos⟩
      cases succeeds with
      | false => exact absurd rfl hNot
      | true =>
          refine ⟨fun _ => rfl, fun _ hWaits => ?_⟩
          unfold Server.setNonBlocking at hWaits
          rw [hPos] at hWaits
          cases hWaits
  | loop i e =>
      rcases Option.map_eq_some_iff.mp hStep with
        ⟨r, _, rfl⟩
      exact ⟨fun _ => trivial, fun _ => hReported⟩

end Server

end V3

end WebServer

------------------------------------------------------------
-- Whole Runs
------------------------------------------------------------

namespace WebServer

namespace V3

/-
  In every run the main thread waits only where the socket
  is watched and no connection is stranded on the backlog,
  exactly when each pass drains the backlog and no
  descriptor fails to be made non-blocking. From such a
  failure on, the server never accepts again.
-/
theorem server_listens_iff
    (size : PoolSize)
    (es : List (ServerStep size.val)) :
    ((serverMachine size.val).Always Server.Listens
        (Server.start size) es ↔
      (serverMachine size.val).StepsMeet Server.DrainsBacklog
        (Server.start size) es) ∧
      ∀ s t,
        (serverMachine size.val).Reaches (Server.start size)
          es s →
        (∃ fd loop, s.pos = .accepted fd loop) →
        s.step (.setNonBlocking false) = some t →
        ∀ es',
          (serverMachine size.val).Always Server.Deaf t es' := by
  have hDrains : ∀ s : Server size.val,
      ∀ e, s.DrainsBacklog e → e ≠ .setNonBlocking false := by
    rintro s e hMeets rfl
    cases hMeets
  constructor
  · apply
      Machine.always_iff_stepsMeet
        (I := fun s : Server size.val =>
          s.Asks ∧ s.Reported)
    · intro s h
      exact h.1.listens_iff.mpr h.2
    · intro s e t h hEnabled hMeets hStep
      have hNot := hDrains s e hMeets
      exact
        ⟨h.1.step hEnabled hNot hStep,
          (h.1.reported_step h.2 hEnabled hNot hStep).mpr
            hMeets⟩
    · intro s e h hEnabled hLeaves
      by_cases hNot : e = .setNonBlocking false
      · subst hNot
        rcases hEnabled with ⟨fd, loop, hPos⟩
        have hDeaf := h.1.deaf_of_failure hPos
        refine ⟨_, rfl, ?_⟩
        intro hListens
        have hOn := (hListens hDeaf.1).1
        rw [hDeaf.2] at hOn
        cases hOn
      · cases hStep : s.step e with
        | none =>
            have hMeets : s.DrainsBacklog e := by
              cases e with
              | loop i e => trivial
              | connect => cases hStep
              | pollAccept => cases hStep
              | accept result => cases hStep
              | setNonBlocking succeeds => cases hStep
            exact absurd hMeets hLeaves
        | some t =>
            refine ⟨t, hStep, ?_⟩
            intro hListens
            have hAsks := h.1.step hEnabled hNot hStep
            exact
              hLeaves
                ((h.1.reported_step h.2 hEnabled hNot
                  hStep).mp (hAsks.listens_iff.mp hListens))
    · refine ⟨Server.asks_start size, ?_⟩
      intro _ hMore
      exact absurd hMore (Nat.lt_irrefl 0)
  · intro s t hRun hAccepted hStep
    have hInv : s.Asks ∨ s.Deaf := by
      refine hRun.invariant (I := fun s => s.Asks ∨ s.Deaf)
        ?_ (.inl (Server.asks_start size))
      rintro s e t (hAsks | hDeaf) hEnabled hStep
      · by_cases hNot : e = .setNonBlocking false
        · subst hNot
          rcases Option.some.inj hStep with rfl
          rcases hEnabled with ⟨fd, loop, hPos⟩
          exact .inr (hAsks.deaf_of_failure hPos)
        · exact .inl (hAsks.step hEnabled hNot hStep)
      · exact .inr (hDeaf.step hEnabled hStep)
    rcases Option.some.inj hStep with rfl
    rcases hAccepted with ⟨fd, loop, hPos⟩
    rcases hInv with hAsks | hDeaf
    · intro es'
      refine
        Machine.always_of_preserved (I := Server.Deaf) ?_
          (hAsks.deaf_of_failure hPos) es'
      intro s e t hDeaf hEnabled hStep
      exact Server.Deaf.step hDeaf hEnabled hStep
    · have hWaits := hDeaf.1
      rw [hPos] at hWaits
      cases hWaits

end V3

end WebServer
