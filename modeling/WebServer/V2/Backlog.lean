import Mathlib.Data.List.Nodup
import WebServer.V2.MainLoop

/-
  The clients that version 2.0 leaves on its backlog
  (`Server::set_events`, `deal_listen_event`,
  `Utils::addfd`).

  The listening socket is registered edge-triggered, and
  each report of it is answered by one `accept`. A client
  that connects while the kernel still has an edge to report
  brings no other, so one client more than reports is left
  on the backlog from then on. When as many are left as the
  backlog has room for, nobody is accepted any more.

  Key definitions include:
    * `Backlogged`
    * `Backlogged.due`
    * `backlogMachine`
    * `Accounts`

  Key theorems include:
    * `Accounts.step`
    * `late_clients_are_left`
-/

------------------------------------------------------------
-- The Listening Socket
------------------------------------------------------------

namespace WebServer

namespace V2

/-
  The server, the connections not yet accepted, and whether
  the kernel has an edge of the socket to report.
-/
structure Backlogged where
  serving : Serving
  backlog : Nat
  edge : Bool

/- A client connects, or a thread of the server goes on. -/
inductive BacklogEvent
| connect
| serve (e : ServingEvent)
deriving DecidableEq, Repr

/- `epoll_wait` reports the listening socket. -/
def ServingEvent.reportsListener :
    ServingEvent → Bool
| .epollWait reports => .listen ∈ reports
| _ => false

/- The main thread comes to a report of the socket. -/
def Serving.accepts
    (st : Serving)
    (e : ServingEvent) : Bool :=
  match e, st.events with
  | .handle _, .listen :: _ => true
  | _, _ => false

namespace Backlogged

/-
  After `listen` and `addfd`, where `early` clients had
  connected in between.
-/
def start
    (early : Nat) : Backlogged where
  serving := .init
  backlog := early
  edge := 0 < early

/-
  The kernel takes a client while there is room, and reports
  the socket where it has an edge.
-/
def enabled
    (room : Nat)
    (b : Backlogged) :
    BacklogEvent → Prop
| .connect => b.backlog < room
| .serve e =>
    b.serving.enabled e ∧
      (e.reportsListener = true → b.edge = true)

instance
    (room : Nat)
    (b : Backlogged) :
    ∀ e, Decidable (b.enabled room e)
| .connect => inferInstanceAs (Decidable (_ < _))
| .serve _ => inferInstanceAs (Decidable (_ ∧ _))

def step
    (b : Backlogged) :
    BacklogEvent → Option Backlogged
| .connect =>
    some
      { b with
        backlog := b.backlog + 1
        edge := true }
| .serve e => do
    let serving ← b.serving.step e
    some
      { serving := serving
        backlog :=
          if b.serving.accepts e then
            b.backlog - 1
          else
            b.backlog
        edge := b.edge && !e.reportsListener }

/- The reports that are still to come or to be handled. -/
def due
    (b : Backlogged) : Nat :=
  b.edge.toNat + b.serving.events.count .listen

/- The backlog is full and no report is due. -/
def Deaf
    (room : Nat)
    (b : Backlogged) : Prop :=
  b.backlog = room ∧ b.due = 0

/- The client connects where no edge is to report. -/
def InTime
    (b : Backlogged) :
    BacklogEvent → Prop
| .connect => b.edge = false
| .serve _ => True

/- How many clients came while one was. -/
def late
    (b : Backlogged) :
    BacklogEvent → Nat → Nat
| .connect, n => n + b.edge.toNat
| .serve _, n => n

end Backlogged

/- The server on a socket with room for so many clients. -/
def backlogMachine
    (room : Nat) : Machine Backlogged BacklogEvent where
  enabled := Backlogged.enabled room
  step := Backlogged.step

instance
    (room : Nat)
    (b : Backlogged)
    (e : BacklogEvent) :
    Decidable ((backlogMachine room).enabled b e) :=
  inferInstanceAs (Decidable (b.enabled room e))

/-
  The backlog has one client for each report that is due,
  and the clients that came too late for one.
-/
structure Accounts
    (room : Nat)
    (r : Backlogged × Nat) : Prop where
  backlog : r.1.backlog = r.1.due + r.2
  room : r.1.backlog ≤ room

end V2

end WebServer

------------------------------------------------------------
-- The Reports Of A Step
------------------------------------------------------------

namespace WebServer

namespace V2

namespace Serving

variable {st t : Serving}

@[simp] theorem serve_events
    (st : Serving)
    (server : ServerState) :
    (st.serve server).events = st.events := rfl

@[simp] theorem modfd_events
    (st : Serving)
    (sockfd : Option Fd)
    (ev : Interest) :
    (st.modfd sockfd ev).events = st.events := by
  unfold modfd
  split
  · rfl
  · split <;> rfl

theorem dealReadEvent_events
    (st : Serving)
    (fd : Fd)
    (a : Answers) :
    (st.dealReadEvent fd a).events = st.events := by
  unfold dealReadEvent
  split <;> rfl

theorem dealWriteEvent_events
    {fd : Fd}
    {a : Answers}
    (hStep : st.dealWriteEvent fd a = some t) :
    t.events = st.events := by
  unfold dealWriteEvent at hStep
  dsimp only at hStep
  split at hStep
  · simp only [Option.bind_eq_bind,
      Option.bind_eq_some_iff, Option.some.injEq] at hStep
    rcases hStep with ⟨server, _, rfl⟩
    rw [serve_events]
    split
    · rfl
    · exact modfd_events st _ _
  · rcases Option.some.inj hStep with rfl
    dsimp only
    split
    · rfl
    · exact modfd_events st _ _

/- A handler takes the first report. -/
theorem handle_events
    {a : Answers}
    (hStep : st.handle a = some t) :
    t.events = st.events.tail := by
  unfold handle at hStep
  split at hStep
  · cases hStep
  next rest hEvents =>
    rw [hEvents]
    simp only [dealListenEvent, Option.bind_eq_bind,
      Option.bind_eq_some_iff, Option.some.injEq] at hStep
    rcases hStep with ⟨server, _, rfl⟩
    simp
  next fd ev rest hEvents =>
    rw [hEvents]
    simp only at hStep
    split at hStep
    · rcases Option.some.inj hStep with rfl
      rfl
    · split at hStep
      · rcases Option.some.inj hStep with rfl
        exact dealReadEvent_events _ fd a
      · split at hStep
        · exact dealWriteEvent_events hStep
        · rcases Option.some.inj hStep with rfl
          rfl

/- The rest of a handler takes none. -/
theorem goOn_events
    {cur : Int}
    (hStep : st.goOn cur = some t) :
    t.events = st.events := by
  unfold goOn at hStep
  split at hStep
  · cases hStep
  · simp only [Option.bind_eq_bind,
      Option.bind_eq_some_iff, Option.some.injEq] at hStep
    rcases hStep with ⟨pool, _, server, _, rfl⟩
    rfl
  · simp only [Option.bind_eq_bind,
      Option.bind_eq_some_iff, Option.some.injEq] at hStep
    rcases hStep with ⟨server, _, rfl⟩
    rfl

/- A worker touches none. -/
theorem process_events
    {worker : Nat}
    {readRet : HttpCode}
    {writeRet : Bool}
    (hStep : st.process worker readRet writeRet = some t) :
    t.events = st.events := by
  simp only [process, Option.bind_eq_bind,
    Option.bind_eq_some_iff] at hStep
  rcases hStep with ⟨fd, _, hStep⟩
  split at hStep
  · rcases Option.some.inj hStep with rfl
    exact modfd_events _ _ _
  · split at hStep
    · rcases Option.some.inj hStep with rfl
      exact modfd_events _ _ _
    · split at hStep <;>
        rcases Option.some.inj hStep with rfl <;> rfl

/- The reports after a step. -/
theorem step_events
    {e : ServingEvent}
    (hStep : st.step e = some t) :
    t.events =
      match e with
      | .epollWait reports => reports
      | .handle _ => st.events.tail
      | _ => st.events := by
  cases e with
  | epollWait reports =>
      rcases Option.some.inj hStep with rfl
      rfl
  | handle a => exact handle_events hStep
  | goOn cur => exact goOn_events hStep
  | tick cur =>
      simp only [step, tick, Option.bind_eq_bind,
        Option.bind_eq_some_iff, Option.some.injEq]
        at hStep
      rcases hStep with ⟨server, _, rfl⟩
      rfl
  | wait worker =>
      rcases Option.some.inj hStep with rfl
      rfl
  | waitError worker =>
      rcases Option.some.inj hStep with rfl
      rfl
  | take worker =>
      rcases Option.some.inj hStep with rfl
      rfl
  | process worker readRet writeRet =>
      exact process_events hStep
  | endClose worker =>
      simp only [step, endClose, Option.bind_eq_bind,
        Option.bind_eq_some_iff, Option.some.injEq]
        at hStep
      rcases hStep with ⟨fd, _, rfl⟩
      rfl

end Serving

namespace Backlogged

variable {room : Nat}
variable {b t : Backlogged}

/-
  A step of the server brings no report that the kernel had
  not to give, and an `accept` for each that it takes.
-/
theorem due_serve
    {e : ServingEvent}
    (hEnabled : b.enabled room (.serve e))
    (hStep : b.step (.serve e) = some t) :
    b.due =
        t.due + (b.serving.accepts e).toNat ∧
      t.backlog =
        b.backlog - (b.serving.accepts e).toNat := by
  simp only [step, Option.bind_eq_bind,
    Option.bind_eq_some_iff, Option.some.injEq] at hStep
  rcases hStep with ⟨serving, hServing, rfl⟩
  have hEvents := Serving.step_events hServing
  rcases hEnabled with ⟨hOn, hEdge⟩
  unfold due
  rw [hEvents]
  cases e with
  | epollWait reports =>
      rcases hOn with ⟨⟨_, hNone⟩, ⟨_, hOnce⟩, _⟩
      simp only [ServingEvent.reportsListener] at hEdge ⊢
      simp only [Serving.accepts, hNone]
      by_cases hListen : .listen ∈ reports
      · have hCount :=
          List.count_eq_one_of_mem (hOnce.of_map _) hListen
        simp [hEdge (by simpa using hListen), hListen,
          hCount]
      · simp [hListen, List.count_eq_zero.mpr hListen]
  | handle a =>
      cases hHead : b.serving.events with
      | nil => simp [Serving.accepts, hHead,
          ServingEvent.reportsListener]
      | cons report rest =>
          cases report <;>
            simp [Serving.accepts, hHead,
              ServingEvent.reportsListener]
          omega
  | _ => simp [Serving.accepts, ServingEvent.reportsListener]

end Backlogged

end V2

end WebServer

------------------------------------------------------------
-- Whole Runs
------------------------------------------------------------

namespace WebServer

namespace V2

variable {room : Nat}
variable {b t : Backlogged}
variable {n : Nat}

theorem accounts_start
    (early : Fin (room + 1)) :
    Accounts room (.start early, early - 1) where
  backlog := by
    simp only [Backlogged.start, Backlogged.due]
    rcases Nat.eq_zero_or_pos (early : Nat) with hNone | hSome
    · simp [hNone, Serving.init]
    · simp only [hSome, decide_true, Bool.toNat_true,
        Serving.init, List.count_nil]
      omega
  room := Nat.le_of_lt_succ early.isLt

/- A client in time brings its report, a late one does not. -/
theorem Accounts.step
    (h : Accounts room (b, n))
    {e : BacklogEvent}
    (hEnabled : b.enabled room e)
    (hStep : b.step e = some t) :
    Accounts room (t, b.late e n) := by
  have hBacklog := h.backlog
  have hRoom := h.room
  simp only at hBacklog hRoom
  cases e with
  | connect =>
      rcases Option.some.inj hStep with rfl
      refine { backlog := ?_, room := hEnabled }
      simp only [Backlogged.due, Backlogged.late,
        Bool.toNat_true] at hBacklog ⊢
      omega
  | serve e =>
      rcases Backlogged.due_serve hEnabled hStep with
        ⟨hDue, hNext⟩
      refine { backlog := ?_, room := ?_ }
      · simp only [Backlogged.late]
        omega
      · simp only
        omega

/- With so many late clients there is no room left. -/
theorem Accounts.deaf
    (h : Accounts room (b, room)) :
    b.Deaf room := by
  have hBacklog := h.backlog
  have hRoom := h.room
  simp only at hBacklog hRoom
  exact ⟨by omega, by omega⟩

/- And none is made again. -/
theorem Backlogged.Deaf.step
    (h : b.Deaf room)
    {e : BacklogEvent}
    (hEnabled : b.enabled room e)
    (hStep : b.step e = some t) :
    t.Deaf room := by
  rcases h with ⟨hFull, hNone⟩
  cases e with
  | connect =>
      have hRoom : b.backlog < room := hEnabled
      omega
  | serve e =>
      rcases Backlogged.due_serve hEnabled hStep with
        ⟨hDue, hNext⟩
      exact ⟨by omega, by omega⟩

/-
  In every run, whatever the threads of the server do, the
  backlog has one client for each report that is due and the
  clients that came while an edge was still to report, and
  these stay. None stays exactly when all come in time.
  Once the backlog is full of late clients, no client can
  connect and none is accepted, for good.
-/
theorem late_clients_are_left
    (room : Nat)
    (early : Fin (room + 1))
    (es : List BacklogEvent) :
    ((backlogMachine room).recording
        Backlogged.late).Always
        (Accounts room)
        (Backlogged.start early, early - 1) es ∧
      ((backlogMachine room).Always
          (fun b => b.backlog = b.due)
          (Backlogged.start early) es ↔
        (early : Nat) ≤ 1 ∧
          (backlogMachine room).StepsMeet Backlogged.InTime
            (Backlogged.start early) es) ∧
      ∀ b,
        ((backlogMachine room).recording
            Backlogged.late).Reaches
          (Backlogged.start early, early - 1) es (b, room) →
        ∀ es',
          (backlogMachine room).Always
            (Backlogged.Deaf room) b es' := by
  have hKept :
      ∀ r e r',
        Accounts room r →
          ((backlogMachine room).recording
            Backlogged.late).enabled r e →
          ((backlogMachine room).recording
            Backlogged.late).step r e = some r' →
          Accounts room r' := by
    rintro ⟨b, n⟩ e r' h hEnabled hStep
    rcases Option.map_eq_some_iff.mp hStep with
      ⟨t, hNext, rfl⟩
    exact h.step hEnabled hNext
  have hStart := accounts_start early
  refine ⟨?_, ?_, ?_⟩
  · exact Machine.always_of_preserved hKept hStart es
  · by_cases hFew : (early : Nat) ≤ 1
    · have hZero : (early : Nat) - 1 = 0 := by omega
      rw [hZero] at hStart
      rw [and_iff_right hFew]
      refine
        Machine.always_iff_stepsMeet
          (I := fun b => Accounts room (b, 0)) ?_ ?_ ?_ hStart
      · exact fun b h => h.backlog
      · intro b e t h hEnabled hInTime hStep
        have hNext := h.step hEnabled hStep
        have hSame : b.late e 0 = 0 := by
          cases e with
          | connect =>
              have hEdge : b.edge = false := hInTime
              simp [Backlogged.late, hEdge]
          | serve e => rfl
        rw [hSame] at hNext
        exact hNext
      · intro b e h hEnabled hLate
        cases e with
        | serve e => exact absurd trivial hLate
        | connect =>
            have hEdge : b.edge = true := by
              simpa [Backlogged.InTime] using hLate
            refine ⟨_, rfl, ?_⟩
            have hNext :=
              (h.step (e := .connect) hEnabled rfl).backlog
            have hOne : b.late .connect 0 = 1 := by
              simp [Backlogged.late, hEdge]
            rw [hOne] at hNext
            intro hNone
            exact
              absurd (hNone.symm.trans hNext)
                (Nat.ne_of_lt (Nat.lt_succ_self _))
    · constructor
      · intro hAll
        have hHead := hAll.head
        have hBacklog := hStart.backlog
        simp only [Backlogged.start] at hHead hBacklog
        omega
      · exact fun h => absurd h.1 hFew
  · intro b hReach
    have hAccounts :=
      (Machine.always_of_preserved hKept hStart es).reached
        hReach
    refine
      Machine.always_of_preserved ?_ hAccounts.deaf
    intro s e t hDeaf hEnabled hStep
    exact hDeaf.step hEnabled hStep

/- Two clients, one report, one `accept`. -/
example :
    ((backlogMachine 6).exec (Backlogged.start 0)
        [.connect, .connect, .serve (.epollWait [.listen]),
          .serve
            (.handle ⟨7, 1, 0, true, .nothingToSend⟩)]).map
        (fun b => (b.backlog, b.due)) =
      some (1, 0) := by
  decide +kernel

end V2

end WebServer
