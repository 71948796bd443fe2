import Mathlib.Data.Int.CardIntervalMod
import WebServer.V3.Ownership

/-
  How version 3.0 spreads its connections over the loops.

  `getNextLoop` takes the loops in turn. A record of the run
  lists the connections that took a turn, and those that
  were handed over: a connection whose descriptor is too
  large, or fails to be made non-blocking, uses up a turn.

  Key definitions include:
    * `AcceptRecord`
    * `recordedServer`
    * `AcceptRecord.Turns`

  Key theorems include:
    * `AcceptRecord.Turns.share`
    * `Server.Dispatched.step`
    * `connections_reach_their_loops`
-/

------------------------------------------------------------
-- The Record Of A Run
------------------------------------------------------------

namespace WebServer

namespace V3

/-
  Connections in the order in which they were accepted, each
  with the loop chosen for it, and what was queued in each
  loop.
-/
structure AcceptRecord (numThreads : Nat) where
  accepted : List (Fd × Fin numThreads)
  handed : Fin numThreads → List Fd

namespace AcceptRecord

variable {numThreads : Nat}

def empty : AcceptRecord numThreads where
  accepted := []
  handed := fun _ => []

/- The connections for which a loop was chosen. -/
def chosenFor
    (record : AcceptRecord numThreads)
    (i : Fin numThreads) : List Fd :=
  record.accepted.filterMap fun p =>
    if p.2 = i then some p.1 else none

end AcceptRecord

namespace Server

variable {numThreads : Nat}

/- The connection that takes a turn. -/
def turn
    (s : Server numThreads) :
    ServerStep numThreads → List (Fd × Fin numThreads)
| .accept (some (fd + 1)) => [(fd + 1, s.next)]
| _ => []

def note
    (s : Server numThreads)
    (e : ServerStep numThreads)
    (record : AcceptRecord numThreads) :
    AcceptRecord numThreads where
  accepted := record.accepted ++ s.turn e
  handed := s.handOver e record.handed

end Server

/- The server with the record of its connections. -/
def recordedServer
    (numThreads : Nat) :
    Machine (Server numThreads × AcceptRecord numThreads)
      (ServerStep numThreads) :=
  (serverMachine numThreads).recording Server.note

end V3

end WebServer

------------------------------------------------------------
-- Turns
------------------------------------------------------------

namespace WebServer

namespace V3

namespace AcceptRecord

variable {numThreads : Nat}
variable {record : AcceptRecord numThreads}

/- The loops were chosen in turn. -/
def Turns
    (record : AcceptRecord numThreads) : Prop :=
  ∀ k fd loop,
    record.accepted[k]? = some (fd, loop) →
      loop.val = k % numThreads

/- One more connection takes the next turn. -/
theorem Turns.concat
    {fd : Fd}
    {loop : Fin numThreads}
    (h : record.Turns)
    (hLoop :
      loop.val = record.accepted.length % numThreads)
    (handed : Fin numThreads → List Fd) :
    Turns
      { accepted := record.accepted ++ [(fd, loop)]
        handed := handed } := by
  intro k fd' loop' hMem
  rcases Nat.lt_or_ge k record.accepted.length with
    hOld | hNew
  · rw [List.getElem?_append_left hOld] at hMem
    exact h k fd' loop' hMem
  · have hBound := (List.getElem?_eq_some_iff.mp hMem).1
    rw [List.length_append, List.length_singleton] at hBound
    have hLast : k = record.accepted.length := by omega
    subst hLast
    rw [List.getElem?_concat_length] at hMem
    cases hMem
    exact hLoop

theorem chosenFor_concat
    (accepted : List (Fd × Fin numThreads))
    (handed : Fin numThreads → List Fd)
    (fd : Fd)
    (loop i : Fin numThreads) :
    chosenFor ⟨accepted ++ [(fd, loop)], handed⟩ i =
      chosenFor ⟨accepted, handed⟩ i ++
        if loop = i then [fd] else [] := by
  unfold chosenFor
  rw [List.filterMap_append]
  by_cases hLoop : loop = i <;> simp [hLoop]

/-
  A loop has its share: the turns are counted from the first
  connection, so the first loops may be one ahead.
-/
theorem Turns.share
    (h : record.Turns)
    (i : Fin numThreads) :
    (record.chosenFor i).length =
      record.accepted.length / numThreads +
        if i.val < record.accepted.length % numThreads then
          1
        else
          0 := by
  have hPos : 0 < numThreads := i.pos
  have hCount :
      (record.chosenFor i).length =
        record.accepted.length.count
          (· ≡ i.val [MOD numThreads]) := by
    rcases record with ⟨accepted, handed⟩
    induction accepted using List.reverseRecOn with
    | nil => rfl
    | append_singleton accepted p ih =>
        rcases p with ⟨fd, loop⟩
        have hFront :
            Turns ⟨accepted, handed⟩ := by
          intro k fd' loop' hMem
          apply h k fd' loop'
          have hBound :=
            (List.getElem?_eq_some_iff.mp hMem).1
          rw [List.getElem?_append_left hBound]
          exact hMem
        have hLoop : loop.val = accepted.length % numThreads :=
          h accepted.length fd loop List.getElem?_concat_length
        have hTurn :
            loop = i ↔
              accepted.length ≡ i.val [MOD numThreads] := by
          unfold Nat.ModEq
          rw [Nat.mod_eq_of_lt i.isLt, ← hLoop]
          exact Fin.ext_iff
        rw [chosenFor_concat, List.length_append,
          List.length_append, List.length_singleton,
          Nat.count_succ, ih hFront]
        by_cases hSame : loop = i
        · simp [hSame, ← hTurn]
        · simp [hSame, ← hTurn]
  rw [hCount, Nat.count_modEq_card _ hPos,
    Nat.mod_eq_of_lt i.isLt]

end AcceptRecord

end V3

end WebServer

------------------------------------------------------------
-- Steps
------------------------------------------------------------

namespace WebServer

namespace V3

namespace Server

variable {numThreads : Nat}
variable {s t : Server numThreads}
variable {record : AcceptRecord numThreads}

/- A connection chosen for a loop and not yet handed over. -/
def ahead
    (s : Server numThreads)
    (i : Fin numThreads) : List Fd :=
  match s.pos with
  | .accepted fd loop => if loop = i then [fd] else []
  | _ => []

/-
  The record fits the state: the next turn is known, and a
  loop was handed only what was chosen for it, in order.
-/
structure Dispatched
    (s : Server numThreads)
    (record : AcceptRecord numThreads) : Prop where
  sound : s.Sound record.handed
  turns : record.Turns
  next :
    s.next.val = record.accepted.length % numThreads
  handed :
    ∀ i,
      (record.handed i ++ s.ahead i).Sublist
        (record.chosenFor i)

theorem dispatched_start
    (size : PoolSize) :
    (start size).Dispatched .empty where
  sound := sound_start size
  turns := by
    intro k fd loop hMem
    cases hMem
  next := (Nat.zero_mod _).symm
  handed := fun _ => List.Sublist.refl []

/- A step in which no connection takes a turn. -/
theorem Dispatched.frame
    {e : ServerStep numThreads}
    (h : s.Dispatched record)
    (hSound : t.Sound (s.handOver e record.handed))
    (hTurn : s.turn e = [])
    (hNext : t.next = s.next)
    (hHanded :
      ∀ i,
        (s.handOver e record.handed i ++ t.ahead i).Sublist
          (record.handed i ++ s.ahead i)) :
    t.Dispatched (s.note e record) := by
  have hAccepted :
      (s.note e record).accepted = record.accepted := by
    unfold note
    rw [hTurn, List.append_nil]
  refine ⟨hSound, ?_, ?_, ?_⟩
  · intro k fd loop hMem
    rw [hAccepted] at hMem
    exact h.turns k fd loop hMem
  · rw [hNext, hAccepted]
    exact h.next
  · intro i
    refine (hHanded i).trans ?_
    unfold AcceptRecord.chosenFor
    rw [hAccepted]
    exact h.handed i

/- A connection takes a turn. -/
theorem Dispatched.accept
    {fd : Fd}
    (h : s.Dispatched record)
    (hEnabled : s.enabled (.accept (some (fd + 1)))) :
    (s.accept (some (fd + 1))).Dispatched
      (s.note (.accept (some (fd + 1))) record) := by
  have hSound := h.sound.accept hEnabled
  have hPos : s.pos = .accepting := hEnabled.1
  have hTurn : s.next.val < numThreads := s.next.isLt
  refine ⟨hSound, h.turns.concat h.next _, ?_, ?_⟩
  · have hNext :
        (s.accept (some (fd + 1))).next =
          s.getNextLoop.2.next := by
      unfold Server.accept
      simp only
      split_ifs <;> rfl
    rw [hNext]
    show (s.next.val + 1) % numThreads =
      (record.accepted ++ [(fd + 1, s.next)]).length %
        numThreads
    rw [List.length_append, List.length_singleton, h.next,
      Nat.mod_add_mod]
  · intro i
    have hOld := h.handed i
    unfold ahead at hOld
    rw [hPos] at hOld
    simp only [List.append_nil] at hOld
    show
      (record.handed i ++
          (s.accept (some (fd + 1))).ahead i).Sublist
        (AcceptRecord.chosenFor
          ⟨record.accepted ++ [(fd + 1, s.next)],
            record.handed⟩ i)
    rw [AcceptRecord.chosenFor_concat]
    refine hOld.append ?_
    unfold Server.accept getNextLoop ahead
    simp only
    split_ifs with hLarge hLoop <;> simp_all

/- What was chosen for a loop is handed to it, or lost. -/
theorem Dispatched.setNonBlocking
    {succeeds : Bool}
    (h : s.Dispatched record)
    (hEnabled : s.enabled (.setNonBlocking succeeds))
    (hSound :
      (s.setNonBlocking succeeds).Sound
        (s.handOver (.setNonBlocking succeeds)
          record.handed)) :
    (s.setNonBlocking succeeds).Dispatched
      (s.note (.setNonBlocking succeeds) record) := by
  rcases hEnabled with ⟨fd, loop, hPos⟩
  have hAhead : ∀ i,
      s.ahead i = if loop = i then [fd] else [] := by
    intro i
    unfold ahead
    rw [hPos]
  cases succeeds with
  | false =>
      have hEnd :
          s.setNonBlocking false =
            { s with lost := s.lost ++ [fd] }.handThisConn := by
        unfold Server.setNonBlocking
        rw [hPos]
        rfl
      rcases
        { s with
          lost := s.lost ++ [fd] }.handThisConn_frame with
        ⟨_, _, hNext, hWaits⟩
      refine h.frame hSound rfl ?_ ?_
      · rw [hEnd]
        exact hNext
      · intro i
        refine (List.Sublist.refl _).append ?_
        unfold ahead
        rw [hEnd, hWaits]
        exact List.nil_sublist _
  | true =>
      have hEnd :
          s.setNonBlocking true =
            { s with
              loops :=
                Function.update s.loops loop
                  ((s.loops loop).queueInLoop fd)
              pos := .accepting } := by
        unfold Server.setNonBlocking
        rw [hPos]
        rfl
      refine h.frame hSound rfl ?_ ?_
      · rw [hEnd]
      · intro i
        rw [hAhead i, hEnd]
        unfold handOver ahead
        rw [hPos]
        by_cases hLoop : loop = i
        · subst hLoop
          simp
        · simp [hLoop, Function.update_of_ne (Ne.symm hLoop)]

/- Every step of every thread keeps the record fitting. -/
theorem Dispatched.step
    {e : ServerStep numThreads}
    (h : s.Dispatched record)
    (hEnabled : s.enabled e)
    (hStep : s.step e = some t) :
    t.Dispatched (s.note e record) := by
  have hSound := h.sound.step hEnabled hStep
  cases e with
  | connect =>
      rcases Option.some.inj hStep with rfl
      exact
        h.frame hSound rfl rfl fun _ => List.Sublist.refl _
  | pollAccept =>
      rcases Option.some.inj hStep with rfl
      refine h.frame hSound rfl rfl fun i => ?_
      exact
        (List.Sublist.refl _).append (List.nil_sublist _)
  | accept result =>
      rcases Option.some.inj hStep with rfl
      cases result with
      | none =>
          refine
            h.frame hSound rfl (handThisConn_frame _).2.2.1
              fun i => ?_
          refine (List.Sublist.refl _).append ?_
          unfold ahead
          rw [show (s.accept none).pos = .waiting from
            (handThisConn_frame _).2.2.2]
          exact List.nil_sublist _
      | some fd =>
          cases fd with
          | zero =>
              refine
                h.frame hSound rfl
                  (handThisConn_frame _).2.2.1 fun i => ?_
              refine (List.Sublist.refl _).append ?_
              unfold ahead
              rw [show (s.accept (some 0)).pos = .waiting from
                (handThisConn_frame _).2.2.2]
              exact List.nil_sublist _
          | succ fd => exact h.accept hEnabled
  | setNonBlocking succeeds =>
      rcases Option.some.inj hStep with rfl
      exact h.setNonBlocking hEnabled hSound
  | loop i e =>
      rcases Option.map_eq_some_iff.mp hStep with
        ⟨r, _, rfl⟩
      exact
        h.frame hSound rfl rfl fun _ => List.Sublist.refl _

end Server

end V3

end WebServer

------------------------------------------------------------
-- Whole Runs
------------------------------------------------------------

namespace WebServer

namespace V3

theorem Server.dispatched_of_reaches
    {size : PoolSize}
    {es : List (ServerStep size.val)}
    {r : Server size.val × AcceptRecord size.val}
    (hRun :
      (recordedServer size.val).Reaches
        (Server.start size, .empty) es r) :
    r.1.Dispatched r.2 := by
  refine
    hRun.invariant (I := fun r => r.1.Dispatched r.2) ?_
      (Server.dispatched_start size)
  rintro ⟨s, record⟩ e r' h hEnabled hStep
  rcases Option.map_eq_some_iff.mp hStep with ⟨t, hNext, rfl⟩
  exact h.step hEnabled hNext

/-
  In every run of the server the loops take the connections
  in turn, and get equal shares of them up to one. A loop
  gets what was chosen for it, less what was dropped, in the
  order in which it was accepted: its objects are the
  connections that it opened, one each, and those that it has
  yet to open are queued. Where it waits while one is queued,
  a wakeup is to come.
-/
theorem connections_reach_their_loops
    (size : PoolSize)
    (es : List (ServerStep size.val))
    (s : Server size.val)
    (record : AcceptRecord size.val)
    (hRun :
      (recordedServer size.val).Reaches
        (Server.start size, .empty) es (s, record)) :
    record.Turns ∧
      ∀ i,
        (record.chosenFor i).length =
            record.accepted.length / size.val +
              (if i.val < record.accepted.length % size.val
                then 1 else 0) ∧
          (record.handed i).Sublist (record.chosenFor i) ∧
          (∃ opened,
            record.handed i = opened ++ (s.loops i).queued ∧
              (s.loops i).poller.nextId = opened.length ∧
              ∀ k fd, opened[k]? = some fd →
                ∃ obj,
                  (s.loops i).poller.objects k = some obj ∧
                    obj.fd = fd) ∧
          ((s.loops i).thread.pos = .waiting →
            (s.loops i).queued ≠ [] →
              (s.loops i).thread.wakes = true ∨
                0 < (s.loops i).thread.owing) := by
  have h := Server.dispatched_of_reaches hRun
  refine ⟨h.turns, fun i => ⟨h.turns.share i, ?_, ?_, ?_⟩⟩
  · exact
      (List.sublist_append_left _ _).trans (h.handed i)
  · rcases h.sound.loops i with ⟨functors, t, hRan, hHanded⟩
    have hOpens := hRan.opens
    refine ⟨functors.executed, ?_, ?_, ?_⟩
    · exact hHanded.symm.trans hRan.inserted
    · rw [hOpens.nextId]
      exact Nat.zero_add _
    · intro k fd hMem
      have hOpened := hOpens.opened k fd hMem
      rw [show EventLoop.new.nextId + k = k from
        Nat.zero_add k] at hOpened
      exact hOpened
  · intro hPos hQueued
    rcases h.sound.loops i with ⟨functors, t, hRan, _⟩
    refine hRan.served.functorsServed.2 hPos ?_
    intro hNone
    apply hQueued
    unfold Reactor.queued LoopThread.taken
    rw [hPos, hNone]
    rfl

theorem first_connection_reaches_its_loop :
    ∃ (s : Server 2) (record : AcceptRecord 2),
      s.At 5 (.object 0 0) ∧
        record.Turns ∧
        ∀ i,
          (record.chosenFor i).length =
              record.accepted.length / 2 +
                (if i.val < record.accepted.length % 2
                  then 1 else 0) ∧
            (record.handed i).Sublist (record.chosenFor i) ∧
            (∃ opened,
              record.handed i = opened ++ (s.loops i).queued ∧
                (s.loops i).poller.nextId = opened.length ∧
                ∀ k fd, opened[k]? = some fd →
                  ∃ obj,
                    (s.loops i).poller.objects k = some obj ∧
                      obj.fd = fd) ∧
            ((s.loops i).thread.pos = .waiting →
              (s.loops i).queued ≠ [] →
                (s.loops i).thread.wakes = true ∨
                  0 < (s.loops i).thread.owing) := by
  rcases Server.first_connection with ⟨s, hRun, hAt⟩
  rcases hRun.recorded Server.note .empty with
    ⟨record, hRecorded⟩
  exact
    ⟨s, record, hAt,
      connections_reach_their_loops ⟨2, Nat.two_pos⟩ _ s
        record hRecorded⟩

end V3

end WebServer
