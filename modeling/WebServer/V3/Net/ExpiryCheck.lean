import Mathlib.Data.List.Chain
import WebServer.V3.Net.LoopThread

/-
  When an event loop looks at its timers.

  `poll` waits again after a timeout or an error, and only
  `loop` calls `handleExpired`. The timers are examined
  between any two returns of `epoll_wait` exactly when every
  return but the last brings an active channel.

  Key definitions include:
    * `LoopAction`
    * `waitingLoop`
    * `ExaminesBetweenWaits`
    * `EveryWaitBrings`

  Key theorems include:
    * `Examining.step`
    * `timers_examined_iff`
    * `idle_loop_never_examines`
-/

------------------------------------------------------------
-- The Record Of A Run
------------------------------------------------------------

namespace WebServer

namespace V3

variable {F : Type}

/-
  A return of `epoll_wait`, with or without an active
  channel, or a run of `handleExpiredEvent`.
-/
inductive LoopAction
| waited (active : Bool)
| examined
deriving DecidableEq, Repr

namespace LoopThread

/- What a step adds to the record. -/
def noteAction
    (_ : LoopThread F) :
    LoopStep F → List LoopAction → List LoopAction
| .epollWait result, actions =>
    actions ++ [.waited (!result.active.isEmpty)]
| .handleExpired, actions => actions ++ [.examined]
| _, actions => actions

end LoopThread

/- The loop with its waits and its checks of the timers. -/
def waitingLoop :
    Machine (LoopThread F × List LoopAction) (LoopStep F) :=
  loopMachine.recording LoopThread.noteAction

instance
    [DecidableEq F]
    (r : LoopThread F × List LoopAction) :
    ∀ e, Decidable (waitingLoop.enabled r e) :=
  fun e => inferInstanceAs (Decidable (r.1.enabled e))

/-
  Between two returns of `epoll_wait`, one after the other,
  the timers are examined.
-/
def ExaminesBetweenWaits
    (actions : List LoopAction) : Prop :=
  ∀ front between back a b,
    actions =
        front ++ .waited a ::
          (between ++ .waited b :: back) →
      (∀ c, .waited c ∉ between) →
        .examined ∈ between

/- Every return but the last brings an active channel. -/
def EveryWaitBrings
    (actions : List LoopAction) : Prop :=
  ∀ front back a b,
    actions = front ++ .waited a :: back →
      .waited b ∈ back → a = true

end V3

end WebServer

------------------------------------------------------------
-- What Follows A Wait
------------------------------------------------------------

namespace WebServer

namespace V3

variable {F : Type}

/-
  Which action may follow another: a check of the timers
  only a wait that brought a channel, another wait only one
  that did not or a check.
-/
def Follows :
    LoopAction → LoopAction → Prop
| .waited active, .waited _ => active = false
| .waited active, .examined => active = true
| .examined, .waited _ => True
| .examined, .examined => False

/- Where the loop stands after its last action. -/
def LastAction
    (s : LoopThread F)
    (last : Option LoopAction) : Prop :=
  match s.pos with
  | .waiting => last ≠ some (.waited true)
  | .finished => True
  | _ => last = some (.waited true)

structure Examining
    (r : LoopThread F × List LoopAction) : Prop where
  chain : r.2.IsChain Follows
  last : LastAction r.1 r.2.getLast?

/- Steps between two actions. -/
theorem Examining.frame
    {s t : LoopThread F}
    {actions : List LoopAction}
    (h : Examining (s, actions))
    (hPos :
      s.pos = t.pos ∨
        s.pos ≠ .waiting ∧ s.pos ≠ .finished ∧
          t.pos ≠ .waiting) :
    Examining (t, actions) := by
  refine { chain := h.chain, last := ?_ }
  have hLast := h.last
  simp only [LastAction] at hLast ⊢
  rcases hPos with hSame | ⟨hWait, hEnd, hNext⟩
  · rw [← hSame]
    exact hLast
  · cases hOld : s.pos <;> cases hNew : t.pos <;>
      simp_all

/- Every step keeps the order of waits and checks. -/
theorem Examining.step
    (r : LoopThread F × List LoopAction)
    (e : LoopStep F)
    (h : Examining r)
    (hEnabled : waitingLoop.enabled r e) :
    ∃ t, waitingLoop.step r e = some t ∧ Examining t := by
  rcases r with ⟨s, actions⟩
  refine ⟨_, rfl, ?_⟩
  cases e with
  | queueInLoop isInLoopThread cb =>
      refine h.frame (.inl ?_)
      simp only [LoopThread.step, LoopThread.queueInLoop]
      split_ifs <;> rfl
  | runInLoop isInLoopThread cb =>
      refine h.frame (.inl ?_)
      cases isInLoopThread <;> rfl
  | wakeup isInLoopThread =>
      refine h.frame (.inl ?_)
      cases isInLoopThread <;> rfl
  | quit isInLoopThread =>
      refine h.frame (.inl ?_)
      cases isInLoopThread <;> rfl
  | epollWait result =>
      have hPos : s.pos = .waiting := hEnabled.1
      have hLast := h.last
      simp only [LastAction, hPos] at hLast
      refine { chain := ?_, last := ?_ }
      · change
          List.IsChain Follows
            (actions ++ [.waited (!result.active.isEmpty)])
        refine h.chain.append (List.isChain_singleton _) ?_
        intro x hx y hy
        rcases Option.some.inj hy with rfl
        cases x with
        | examined => trivial
        | waited active =>
            cases active with
            | false => rfl
            | true => exact absurd hx hLast
      · change
          LastAction (s.poll result)
            (List.getLast?
              (actions ++
                [.waited (!result.active.isEmpty)]))
        rw [List.getLast?_concat]
        by_cases hIdle : result.active = []
        · simp [LastAction, LoopThread.poll, hIdle, hPos]
        · simp [LastAction, LoopThread.poll, hIdle]
  | handleEvents =>
      rcases hEnabled.2 with ⟨c, active, hPos⟩
      change s.pos = _ at hPos
      refine h.frame (.inr ?_)
      cases c <;>
        simp [LoopThread.step, LoopThread.handleEvents, hPos]
  | swapFunctors =>
      have hPos : s.pos = .handling [] := hEnabled
      exact
        h.frame
          (.inr
            (by
              simp [LoopThread.step,
                LoopThread.swapFunctors, hPos]))
  | callFunctor =>
      rcases hEnabled.2 with ⟨running, cb, left, hPos⟩
      change s.pos = _ at hPos
      exact
        h.frame
          (.inr
            (by
              simp [LoopThread.step, LoopThread.callFunctor,
                hPos]))
  | endFunctors =>
      rcases hEnabled.2 with ⟨running, hPos⟩
      change s.pos = _ at hPos
      exact
        h.frame
          (.inr
            (by
              simp [LoopThread.step, LoopThread.endFunctors,
                hPos]))
  | handleExpired =>
      have hPos : s.pos = .expiring := hEnabled
      have hLast := h.last
      simp only [LastAction, hPos] at hLast
      refine { chain := ?_, last := ?_ }
      · change
          List.IsChain Follows (actions ++ [.examined])
        refine h.chain.append (List.isChain_singleton _) ?_
        intro x hx y hy
        rcases Option.some.inj hy with rfl
        rw [hLast] at hx
        rcases Option.some.inj hx with rfl
        rfl
      · change
          LastAction s.handleExpired
            (List.getLast? (actions ++ [.examined]))
        rw [List.getLast?_concat]
        unfold LastAction LoopThread.handleExpired
        cases s.quit <;> simp

end V3

end WebServer

------------------------------------------------------------
-- All Answers Of The Kernel
------------------------------------------------------------

namespace WebServer

namespace V3

variable {F : Type}
variable {actions : List LoopAction}

/- The action right behind another follows it. -/
theorem follows_of_chain
    (hChain : actions.IsChain Follows)
    {front back : List LoopAction}
    {x y : LoopAction}
    (hSplit : actions = front ++ x :: y :: back) :
    Follows x y := by
  rw [hSplit] at hChain
  have hTail := hChain.right_of_append
  exact (List.isChain_cons_cons.mp hTail).1

/-
  In a chain the timers are examined between the waits
  exactly when each wait but the last brings a channel.
-/
theorem examines_iff_of_chain
    (hChain : actions.IsChain Follows) :
    ExaminesBetweenWaits actions ↔
      EveryWaitBrings actions := by
  constructor
  · intro hExamines front back a b hSplit hLater
    cases back with
    | nil => exact absurd hLater List.not_mem_nil
    | cons next back =>
        have hNext := follows_of_chain hChain hSplit
        cases next with
        | examined => exact hNext
        | waited c =>
            have hNone :=
              hExamines front [] back a c hSplit
                fun _ => List.not_mem_nil
            exact absurd hNone List.not_mem_nil
  · intro hBrings front between back a b hSplit hSuccessive
    have hActive :=
      hBrings front (between ++ .waited b :: back) a b
        hSplit (by simp)
    subst hActive
    cases between with
    | nil =>
        have hNext := follows_of_chain hChain hSplit
        cases hNext
    | cons next between =>
        cases next with
        | examined => exact List.mem_cons_self
        | waited c =>
            exact
              absurd List.mem_cons_self (hSuccessive c)

theorem start_examining :
    Examining ((.new : LoopThread F), []) where
  chain := .nil
  last := by simp [LastAction, LoopThread.new]

/-
  In every run of the loop, whatever `epoll_wait` answers,
  the timers are examined between any two of its returns
  exactly when each return but the last brings an active
  channel.
-/
theorem timers_examined_iff
    {es : List (LoopStep F)}
    {r : LoopThread F × List LoopAction}
    (hRun : waitingLoop.Reaches (.new, []) es r) :
    ExaminesBetweenWaits r.2 ↔ EveryWaitBrings r.2 := by
  have hExamining :=
    (Machine.throughout_of_preserved Examining.step
      start_examining es).reached hRun
  exact examines_iff_of_chain hExamining.chain

/- A wait with an event, the check, and a timeout. -/
def busyThenIdle : List (LoopStep Nat) :=
  [.epollWait (.ready [some .other]), .handleEvents,
    .swapFunctors, .endFunctors, .handleExpired,
    .epollWait (.ready [])]

theorem timers_examined_busy_then_idle :
    ∃ r,
      waitingLoop.Reaches (.new, []) busyThenIdle r ∧
        (ExaminesBetweenWaits r.2 ↔
          EveryWaitBrings r.2) := by
  have hRun :
      (waitingLoop.exec (.new, []) busyThenIdle).isSome := by
    decide +kernel
  rcases Option.isSome_iff_exists.mp hRun with ⟨r, hExec⟩
  have hReach := Machine.reaches_of_exec hExec
  exact ⟨r, hReach, timers_examined_iff hReach⟩

/- On an idle loop the wait times out again and again. -/
theorem idle_loop_reaches
    (n : Nat) :
    waitingLoop.Reaches ((.new : LoopThread F), [])
      (List.replicate n (.epollWait (.ready [])))
      (.new, List.replicate n (.waited false)) := by
  suffices hFrom :
      ∀ actions,
        waitingLoop.Reaches ((.new : LoopThread F), actions)
          (List.replicate n (.epollWait (.ready [])))
          (.new,
            actions ++ List.replicate n (.waited false)) by
    simpa using hFrom []
  induction n with
  | zero =>
      intro actions
      simpa using Machine.Reaches.nil _
  | succ n ih =>
      intro actions
      have hRest := ih (actions ++ [.waited false])
      rw [List.append_assoc] at hRest
      refine .cons ⟨rfl, ?_, ?_⟩ rfl hRest
      · simp [WaitResult.active]
      · simp [WaitResult.active]

/- Two timeouts in a row, with no look at the timers. -/
theorem idle_loop_never_examines :
    ¬ ∀ (es : List (LoopStep Nat)) r,
      waitingLoop.Reaches (.new, []) es r →
        ExaminesBetweenWaits r.2 := by
  intro hClaim
  have hExamined :=
    hClaim _ _ (idle_loop_reaches 2) [] [] [] false false
      rfl fun _ => List.not_mem_nil
  exact absurd hExamined List.not_mem_nil

end V3

end WebServer
