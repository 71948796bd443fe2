import Mathlib.Algebra.BigOperators.Group.Finset.Basic
import Mathlib.Algebra.Order.BigOperators.Group.Finset
import Mathlib.Data.Fintype.Sum
import Mathlib.Logic.Function.Iterate
import WebServer.Library.Machine

/-
  Waiting for a condition under a lock.

  Some threads wait on a condition variable until a shared
  value is ready; others update the value and notify. Both
  hold the lock of the value while they look at it, and a
  waiting thread gives it up while it sleeps. A sleeping
  thread may wake for no reason.

  Key definitions include:
    * `Guarded`
    * `Monitor`
    * `monitorMachine`
    * `Guarded.Announces`
    * `Monitor.Sound`
    * `Monitor.Settled`

  The rules are:
    * `Monitor.Sound.step`
    * `Monitor.Updated.step`
    * `Monitor.Settled.waiters`
    * `Monitor.Settled.shared`
    * `Monitor.weight_step`
    * `Monitor.reaches_sound`
    * `Monitor.length_le_of_reaches`
-/

------------------------------------------------------------
-- Guarded Values
------------------------------------------------------------

/- Whom an update notifies. -/
inductive Notice
| nobody
| one
| all
deriving DecidableEq, Repr

/-
  What the threads do with the value: wait until it is
  ready, or update it and notify.
-/
structure Guarded (σ : Type) where
  ready : σ → Bool
  update : σ → σ
  notice : σ → Notice

namespace Guarded

variable {σ : Type}

/- The notice for this value wakes each waiting thread. -/
def Wakes
    (G : Guarded σ)
    (ω : Type)
    (s : σ) : Prop :=
  G.notice s = .all ∨ (G.notice s = .one ∧ Subsingleton ω)

/- An update that makes the value ready wakes them all. -/
def Announces
    (G : Guarded σ)
    (ω : Type) : Prop :=
  ∀ s,
    G.ready s = false → G.ready (G.update s) = true →
      G.Wakes ω (G.update s)

end Guarded

------------------------------------------------------------
-- Monitors
------------------------------------------------------------

/-
  Where a waiting thread is: before the lock, with the lock
  before its test, asleep, or back from its loop.
-/
inductive WaiterPos
| wanting
| inside
| asleep
| returned
deriving DecidableEq, Repr

/-
  Where an updating thread is: before the lock, with the
  lock before the update, before the notice, or done.
-/
inductive UpdaterPos
| wanting
| inside
| updated
| returned
deriving DecidableEq, Repr

/- The value, who has its lock, and where the threads are. -/
structure Monitor (σ ω υ : Type) where
  shared : σ
  owner : Option (ω ⊕ υ)
  waiters : ω → WaiterPos
  updaters : υ → UpdaterPos

/- A step of a thread. -/
inductive MonitorEvent (ω υ : Type)
| lockWaiter (w : ω)
| test (w : ω)
| wake (w : ω)
| lockUpdater (u : υ)
| update (u : υ)
| notify (u : υ) (chosen : Option ω)
deriving DecidableEq, Repr

/- A wake-up for no reason. -/
def MonitorEvent.isWake
    {ω υ : Type} :
    MonitorEvent ω υ → Bool
| .wake _ => true
| _ => false

namespace Monitor

variable {σ ω υ : Type}

/- Before any thread came. -/
def start
    (s : σ) : Monitor σ ω υ where
  shared := s
  owner := none
  waiters := fun _ => .wanting
  updaters := fun _ => .wanting

/- Whom the system may choose when one is to be woken. -/
def MayWake
    (m : Monitor σ ω υ) :
    Option ω → Prop
| some w => m.waiters w = .asleep
| none => ∀ w, m.waiters w ≠ .asleep

def enabled
    (G : Guarded σ)
    (m : Monitor σ ω υ) :
    MonitorEvent ω υ → Prop
| .lockWaiter w => m.owner = none ∧ m.waiters w = .wanting
| .test w => m.waiters w = .inside
| .wake w => m.waiters w = .asleep
| .lockUpdater u => m.owner = none ∧ m.updaters u = .wanting
| .update u => m.updaters u = .inside
| .notify u chosen =>
    m.updaters u = .updated ∧
      (G.notice m.shared = .one → m.MayWake chosen)

instance
    [Fintype ω]
    (m : Monitor σ ω υ) :
    ∀ chosen, Decidable (m.MayWake chosen)
| some _ => inferInstanceAs (Decidable (_ = _))
| none => inferInstanceAs (Decidable (∀ _, _ ≠ _))

instance decidableEnabled
    [Fintype ω]
    [DecidableEq ω]
    [DecidableEq υ]
    (G : Guarded σ)
    (m : Monitor σ ω υ) :
    ∀ e, Decidable (m.enabled G e)
| .lockWaiter w =>
    inferInstanceAs
      (Decidable (m.owner = none ∧ m.waiters w = .wanting))
| .test w =>
    inferInstanceAs (Decidable (m.waiters w = .inside))
| .wake w =>
    inferInstanceAs (Decidable (m.waiters w = .asleep))
| .lockUpdater u =>
    inferInstanceAs
      (Decidable (m.owner = none ∧ m.updaters u = .wanting))
| .update u =>
    inferInstanceAs (Decidable (m.updaters u = .inside))
| .notify u chosen =>
    inferInstanceAs
      (Decidable
        (m.updaters u = .updated ∧
          (G.notice m.shared = .one → m.MayWake chosen)))

/- Where the waiting threads are after a notice. -/
def notified
    [DecidableEq ω]
    (m : Monitor σ ω υ)
    (notice : Notice)
    (chosen : Option ω) : ω → WaiterPos :=
  match notice, chosen with
  | .nobody, _ => m.waiters
  | .one, none => m.waiters
  | .one, some w => Function.update m.waiters w .wanting
  | .all, _ => fun w =>
      if m.waiters w = .asleep then .wanting else m.waiters w

def step
    [DecidableEq ω]
    [DecidableEq υ]
    (G : Guarded σ)
    (m : Monitor σ ω υ) :
    MonitorEvent ω υ → Monitor σ ω υ
| .lockWaiter w =>
    { m with
      owner := some (.inl w)
      waiters := Function.update m.waiters w .inside }
-- the wait gives the lock up, and so does the return
| .test w =>
    { m with
      owner := none
      waiters :=
        Function.update m.waiters w
          (if G.ready m.shared then .returned else .asleep) }
| .wake w =>
    { m with
      waiters := Function.update m.waiters w .wanting }
| .lockUpdater u =>
    { m with
      owner := some (.inr u)
      updaters := Function.update m.updaters u .inside }
| .update u =>
    { m with
      shared := G.update m.shared
      updaters := Function.update m.updaters u .updated }
| .notify u chosen =>
    { m with
      owner := none
      waiters := m.notified (G.notice m.shared) chosen
      updaters := Function.update m.updaters u .returned }

end Monitor

/- The threads around a guarded value as a machine. -/
def monitorMachine
    {σ ω υ : Type}
    [DecidableEq ω]
    [DecidableEq υ]
    (G : Guarded σ) :
    Machine (Monitor σ ω υ) (MonitorEvent ω υ) where
  enabled := Monitor.enabled G
  step m e := some (m.step G e)

instance decidableMonitorMachine
    {σ ω υ : Type}
    [Fintype ω]
    [DecidableEq ω]
    [DecidableEq υ]
    (G : Guarded σ)
    (m : Monitor σ ω υ)
    (e : MonitorEvent ω υ) :
    Decidable ((monitorMachine G).enabled m e) :=
  inferInstanceAs (Decidable (m.enabled G e))

------------------------------------------------------------
-- No Wake-Up Is Lost
------------------------------------------------------------

namespace Monitor

variable {σ ω υ : Type}
variable {G : Guarded σ}
variable {m : Monitor σ ω υ}

/-
  The lock is where the threads say, and a thread sleeps
  only while the value is not ready or its notice is next.
-/
structure Sound
    (G : Guarded σ)
    (m : Monitor σ ω υ) : Prop where
  waiter :
    ∀ w, m.waiters w = .inside ↔ m.owner = some (.inl w)
  updater :
    ∀ u,
      (m.updaters u = .inside ∨ m.updaters u = .updated) ↔
        m.owner = some (.inr u)
  asleep :
    ∀ w,
      m.waiters w = .asleep →
        G.ready m.shared = false ∨
          ((∃ u, m.updaters u = .updated) ∧
            G.Wakes ω m.shared)

theorem start_sound
    (s : σ) :
    (start s : Monitor σ ω υ).Sound G where
  waiter := by simp [start]
  updater := by simp [start]
  asleep := by simp [start]

/- Only one thread has the lock. -/
theorem Sound.updated_unique
    (h : m.Sound G)
    {u v : υ}
    (hInside : m.updaters u = .inside)
    (hUpdated : m.updaters v = .updated) :
    False := by
  have hU := (h.updater u).mp (.inl hInside)
  have hV := (h.updater v).mp (.inr hUpdated)
  rw [hU] at hV
  cases hV
  rw [hInside] at hUpdated
  cases hUpdated

/- After its notice nobody sleeps who was to be woken. -/
theorem notified_ne_asleep
    [DecidableEq ω]
    (hWakes : G.Wakes ω m.shared)
    {chosen : Option ω}
    (hMay : G.notice m.shared = .one → m.MayWake chosen)
    (w : ω) :
    m.notified (G.notice m.shared) chosen w ≠ .asleep := by
  rcases hWakes with hAll | ⟨hOne, hSingle⟩
  · rw [hAll]
    unfold notified
    dsimp only
    split
    · exact fun hEq => by cases hEq
    next hAwake => exact hAwake
  · have hChosen := hMay hOne
    rw [hOne]
    cases chosen with
    | none => exact hChosen w
    | some x =>
        rw [Subsingleton.elim w x]
        simp [notified]

/- A notice puts nobody to sleep and lets nobody in. -/
theorem notified_cases
    [DecidableEq ω]
    (notice : Notice)
    (chosen : Option ω)
    (w : ω) :
    m.notified notice chosen w = m.waiters w ∨
      m.notified notice chosen w = .wanting := by
  cases notice <;> cases chosen <;>
    simp only [notified, true_or]
  case one.some x =>
    by_cases hEq : w = x
    · subst hEq
      exact .inr (Function.update_self _ _ _)
    · exact .inl (Function.update_of_ne hEq _ _)
  all_goals
    split
    · exact .inr rfl
    · exact .inl rfl

/- Every step of a thread keeps that. -/
theorem Sound.step
    [DecidableEq ω]
    [DecidableEq υ]
    (hAnnounces : G.Announces ω)
    (h : m.Sound G)
    {e : MonitorEvent ω υ}
    (hEnabled : m.enabled G e) :
    (m.step G e).Sound G := by
  cases e with
  | lockWaiter w =>
      rcases hEnabled with ⟨hFree, hWants⟩
      refine { waiter := ?_, updater := ?_, asleep := ?_ }
      · intro x
        by_cases hEq : x = w
        · subst hEq
          simp [Monitor.step]
        · simp [Monitor.step, hEq, h.waiter x, hFree,
            Ne.symm hEq]
      · intro u
        simp [Monitor.step, h.updater u, hFree]
      · intro x hAsleep
        by_cases hEq : x = w
        · subst hEq
          simp [Monitor.step] at hAsleep
        · simp only [Monitor.step,
            Function.update_of_ne hEq] at hAsleep
          exact h.asleep x hAsleep
  | test w =>
      have hOwner := (h.waiter w).mp hEnabled
      refine { waiter := ?_, updater := ?_, asleep := ?_ }
      · intro x
        by_cases hEq : x = w
        · subst hEq
          simp only [Monitor.step, Function.update_self]
          split <;> simp
        · have hOut : m.waiters x ≠ .inside := by
            rw [ne_eq, h.waiter x, hOwner]
            simpa using Ne.symm hEq
          simp [Monitor.step, hEq, hOut]
      · intro u
        simp [Monitor.step, h.updater u, hOwner]
      · intro x hAsleep
        by_cases hEq : x = w
        · subst hEq
          simp only [Monitor.step, Function.update_self]
            at hAsleep
          split at hAsleep
          · cases hAsleep
          next hNot =>
            exact .inl (Bool.eq_false_iff.mpr hNot)
        · simp only [Monitor.step,
            Function.update_of_ne hEq] at hAsleep
          exact h.asleep x hAsleep
  | wake w =>
      have hOut : m.owner ≠ some (.inl w) := by
        rw [ne_eq, ← h.waiter w, hEnabled]
        exact fun hEq => by cases hEq
      refine { waiter := ?_, updater := ?_, asleep := ?_ }
      · intro x
        by_cases hEq : x = w
        · subst hEq
          simp [Monitor.step, hOut]
        · simp [Monitor.step, hEq, h.waiter x]
      · exact h.updater
      · intro x hAsleep
        by_cases hEq : x = w
        · subst hEq
          simp [Monitor.step] at hAsleep
        · simp only [Monitor.step,
            Function.update_of_ne hEq] at hAsleep
          exact h.asleep x hAsleep
  | lockUpdater u =>
      rcases hEnabled with ⟨hFree, hWants⟩
      refine { waiter := ?_, updater := ?_, asleep := ?_ }
      · intro x
        simp [Monitor.step, h.waiter x, hFree]
      · intro v
        by_cases hEq : v = u
        · subst hEq
          simp [Monitor.step]
        · simp [Monitor.step, hEq, h.updater v, hFree,
            Ne.symm hEq]
      · intro x hAsleep
        rcases h.asleep x hAsleep with hNot | ⟨⟨v, hV⟩, _⟩
        · exact .inl hNot
        · have hOwner := (h.updater v).mp (.inr hV)
          rw [hFree] at hOwner
          cases hOwner
  | update u =>
      have hOwner := (h.updater u).mp (.inl hEnabled)
      refine { waiter := h.waiter, updater := ?_, asleep := ?_ }
      · intro v
        by_cases hEq : v = u
        · subst hEq
          simp [Monitor.step, hOwner]
        · simp [Monitor.step, hEq, h.updater v]
      · intro x hAsleep
        have hNot : G.ready m.shared = false := by
          rcases h.asleep x hAsleep with hNot | ⟨⟨v, hV⟩, _⟩
          · exact hNot
          · exact (h.updated_unique hEnabled hV).elim
        cases hReady : G.ready (G.update m.shared) with
        | false => exact .inl hReady
        | true =>
            exact
              .inr
                ⟨⟨u, Function.update_self _ _ _⟩,
                  hAnnounces m.shared hNot hReady⟩
  | notify u chosen =>
      rcases hEnabled with ⟨hUpdated, hMay⟩
      have hOwner := (h.updater u).mp (.inr hUpdated)
      refine { waiter := ?_, updater := ?_, asleep := ?_ }
      · intro x
        have hOut : m.waiters x ≠ .inside := by
          rw [ne_eq, h.waiter x, hOwner]
          exact fun hEq => by cases hEq
        rcases m.notified_cases (G.notice m.shared) chosen x
          with hSame | hWants
        · simp [Monitor.step, hSame, hOut]
        · simp [Monitor.step, hWants]
      · intro v
        by_cases hEq : v = u
        · subst hEq
          simp [Monitor.step]
        · have hOut :
              ¬ (m.updaters v = .inside ∨
                m.updaters v = .updated) := by
            rw [h.updater v, hOwner]
            simpa using Ne.symm hEq
          simp [Monitor.step, hEq, hOut]
      · intro x hAsleep
        have hBefore : m.waiters x = .asleep := by
          rcases m.notified_cases (G.notice m.shared) chosen x
            with hSame | hWants
          · exact hSame.symm.trans hAsleep
          · rw [show (m.step G (.notify u chosen)).waiters x =
              m.notified (G.notice m.shared) chosen x from
                rfl, hWants] at hAsleep
            cases hAsleep
        rcases h.asleep x hBefore with hNot | ⟨_, hWakes⟩
        · exact .inl hNot
        · exact
            absurd hAsleep (notified_ne_asleep hWakes hMay x)

end Monitor

------------------------------------------------------------
-- Where The Threads End
------------------------------------------------------------

namespace Monitor

variable {σ ω υ : Type}
variable {G : Guarded σ}
variable {m : Monitor σ ω υ}

/- No thread goes on, but for a wake-up for no reason. -/
def Settled
    (G : Guarded σ)
    (m : Monitor σ ω υ) : Prop :=
  ∀ e, m.enabled G e → e.isWake = true

/- Then the lock is free. -/
theorem Settled.owner
    (h : m.Settled G)
    (hSound : m.Sound G) :
    m.owner = none := by
  cases hOwner : m.owner with
  | none => rfl
  | some thread =>
      cases thread with
      | inl w =>
          have hInside := (hSound.waiter w).mpr hOwner
          exact absurd (h (.test w) hInside) Bool.false_ne_true
      | inr u =>
          rcases (hSound.updater u).mpr hOwner with
            hInside | hUpdated
          · exact
              absurd (h (.update u) hInside)
                Bool.false_ne_true
          · by_cases hSome : ∃ w, m.waiters w = .asleep
            · rcases hSome with ⟨w, hAsleep⟩
              exact
                absurd
                  (h (.notify u (some w))
                    ⟨hUpdated, fun _ => hAsleep⟩)
                  Bool.false_ne_true
            · exact
                absurd
                  (h (.notify u none)
                    ⟨hUpdated, fun _ w hAsleep =>
                      hSome ⟨w, hAsleep⟩⟩)
                  Bool.false_ne_true

/- The updates are done. -/
theorem Settled.updaters
    (h : m.Settled G)
    (hSound : m.Sound G)
    (u : υ) :
    m.updaters u = .returned := by
  have hFree := h.owner hSound
  have hOut := (hSound.updater u).not.mpr (by simp [hFree])
  cases hPos : m.updaters u with
  | wanting =>
      exact
        absurd (h (.lockUpdater u) ⟨hFree, hPos⟩)
          Bool.false_ne_true
  | inside => exact absurd (.inl hPos) hOut
  | updated => exact absurd (.inr hPos) hOut
  | returned => rfl

/- A thread sleeps there exactly while the value is not. -/
theorem Settled.waiters
    (h : m.Settled G)
    (hSound : m.Sound G)
    (hReturned :
      ∀ w, m.waiters w = .returned → G.ready m.shared = true)
    (w : ω) :
    m.waiters w =
      if G.ready m.shared then .returned else .asleep := by
  have hFree := h.owner hSound
  cases hPos : m.waiters w with
  | wanting =>
      exact
        absurd (h (.lockWaiter w) ⟨hFree, hPos⟩)
          Bool.false_ne_true
  | inside =>
      have hOwner := (hSound.waiter w).mp hPos
      rw [hFree] at hOwner
      cases hOwner
  | asleep =>
      rcases hSound.asleep w hPos with hNot | ⟨⟨u, hU⟩, _⟩
      · simp [hNot]
      · have hDone := h.updaters hSound u
        rw [hU] at hDone
        cases hDone
  | returned => simp [hReturned w hPos]

end Monitor

------------------------------------------------------------
-- The Updates Of A Run
------------------------------------------------------------

namespace Monitor

variable {σ ω υ : Type}
variable [Fintype υ]
variable {G : Guarded σ}
variable {m : Monitor σ ω υ}

/- The threads whose update is done. -/
def done
    (m : Monitor σ ω υ) : Finset υ :=
  Finset.univ.filter fun u =>
    m.updaters u = .updated ∨ m.updaters u = .returned

@[simp] theorem mem_done
    {u : υ} :
    u ∈ m.done ↔
      m.updaters u = .updated ∨ m.updaters u = .returned := by
  simp [done]

/-
  The value after the updates done, and it was ready for
  each thread that is back.
-/
structure Updated
    (G : Guarded σ)
    (s : σ)
    (m : Monitor σ ω υ) : Prop where
  shared : m.shared = G.update^[m.done.card] s
  returned :
    ∀ w, m.waiters w = .returned → G.ready m.shared = true

theorem start_updated
    (s : σ) :
    (start s : Monitor σ ω υ).Updated G s where
  shared := by
    have hNone : (start s : Monitor σ ω υ).done = ∅ := by
      ext u
      simp [start]
    rw [hNone]
    rfl
  returned := by simp [start]

/- A step that moves no update along. -/
theorem done_congr
    {t : Monitor σ ω υ}
    (hSame :
      ∀ u,
        (t.updaters u = .updated ∨
            t.updaters u = .returned) ↔
          (m.updaters u = .updated ∨
            m.updaters u = .returned)) :
    t.done = m.done := by
  ext u
  rw [mem_done, mem_done]
  exact hSame u

/- Once the value is ready it stays so. -/
theorem Updated.step
    [DecidableEq ω]
    [DecidableEq υ]
    (hStable :
      ∀ s, G.ready s = true → G.ready (G.update s) = true)
    {s : σ}
    (h : m.Updated G s)
    {e : MonitorEvent ω υ}
    (hEnabled : m.enabled G e) :
    (m.step G e).Updated G s := by
  cases e with
  | lockWaiter w =>
      refine { shared := h.shared, returned := ?_ }
      intro x hBack
      by_cases hEq : x = w
      · subst hEq
        simp [Monitor.step] at hBack
      · simp only [Monitor.step, Function.update_of_ne hEq]
          at hBack
        exact h.returned x hBack
  | test w =>
      refine { shared := h.shared, returned := ?_ }
      intro x hBack
      by_cases hEq : x = w
      · subst hEq
        simp only [Monitor.step, Function.update_self]
          at hBack
        split at hBack
        next hReady => exact hReady
        next => cases hBack
      · simp only [Monitor.step, Function.update_of_ne hEq]
          at hBack
        exact h.returned x hBack
  | wake w =>
      refine { shared := h.shared, returned := ?_ }
      intro x hBack
      by_cases hEq : x = w
      · subst hEq
        simp [Monitor.step] at hBack
      · simp only [Monitor.step, Function.update_of_ne hEq]
          at hBack
        exact h.returned x hBack
  | lockUpdater u =>
      refine { shared := ?_, returned := h.returned }
      rw [done_congr (m := m)]
      · exact h.shared
      · intro v
        by_cases hEq : v = u
        · subst hEq
          simp [Monitor.step, hEnabled.2]
        · simp [Monitor.step, hEq]
  | update u =>
      refine { shared := ?_, returned := ?_ }
      · have hInside : m.updaters u = .inside := hEnabled
        have hMore :
            (m.step G (.update u)).done = insert u m.done := by
          ext v
          by_cases hEq : v = u
          · subst hEq
            simp [Monitor.step]
          · simp [Monitor.step, hEq]
        have hNew : u ∉ m.done := by
          simp [hInside]
        rw [hMore, Finset.card_insert_of_notMem hNew,
          Function.iterate_succ_apply', ← h.shared]
        rfl
      · intro w hBack
        exact hStable m.shared (h.returned w hBack)
  | notify u chosen =>
      refine { shared := ?_, returned := ?_ }
      · rw [done_congr (m := m)]
        · exact h.shared
        · intro v
          by_cases hEq : v = u
          · subst hEq
            simp [Monitor.step, hEnabled.1]
          · simp [Monitor.step, hEq]
      · intro w hBack
        rcases m.notified_cases (G.notice m.shared) chosen w
          with hSame | hWants
        · exact h.returned w (hSame.symm.trans hBack)
        · rw [show (m.step G (.notify u chosen)).waiters w =
            m.notified (G.notice m.shared) chosen w from
              rfl, hWants] at hBack
          cases hBack

/- What holds along every run of the threads. -/
theorem reaches_sound
    [DecidableEq ω]
    [DecidableEq υ]
    (hAnnounces : G.Announces ω)
    (hStable :
      ∀ s, G.ready s = true → G.ready (G.update s) = true)
    {s : σ}
    {es : List (MonitorEvent ω υ)}
    (hRun : (monitorMachine G).Reaches (start s) es m) :
    m.Sound G ∧ m.Updated G s := by
  refine
    hRun.invariant (I := fun m => m.Sound G ∧ m.Updated G s)
      ?_ ⟨start_sound s, start_updated s⟩
  intro m e t h hEnabled hStep
  rcases Option.some.inj hStep with rfl
  exact
    ⟨h.1.step hAnnounces hEnabled, h.2.step hStable hEnabled⟩

/- Where all has settled, all updates were made. -/
theorem Settled.shared
    (h : m.Settled G)
    (hSound : m.Sound G)
    {s : σ}
    (hUpdated : m.Updated G s) :
    m.shared = G.update^[Fintype.card υ] s := by
  have hAll : m.done = Finset.univ := by
    ext u
    simp [h.updaters hSound u]
  rw [hUpdated.shared, hAll, Finset.card_univ]

end Monitor

------------------------------------------------------------
-- How Long A Run Is
------------------------------------------------------------

/- A sum with one place changed. -/
theorem sum_update_add
    {ι α : Type}
    [Fintype ι]
    [DecidableEq ι]
    (f : ι → α)
    (g : α → Nat)
    (i : ι)
    (a : α) :
    (∑ x, g (Function.update f i a x)) + g (f i) =
      (∑ x, g (f x)) + g a := by
  rw [← Finset.add_sum_erase _ _ (Finset.mem_univ i),
    ← Finset.add_sum_erase _ (fun x => g (f x))
      (Finset.mem_univ i)]
  have hRest :
      (∑ x ∈ Finset.univ.erase i,
          g (Function.update f i a x)) =
        ∑ x ∈ Finset.univ.erase i, g (f x) := by
    apply Finset.sum_congr rfl
    intro x hMem
    rw [Function.update_of_ne (Finset.ne_of_mem_erase hMem)]
  rw [hRest, Function.update_self]
  omega

/- How many steps a waiting thread has before it sleeps. -/
def WaiterPos.weight :
    WaiterPos → Nat
| .wanting => 2
| .inside => 1
| .asleep => 0
| .returned => 0

/- Its own steps, and those that its notice brings. -/
def UpdaterPos.weight
    (waiters : Nat) :
    UpdaterPos → Nat
| .wanting => 2 * waiters + 3
| .inside => 2 * waiters + 2
| .updated => 2 * waiters + 1
| .returned => 0

namespace Monitor

variable {σ ω υ : Type}
variable [Fintype ω]

/- A notice brings two steps for each waiting thread. -/
theorem sum_notified_le
    [DecidableEq ω]
    (m : Monitor σ ω υ)
    (notice : Notice)
    (chosen : Option ω) :
    (∑ w, (m.notified notice chosen w).weight) ≤
      (∑ w, (m.waiters w).weight) + 2 * Fintype.card ω := by
  calc
    (∑ w, (m.notified notice chosen w).weight)
        ≤ ∑ w, ((m.waiters w).weight + 2) := by
          apply Finset.sum_le_sum
          intro w _
          rcases m.notified_cases notice chosen w with
            hSame | hWants
          · rw [hSame]
            omega
          · rw [hWants]
            simp only [WaiterPos.weight]
            omega
    _ = (∑ w, (m.waiters w).weight) +
          2 * Fintype.card ω := by
          rw [Finset.sum_add_distrib,
            Finset.sum_const_nat fun _ _ => rfl,
            Finset.card_univ, Nat.mul_comm]

variable [Fintype υ]

/- The steps that are left, without wake-ups for no reason. -/
def weight
    (m : Monitor σ ω υ) : Nat :=
  (∑ w, (m.waiters w).weight) +
    ∑ u, (m.updaters u).weight (Fintype.card ω)

/- Two steps for each thread that waits, and the updates. -/
theorem weight_start
    (s : σ) :
    (start s : Monitor σ ω υ).weight =
      2 * Fintype.card ω +
        Fintype.card υ * (2 * Fintype.card ω + 3) := by
  have hWaiters :
      (∑ w : ω,
          ((start s : Monitor σ ω υ).waiters w).weight) =
        Fintype.card ω * 2 :=
    Finset.sum_const_nat fun _ _ => rfl
  have hUpdaters :
      (∑ u : υ,
          ((start s : Monitor σ ω υ).updaters u).weight
            (Fintype.card ω)) =
        Fintype.card υ * (2 * Fintype.card ω + 3) :=
    Finset.sum_const_nat fun _ _ => rfl
  rw [weight, hWaiters, hUpdaters, Nat.mul_comm 2]

variable [DecidableEq ω] [DecidableEq υ]
variable {G : Guarded σ}
variable {m : Monitor σ ω υ}

/-
  Each step is one of those, but for a wake-up for no reason,
  which brings two.
-/
theorem weight_step
    {e : MonitorEvent ω υ}
    (hEnabled : m.enabled G e) :
    (m.step G e).weight <
      m.weight + if e.isWake then 3 else 0 := by
  unfold weight
  cases e with
  | lockWaiter w =>
      have hSum :=
        sum_update_add m.waiters WaiterPos.weight w .inside
      rw [hEnabled.2] at hSum
      simp only [Monitor.step, WaiterPos.weight,
        MonitorEvent.isWake, Bool.false_eq_true, if_false]
        at hSum ⊢
      omega
  | test w =>
      have hInside : m.waiters w = .inside := hEnabled
      have hSum :=
        sum_update_add m.waiters WaiterPos.weight w
          (if G.ready m.shared then .returned else .asleep)
      have hZero :
          (if G.ready m.shared then WaiterPos.returned
            else .asleep).weight = 0 := by
        split <;> rfl
      rw [hInside, hZero] at hSum
      simp only [Monitor.step, WaiterPos.weight,
        MonitorEvent.isWake, Bool.false_eq_true, if_false]
        at hSum ⊢
      omega
  | wake w =>
      have hAsleep : m.waiters w = .asleep := hEnabled
      have hSum :=
        sum_update_add m.waiters WaiterPos.weight w .wanting
      rw [hAsleep] at hSum
      simp only [Monitor.step, WaiterPos.weight,
        MonitorEvent.isWake, if_true] at hSum ⊢
      omega
  | lockUpdater u =>
      have hSum :=
        sum_update_add m.updaters
          (UpdaterPos.weight (Fintype.card ω)) u .inside
      rw [hEnabled.2] at hSum
      simp only [Monitor.step, UpdaterPos.weight,
        MonitorEvent.isWake, Bool.false_eq_true, if_false]
        at hSum ⊢
      omega
  | update u =>
      have hInside : m.updaters u = .inside := hEnabled
      have hSum :=
        sum_update_add m.updaters
          (UpdaterPos.weight (Fintype.card ω)) u .updated
      rw [hInside] at hSum
      simp only [Monitor.step, UpdaterPos.weight,
        MonitorEvent.isWake, Bool.false_eq_true, if_false]
        at hSum ⊢
      omega
  | notify u chosen =>
      have hSum :=
        sum_update_add m.updaters
          (UpdaterPos.weight (Fintype.card ω)) u .returned
      have hNotice :=
        m.sum_notified_le (G.notice m.shared) chosen
      rw [hEnabled.1] at hSum
      simp only [Monitor.step, UpdaterPos.weight,
        MonitorEvent.isWake, Bool.false_eq_true, if_false]
        at hSum ⊢
      omega

/- How long a run is. -/
theorem length_le_of_reaches
    {s : σ}
    {es : List (MonitorEvent ω υ)}
    (hRun : (monitorMachine G).Reaches (start s) es m) :
    es.length ≤
      2 * Fintype.card ω +
          Fintype.card υ * (2 * Fintype.card ω + 3) +
        3 * es.countP MonitorEvent.isWake := by
  have hLength :=
    hRun.length_le weight MonitorEvent.isWake
      fun m e t hEnabled hStep => by
        rcases Option.some.inj hStep with rfl
        exact m.weight_step hEnabled
  rw [weight_start] at hLength
  omega

end Monitor
