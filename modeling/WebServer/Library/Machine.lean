/-
  Machines driven by external events.

  `enabled` says which events the environment may offer in a
  state; `step` is the program's answer to one event, and
  `none` is a failure of the program (a crash, a failed
  assertion, a null dereference). Every choice that the
  environment makes (a scheduler, a kernel, a peer) is data
  of the event, so one step function covers all
  interleavings.

  Key definitions include:
    * `Machine`
    * `Machine.Reaches`
    * `Machine.Throughout`
    * `Machine.Always`
    * `Machine.StepsMeet`
    * `Machine.recording`
    * `Machine.testSteps`
    * `Machine.exec`

  The induction rules are:
    * `Machine.Reaches.invariant`
    * `Machine.stepsMeet_congr`
    * `Machine.throughout_of_stepsMeet`
    * `Machine.throughout_of_preserved`
    * `Machine.throughout_iff_stepsMeet`
    * `Machine.throughout_iff_stepsMeet_of`
    * `Machine.always_of_stepsMeet`
    * `Machine.always_of_preserved`
    * `Machine.always_iff_stepsMeet`
    * `Machine.Reaches.stepsMeet_of_always`
    * `Machine.Reaches.length_le`
    * `Machine.exists_reaches`
-/

------------------------------------------------------------
-- Machines And Runs
------------------------------------------------------------

/- Events a state allows, and the program's answer to them. -/
structure Machine (σ ε : Type) where
  enabled : σ → ε → Prop
  step : σ → ε → Option σ

namespace Machine

variable {σ ε : Type}

/- A run over enabled events, none of which fails. -/
inductive Reaches
    (M : Machine σ ε) :
    σ → List ε → σ → Prop
| nil (s : σ) : Reaches M s [] s
| cons
    {s t u : σ}
    {e : ε}
    {es : List ε}
    (hEnabled : M.enabled s e)
    (hStep : M.step s e = some t)
    (hRest : Reaches M t es u) :
    Reaches M s (e :: es) u

/- A run of one step. -/
theorem Reaches.single
    {M : Machine σ ε}
    {s t : σ}
    {e : ε}
    (hEnabled : M.enabled s e)
    (hStep : M.step s e = some t) :
    M.Reaches s [e] t :=
  .cons hEnabled hStep (.nil t)

/- One run after another. -/
theorem Reaches.append
    {M : Machine σ ε}
    {s t u : σ}
    {es es' : List ε}
    (hFront : M.Reaches s es t)
    (hBack : M.Reaches t es' u) :
    M.Reaches s (es ++ es') u := by
  induction hFront with
  | nil s => exact hBack
  | cons hEnabled hStep _ ih =>
      exact .cons hEnabled hStep (ih hBack)

/- A run over one list of events after another. -/
theorem Reaches.append_inv
    {M : Machine σ ε}
    {s u : σ}
    {es es' : List ε}
    (h : M.Reaches s (es ++ es') u) :
    ∃ t, M.Reaches s es t ∧ M.Reaches t es' u := by
  induction es generalizing s with
  | nil => exact ⟨s, .nil s, h⟩
  | cons e es ih =>
      cases h with
      | cons hEnabled hStep hRest =>
          rcases ih hRest with ⟨t, hFront, hBack⟩
          exact ⟨t, .cons hEnabled hStep hFront, hBack⟩

/-
  Along every run over the events no step fails and every
  state reached has the property.
-/
def Throughout
    (M : Machine σ ε)
    (P : σ → Prop) :
    σ → List ε → Prop
| s, [] => P s
| s, e :: es =>
    P s ∧
      (M.enabled s e →
        ∃ t, M.step s e = some t ∧ M.Throughout P t es)

/-
  Every state reached along the runs over the events has the
  property. A step that fails ends a run.
-/
def Always
    (M : Machine σ ε)
    (P : σ → Prop) :
    σ → List ε → Prop
| s, [] => P s
| s, e :: es =>
    P s ∧
      (M.enabled s e →
        ∀ t, M.step s e = some t → M.Always P t es)

/-
  A condition met by every step taken along a run. It reads
  the state before the step and the event only.
-/
def StepsMeet
    (M : Machine σ ε)
    (C : σ → ε → Prop) :
    σ → List ε → Prop
| _, [] => True
| s, e :: es =>
    M.enabled s e →
      C s e ∧
        ∀ t, M.step s e = some t → M.StepsMeet C t es

/-
  The machine with a record of its run beside its state. The
  record reads the state before each step, and no step reads
  the record.
-/
def recording
    {η : Type}
    (M : Machine σ ε)
    (note : σ → ε → η → η) : Machine (σ × η) ε where
  enabled s e := M.enabled s.1 e
  step s e :=
    (M.step s.1 e).map fun t => (t, note s.1 e s.2)

/- A recorded step is a step and a note of it. -/
theorem recording_step_some
    {η : Type}
    {M : Machine σ ε}
    {note : σ → ε → η → η}
    {s t : σ}
    {h : η}
    {e : ε}
    (hStep : M.step s e = some t) :
    (M.recording note).step (s, h) e =
      some (t, note s e h) := by
  simp [recording, hStep]

/- A recorded run is a run. -/
theorem Reaches.of_recording
    {η : Type}
    {M : Machine σ ε}
    {note : σ → ε → η → η}
    {r r' : σ × η}
    {es : List ε}
    (h : (M.recording note).Reaches r es r') :
    M.Reaches r.1 es r'.1 := by
  induction h with
  | nil r => exact .nil r.1
  | cons hEnabled hStep _ ih =>
      rcases Option.map_eq_some_iff.mp hStep with
        ⟨t, hNext, rfl⟩
      exact .cons hEnabled hNext ih

/- Every run can be recorded. -/
theorem Reaches.recorded
    {η : Type}
    {M : Machine σ ε}
    {s t : σ}
    {es : List ε}
    (hReach : M.Reaches s es t)
    (note : σ → ε → η → η)
    (h : η) :
    ∃ h', (M.recording note).Reaches (s, h) es (t, h') := by
  induction hReach generalizing h with
  | nil s => exact ⟨h, .nil _⟩
  | @cons s u t e es hEnabled hStep _ ih =>
      rcases ih (note s e h) with ⟨h', hRest⟩
      exact
        ⟨h', .cons hEnabled (recording_step_some hStep) hRest⟩

/- The first state of a run has the property. -/
theorem Throughout.head
    {M : Machine σ ε}
    {P : σ → Prop}
    {s : σ}
    {es : List ε}
    (h : M.Throughout P s es) :
    P s := by
  cases es with
  | nil => exact h
  | cons e es => exact h.1

theorem Always.head
    {M : Machine σ ε}
    {P : σ → Prop}
    {s : σ}
    {es : List ε}
    (h : M.Always P s es) :
    P s := by
  cases es with
  | nil => exact h
  | cons e es => exact h.1

/- A property throughout a run holds where the run ends. -/
theorem Throughout.reached
    {M : Machine σ ε}
    {P : σ → Prop}
    {s s' : σ}
    {es : List ε}
    (h : M.Throughout P s es)
    (hReach : M.Reaches s es s') :
    P s' := by
  induction hReach with
  | nil s => exact h
  | cons hEnabled hStep _ ih =>
      rcases h.2 hEnabled with ⟨t, hNext, hTail⟩
      have hEq := Option.some.inj (hStep.symm.trans hNext)
      subst hEq
      exact ih hTail

theorem Always.reached
    {M : Machine σ ε}
    {P : σ → Prop}
    {s s' : σ}
    {es : List ε}
    (h : M.Always P s es)
    (hReach : M.Reaches s es s') :
    P s' := by
  induction hReach with
  | nil s => exact h
  | cons hEnabled hStep _ ih =>
      exact ih (h.2 hEnabled _ hStep)

end Machine

------------------------------------------------------------
-- Induction Rules
------------------------------------------------------------

namespace Machine

variable {σ ε : Type}
variable {M : Machine σ ε}

/- What one step preserves, a whole run preserves. -/
theorem Reaches.invariant
    {I : σ → Prop}
    (hPreserve :
      ∀ s e t, I s → M.enabled s e →
        M.step s e = some t → I t)
    {s s' : σ}
    {es : List ε}
    (hInit : I s)
    (hReach : M.Reaches s es s') :
    I s' := by
  induction hReach with
  | nil s => exact hInit
  | cons hEnabled hStep _ ih =>
      exact ih (hPreserve _ _ _ hInit hEnabled hStep)

/- The steps of the two parts of a run meet a condition. -/
theorem StepsMeet.append
    {C : σ → ε → Prop}
    {s t : σ}
    {es es' : List ε}
    (h : M.StepsMeet C s (es ++ es'))
    (hReach : M.Reaches s es t) :
    M.StepsMeet C s es ∧ M.StepsMeet C t es' := by
  induction hReach with
  | nil s => exact ⟨trivial, h⟩
  | cons hEnabled hStep _ ih =>
      have hHead := h hEnabled
      have hTail := ih (hHead.2 _ hStep)
      refine ⟨?_, hTail.2⟩
      intro _
      refine ⟨hHead.1, ?_⟩
      intro u hNext
      rcases Option.some.inj (hStep.symm.trans hNext) with rfl
      exact hTail.1

/- A condition that always holds is met by every run. -/
theorem stepsMeet_of_all
    {C : σ → ε → Prop}
    (hAll : ∀ s e, C s e)
    (s : σ)
    (es : List ε) :
    M.StepsMeet C s es := by
  induction es generalizing s with
  | nil => trivial
  | cons e es ih =>
      exact fun _ => ⟨hAll s e, fun t _ => ih t⟩

/-
  Two conditions that agree where an invariant and an
  assumption on the steps hold are met by the steps of the
  same runs.
-/
theorem stepsMeet_congr
    {I : σ → Prop}
    {A C D : σ → ε → Prop}
    (hKeep :
      ∀ s e t, I s → M.enabled s e →
        M.step s e = some t → I t)
    (hSame :
      ∀ s e, I s → M.enabled s e → A s e →
        (C s e ↔ D s e))
    {s : σ}
    {es : List ε}
    (hInit : I s)
    (hAssumed : M.StepsMeet A s es) :
    M.StepsMeet C s es ↔ M.StepsMeet D s es := by
  induction es generalizing s with
  | nil => exact Iff.rfl
  | cons e es ih =>
      apply forall_congr'
      intro hEnabled
      have hHead := hAssumed hEnabled
      apply and_congr (hSame s e hInit hEnabled hHead.1)
      apply forall_congr'
      intro t
      apply forall_congr'
      intro hStep
      exact
        ih (hKeep s e t hInit hEnabled hStep)
          (hHead.2 t hStep)

/-
  If every enabled step that meets a condition succeeds and
  keeps the invariant, the invariant holds throughout each
  run whose steps all meet the condition.
-/
theorem throughout_of_stepsMeet
    {I : σ → Prop}
    {C : σ → ε → Prop}
    (hProgress :
      ∀ s e, I s → M.enabled s e → C s e →
        ∃ t, M.step s e = some t ∧ I t)
    {s : σ}
    {es : List ε}
    (hInit : I s)
    (hMeet : M.StepsMeet C s es) :
    M.Throughout I s es := by
  induction es generalizing s with
  | nil => exact hInit
  | cons e es ih =>
      refine ⟨hInit, ?_⟩
      intro hEnabled
      have hHead := hMeet hEnabled
      rcases hProgress s e hInit hEnabled hHead.1 with
        ⟨t, hStep, hNext⟩
      exact ⟨t, hStep, ih hNext (hHead.2 t hStep)⟩

/- The same when no condition is needed. -/
theorem throughout_of_preserved
    {I : σ → Prop}
    (hProgress :
      ∀ s e, I s → M.enabled s e →
        ∃ t, M.step s e = some t ∧ I t)
    {s : σ}
    (hInit : I s)
    (es : List ε) :
    M.Throughout I s es := by
  induction es generalizing s with
  | nil => exact hInit
  | cons e es ih =>
      refine ⟨hInit, ?_⟩
      intro hEnabled
      rcases hProgress s e hInit hEnabled with
        ⟨t, hStep, hNext⟩
      exact ⟨t, hStep, ih hNext⟩

/- A weaker property also holds throughout a run. -/
theorem Throughout.mono
    {I P : σ → Prop}
    (hWeaker : ∀ s, I s → P s)
    {s : σ}
    {es : List ε}
    (h : M.Throughout I s es) :
    M.Throughout P s es := by
  induction es generalizing s with
  | nil => exact hWeaker s h
  | cons e es ih =>
      refine ⟨hWeaker s h.1, ?_⟩
      intro hEnabled
      rcases h.2 hEnabled with ⟨t, hStep, hTail⟩
      exact ⟨t, hStep, ih hTail⟩

/-
  If a condition on a step makes it succeed and keep the
  invariant, and a step without it loses the property, the
  property holds throughout a run exactly when all steps of
  the run meet the condition. Both may rest on an assumption
  that all steps of the run meet.
-/
theorem throughout_iff_stepsMeet_of
    {I P : σ → Prop}
    {A C : σ → ε → Prop}
    (hGood : ∀ s, I s → P s)
    (hKeep :
      ∀ s e, I s → M.enabled s e → A s e → C s e →
        ∃ t, M.step s e = some t ∧ I t)
    (hBreak :
      ∀ s e, I s → M.enabled s e → A s e → ¬ C s e →
        ∀ t, M.step s e = some t → ¬ P t)
    {s : σ}
    {es : List ε}
    (hInit : I s)
    (hAssumed : M.StepsMeet A s es) :
    M.Throughout P s es ↔ M.StepsMeet C s es := by
  induction es generalizing s with
  | nil => exact iff_of_true (hGood s hInit) trivial
  | cons e es ih =>
      constructor
      · intro hAll hEnabled
        have hHead := hAssumed hEnabled
        rcases hAll.2 hEnabled with ⟨t, hStep, hTail⟩
        have hMeets : C s e := by
          apply Classical.byContradiction
          intro hNot
          exact
            hBreak s e hInit hEnabled hHead.1 hNot t hStep
              hTail.head
        refine ⟨hMeets, ?_⟩
        intro u hNext
        rcases hKeep s e hInit hEnabled hHead.1 hMeets with
          ⟨v, hAgain, hInv⟩
        have hSame := Option.some.inj (hStep.symm.trans hNext)
        subst hSame
        have hSame := Option.some.inj (hAgain.symm.trans hStep)
        subst hSame
        exact (ih hInv (hHead.2 _ hStep)).mp hTail
      · intro hMeet
        refine ⟨hGood s hInit, ?_⟩
        intro hEnabled
        have hHead := hAssumed hEnabled
        have hNow := hMeet hEnabled
        rcases hKeep s e hInit hEnabled hHead.1 hNow.1 with
          ⟨t, hStep, hInv⟩
        exact
          ⟨t, hStep,
            (ih hInv (hHead.2 t hStep)).mpr
              (hNow.2 t hStep)⟩

/- The same without an assumption. -/
theorem throughout_iff_stepsMeet
    {I P : σ → Prop}
    {C : σ → ε → Prop}
    (hGood : ∀ s, I s → P s)
    (hKeep :
      ∀ s e, I s → M.enabled s e → C s e →
        ∃ t, M.step s e = some t ∧ I t)
    (hBreak :
      ∀ s e, I s → M.enabled s e → ¬ C s e →
        ∀ t, M.step s e = some t → ¬ P t)
    {s : σ}
    {es : List ε}
    (hInit : I s) :
    M.Throughout P s es ↔ M.StepsMeet C s es :=
  throughout_iff_stepsMeet_of
    (A := fun _ _ => True) hGood
    (fun s e hInv hEnabled _ => hKeep s e hInv hEnabled)
    (fun s e hInv hEnabled _ => hBreak s e hInv hEnabled)
    hInit (stepsMeet_of_all (fun _ _ => trivial) s es)

/-
  If every step that meets a condition keeps the invariant,
  every state of a run whose steps all meet it has the
  invariant. A failing step may end the run.
-/
theorem always_of_stepsMeet
    {I : σ → Prop}
    {C : σ → ε → Prop}
    (hKeep :
      ∀ s e t, I s → M.enabled s e → C s e →
        M.step s e = some t → I t)
    {s : σ}
    {es : List ε}
    (hInit : I s)
    (hMeet : M.StepsMeet C s es) :
    M.Always I s es := by
  induction es generalizing s with
  | nil => exact hInit
  | cons e es ih =>
      refine ⟨hInit, ?_⟩
      intro hEnabled t hStep
      have hHead := hMeet hEnabled
      have hNext :=
        hKeep s e t hInit hEnabled hHead.1 hStep
      exact ih hNext (hHead.2 t hStep)

/- The same when no condition is needed. -/
theorem always_of_preserved
    {I : σ → Prop}
    (hKeep :
      ∀ s e t, I s → M.enabled s e →
        M.step s e = some t → I t)
    {s : σ}
    (hInit : I s)
    (es : List ε) :
    M.Always I s es := by
  induction es generalizing s with
  | nil => exact hInit
  | cons e es ih =>
      refine ⟨hInit, ?_⟩
      intro hEnabled t hStep
      exact ih (hKeep s e t hInit hEnabled hStep)

/- A weaker property also holds in every state of a run. -/
theorem Always.mono
    {I P : σ → Prop}
    (hWeaker : ∀ s, I s → P s)
    {s : σ}
    {es : List ε}
    (h : M.Always I s es) :
    M.Always P s es := by
  induction es generalizing s with
  | nil => exact hWeaker s h
  | cons e es ih =>
      refine ⟨hWeaker s h.1, ?_⟩
      intro hEnabled t hStep
      exact ih (h.2 hEnabled t hStep)

/-
  If moreover a step that does not meet the condition
  succeeds and loses the property, the property holds in
  every state of a run exactly when all its steps meet it.
-/
theorem always_iff_stepsMeet
    {I P : σ → Prop}
    {C : σ → ε → Prop}
    (hGood : ∀ s, I s → P s)
    (hKeep :
      ∀ s e t, I s → M.enabled s e → C s e →
        M.step s e = some t → I t)
    (hBreak :
      ∀ s e, I s → M.enabled s e → ¬ C s e →
        ∃ t, M.step s e = some t ∧ ¬ P t)
    {s : σ}
    {es : List ε}
    (hInit : I s) :
    M.Always P s es ↔ M.StepsMeet C s es := by
  constructor
  · intro hAll
    induction es generalizing s with
    | nil => trivial
    | cons e es ih =>
        intro hEnabled
        have hMeets : C s e := by
          apply Classical.byContradiction
          intro hNot
          rcases hBreak s e hInit hEnabled hNot with
            ⟨t, hStep, hLost⟩
          exact hLost (hAll.2 hEnabled t hStep).head
        refine ⟨hMeets, ?_⟩
        intro t hStep
        have hNext := hKeep s e t hInit hEnabled hMeets hStep
        exact ih hNext (hAll.2 hEnabled t hStep)
  · intro hMeet
    exact (always_of_stepsMeet hKeep hInit hMeet).mono hGood

/-
  Along a run that was taken, a property that the steps
  without the condition lose shows that all steps meet it.
-/
theorem Reaches.stepsMeet_of_always
    {I P : σ → Prop}
    {C : σ → ε → Prop}
    (hKeep :
      ∀ s e t, I s → M.enabled s e → C s e →
        M.step s e = some t → I t)
    (hBreak :
      ∀ s e t, I s → M.enabled s e → ¬ C s e →
        M.step s e = some t → ¬ P t)
    {s s' : σ}
    {es : List ε}
    (hInit : I s)
    (hReach : M.Reaches s es s')
    (hAll : M.Always P s es) :
    M.StepsMeet C s es := by
  induction hReach with
  | nil s => trivial
  | @cons s t u e es hEnabled hStep _ ih =>
      intro _
      have hTail := hAll.2 hEnabled t hStep
      have hMeets : C s e := by
        apply Classical.byContradiction
        intro hNot
        exact
          hBreak s e t hInit hEnabled hNot hStep hTail.head
      refine ⟨hMeets, ?_⟩
      intro v hNext
      rcases Option.some.inj (hStep.symm.trans hNext) with rfl
      exact
        ih (hKeep s e t hInit hEnabled hMeets hStep) hTail

end Machine

------------------------------------------------------------
-- Lengths Of Runs
------------------------------------------------------------

namespace Machine

variable {σ ε : Type}
variable {M : Machine σ ε}

/-
  If each step lowers a weight, but for some events that may
  raise it by less than `c`, a run is at most as long as its
  start weighs, and `c` for each of those.
-/
theorem Reaches.length_le
    (weight : σ → Nat)
    (idle : ε → Bool)
    {c : Nat}
    (hStep :
      ∀ s e t, M.enabled s e → M.step s e = some t →
        weight t < weight s + if idle e then c else 0)
    {s t : σ}
    {es : List ε}
    (hReach : M.Reaches s es t) :
    es.length + weight t ≤ weight s + c * es.countP idle := by
  induction hReach with
  | nil s => simp
  | @cons s u t e es hEnabled hNext _ ih =>
      have hLess := hStep s e u hEnabled hNext
      rw [List.length_cons, List.countP_cons]
      cases hIdle : idle e with
      | true =>
          simp only [hIdle, if_true] at hLess ⊢
          rw [Nat.mul_add, Nat.mul_one]
          omega
      | false =>
          simp only [hIdle, Bool.false_eq_true, if_false,
            Nat.add_zero] at hLess ⊢
          omega

/-
  If wherever an end is not reached some step lowers the
  weight and keeps the invariant, an end can be reached.
-/
theorem exists_reaches
    {I Final : σ → Prop}
    (weight : σ → Nat)
    (hGo :
      ∀ s, I s → ¬ Final s →
        ∃ e t, M.enabled s e ∧ M.step s e = some t ∧
          I t ∧ weight t < weight s)
    {s : σ}
    (hInit : I s) :
    ∃ es t, M.Reaches s es t ∧ Final t := by
  induction hWeight : weight s using Nat.strongRecOn
    generalizing s with
  | ind n ih =>
      by_cases hEnd : Final s
      · exact ⟨[], s, .nil s, hEnd⟩
      · rcases hGo s hInit hEnd with
          ⟨e, t, hEnabled, hStep, hNext, hLess⟩
        rcases ih (weight t) (by omega) hNext rfl with
          ⟨es, u, hReach, hFinal⟩
        exact
          ⟨e :: es, u, .cons hEnabled hStep hReach, hFinal⟩

end Machine

------------------------------------------------------------
-- Running A Machine
------------------------------------------------------------

namespace Machine

variable {σ ε : Type}
variable (M : Machine σ ε)

/- Every step over the events passes a test. -/
def testSteps
    (test : σ → ε → Bool) :
    σ → List ε → Bool
| _, [] => true
| s, e :: es =>
    test s e &&
      match M.step s e with
      | some t => testSteps test t es
      | none => true

/- A test for a condition tests the steps of a run. -/
theorem stepsMeet_of_test
    {C : σ → ε → Prop}
    {test : σ → ε → Bool}
    (hTest : ∀ s e, test s e = true → C s e)
    {s : σ}
    {es : List ε}
    (hPass : testSteps M test s es = true) :
    M.StepsMeet C s es := by
  induction es generalizing s with
  | nil => trivial
  | cons e es ih =>
      unfold testSteps at hPass
      rw [Bool.and_eq_true] at hPass
      intro _
      refine ⟨hTest s e hPass.1, ?_⟩
      intro t hStep
      have hRest := hPass.2
      rw [hStep] at hRest
      exact ih hRest

variable [∀ s e, Decidable (M.enabled s e)]

/- The state after a list of events, each enabled. -/
def exec : σ → List ε → Option σ
| s, [] => some s
| s, e :: es =>
    if M.enabled s e then
      match M.step s e with
      | some t => exec t es
      | none => none
    else
      none

variable {M}

/- What runs to a state reaches it. -/
theorem reaches_of_exec
    {s t : σ}
    {es : List ε}
    (hExec : M.exec s es = some t) :
    M.Reaches s es t := by
  induction es generalizing s with
  | nil =>
      rcases Option.some.inj hExec with rfl
      exact .nil s
  | cons e es ih =>
      unfold exec at hExec
      split at hExec
      next hEnabled =>
        split at hExec
        next u hStep => exact .cons hEnabled hStep (ih hExec)
        next => cases hExec
      next => cases hExec

/- A value read off the end of a run. -/
theorem reaches_of_exec_map
    {α : Type}
    {f : σ → α}
    {a : α}
    {s : σ}
    {es : List ε}
    (hRun : (M.exec s es).map f = some a) :
    ∃ t, M.Reaches s es t ∧ f t = a := by
  rcases Option.map_eq_some_iff.mp hRun with
    ⟨t, hExec, hEnd⟩
  exact ⟨t, reaches_of_exec hExec, hEnd⟩

/- A value read off the end of a run and of what follows. -/
theorem reaches_of_exec_exec
    {α : Type}
    {f : σ → σ → α}
    {a : α}
    {s : σ}
    {es es' : List ε}
    (hRun :
      ((M.exec s es).bind fun t =>
          (M.exec t es').map (f t)) =
        some a) :
    ∃ t u,
      M.Reaches s es t ∧ M.Reaches t es' u ∧
        f t u = a := by
  rcases Option.bind_eq_some_iff.mp hRun with
    ⟨t, hFront, hBack⟩
  rcases reaches_of_exec_map hBack with ⟨u, hReach, hEnd⟩
  exact ⟨t, u, reaches_of_exec hFront, hReach, hEnd⟩

/- Whether the steps of a run meet a condition. -/
instance decidableStepsMeet
    {C : σ → ε → Prop}
    [∀ s e, Decidable (C s e)] :
    ∀ s es, Decidable (M.StepsMeet C s es)
| _, [] => isTrue trivial
| s, e :: es =>
    if hEnabled : M.enabled s e then
      if hMeets : C s e then
        match hStep : M.step s e with
        | none =>
            isTrue fun _ =>
              ⟨hMeets, fun t hSome => by
                rw [hStep] at hSome
                cases hSome⟩
        | some t =>
            match decidableStepsMeet t es with
            | isTrue hTail =>
                isTrue fun _ =>
                  ⟨hMeets, fun u hSome => by
                    rw [hStep] at hSome
                    rcases Option.some.inj hSome with rfl
                    exact hTail⟩
            | isFalse hTail =>
                isFalse fun hAll =>
                  hTail ((hAll hEnabled).2 t hStep)
      else
        isFalse fun hAll => hMeets (hAll hEnabled).1
    else
      isTrue fun hOn => absurd hOn hEnabled

end Machine
