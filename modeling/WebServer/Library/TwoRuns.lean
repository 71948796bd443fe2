import Mathlib.Data.List.Forall2
import Mathlib.Data.Option.Defs

/-
  Two runs of one program, side by side.

  A step takes an input and may fail, end the run or go on;
  each step shows something. When related states show
  related things and stay related, two runs on the same
  inputs show related things all along.

  Key definitions include:
    * `TwoRuns.SameOutcome`
    * `TwoRuns.observe`

  Key theorems include:
    * `TwoRuns.SameOutcome.bind`
    * `TwoRuns.observe_related`
-/

------------------------------------------------------------
-- Outcomes
------------------------------------------------------------

namespace TwoRuns

variable {ε α β γ δ : Type}

/- Related values, or the same failure. -/
inductive SameOutcome
    (R : α → β → Prop) :
    Except ε α → Except ε β → Prop
| ok {a : α} {b : β} (hRel : R a b) :
    SameOutcome R (.ok a) (.ok b)
| error (e : ε) :
    SameOutcome R (.error e) (.error e)

namespace SameOutcome

/- What is done with related values. -/
theorem bind
    {R : α → β → Prop}
    {S : γ → δ → Prop}
    {x : Except ε α}
    {y : Except ε β}
    {f : α → Except ε γ}
    {g : β → Except ε δ}
    (h : SameOutcome R x y)
    (hNext : ∀ a b, R a b → SameOutcome S (f a) (g b)) :
    SameOutcome S (x.bind f) (y.bind g) := by
  cases h with
  | ok hRel => exact hNext _ _ hRel
  | error e => exact .error e

theorem mono
    {R S : α → β → Prop}
    {x : Except ε α}
    {y : Except ε β}
    (h : SameOutcome R x y)
    (hImp : ∀ a b, R a b → S a b) :
    SameOutcome S x y := by
  cases h with
  | ok hRel => exact .ok (hImp _ _ hRel)
  | error e => exact .error e

end SameOutcome

end TwoRuns

------------------------------------------------------------
-- Runs
------------------------------------------------------------

namespace TwoRuns

variable {ε σ ι ω : Type}

/-
  What a run shows on a list of inputs. It ends with a
  failure, with a step that ends it, or with the inputs.
-/
def observe
    (step : ι → σ → Except ε (ω × Option σ)) :
    List ι → σ → List (Except ε ω)
| [], _ => []
| input :: inputs, s =>
    match step input s with
    | .error e => [.error e]
    | .ok (seen, none) => [.ok seen]
    | .ok (seen, some s) =>
        .ok seen :: observe step inputs s

/- Related states show related things in every run. -/
theorem observe_related
    {step : ι → σ → Except ε (ω × Option σ)}
    {R : σ → σ → Prop}
    {V : ω → ω → Prop}
    (hStep :
      ∀ input s t,
        R s t →
          SameOutcome
            (fun a b => V a.1 b.1 ∧ Option.Rel R a.2 b.2)
            (step input s) (step input t))
    {s t : σ}
    (h : R s t)
    (inputs : List ι) :
    List.Forall₂ (SameOutcome V) (observe step inputs s)
      (observe step inputs t) := by
  induction inputs generalizing s t with
  | nil => exact .nil
  | cons input inputs ih =>
      have hOne := hStep input s t h
      unfold observe
      revert hOne
      generalize step input s = x
      generalize step input t = y
      intro hOne
      cases hOne with
      | error e => exact .cons (.error e) .nil
      | @ok a b hRel =>
          rcases a with ⟨seen, next⟩
          rcases b with ⟨seen', next'⟩
          rcases hRel with ⟨hSeen, hNext⟩
          cases hNext with
          | none => exact .cons (.ok hSeen) .nil
          | some hGo => exact .cons (.ok hSeen) (ih hGo)

end TwoRuns
