import Mathlib.Tactic.Common

/-!
# Runs

A run from a state: the inputs of its steps in order, and the state they lead
to.  Every step meets a condition on the state before it and on its input.
What holds at the start and is kept by every such step holds after the run
(`Run.induct`), so it holds in every state on the way, which ends a run itself.
-/

namespace Runs

variable {σ ι : Type}

inductive Run (step : σ → ι → σ) (meets : σ → ι → Prop) (start : σ) :
    List ι → σ → Prop
  | start : Run step meets start [] start
  | next {inputs : List ι} {state : σ} (input : ι)
      (before : Run step meets start inputs state) (met : meets state input) :
      Run step meets start (inputs ++ [input]) (step state input)

variable {step : σ → ι → σ} {meets : σ → ι → Prop} {start : σ}

/-- What every step keeps holds after every run. -/
theorem Run.induct {kept : List ι → σ → Prop} (first : kept [] start)
    (later : ∀ inputs state input, kept inputs state → meets state input →
      kept (inputs ++ [input]) (step state input))
    {inputs : List ι} {state : σ} (run : Run step meets start inputs state) :
    kept inputs state := by
  induction run with
  | start => exact first
  | next input _ met inductionHypothesis =>
      exact later _ _ input inductionHypothesis met

/-! ## Checking a run -/

/-- All steps meet the condition when the inputs are taken in order. -/
def AllMeet (step : σ → ι → σ) (meets : σ → ι → Prop) : σ → List ι → Prop
  | _, [] => True
  | state, input :: inputs =>
      meets state input ∧ AllMeet step meets (step state input) inputs

instance decidableAllMeet (step : σ → ι → σ) (meets : σ → ι → Prop)
    [∀ state input, Decidable (meets state input)] :
    ∀ (state : σ) (inputs : List ι), Decidable (AllMeet step meets state inputs)
  | _, [] => isTrue trivial
  | state, input :: inputs =>
      let _ := decidableAllMeet step meets (step state input) inputs
      inferInstanceAs (Decidable (_ ∧ _))

/-- Inputs whose steps all meet the condition prolong a run. -/
theorem Run.prolong {inputs : List ι} {state : σ}
    (run : Run step meets start inputs state) : ∀ {more : List ι},
      AllMeet step meets state more →
        Run step meets start (inputs ++ more) (more.foldl step state) := by
  intro more allMeet
  induction more generalizing inputs state with
  | nil =>
      rw [List.append_nil]
      exact run
  | cons input more inductionHypothesis =>
      have whole := inductionHypothesis (run.next input allMeet.1) allMeet.2
      rw [List.append_assoc] at whole
      exact whole

theorem allMeet_of_forall (always : ∀ state input, meets state input) :
    ∀ (start : σ) (inputs : List ι), AllMeet step meets start inputs := by
  intro start inputs
  induction inputs generalizing start with
  | nil => trivial
  | cons input inputs inductionHypothesis =>
      exact ⟨always start input, inductionHypothesis _⟩

theorem run_of_allMeet {inputs : List ι}
    (allMeet : AllMeet step meets start inputs) :
    Run step meets start inputs (inputs.foldl step start) :=
  Run.start.prolong allMeet

end Runs
