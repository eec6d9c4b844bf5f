import Mathlib.Data.List.Basic

/-!
# Runs of a transition system

A system takes one step for each label, and a run is the fold of its steps over a list of labels. A
step that cannot be taken leaves the state as it is. Besides the invariant rule there are rules for
runs whose steps meet a condition, where the condition may speak about the state before the step.
-/

namespace Lib

section Run

variable {σ ι : Type} {step : σ → ι → σ} {s t : σ} {i : ι} {is js : List ι}

/-- The state after a list of steps. -/
def run (step : σ → ι → σ) (s : σ) (is : List ι) : σ := is.foldl step s

theorem run_cons : run step s (i :: is) = run step (step s i) is := rfl

theorem run_append : run step s (is ++ js) = run step (run step s is) js := List.foldl_append

/-- The invariant rule. -/
theorem run_inv {I : σ → Prop} (keep : ∀ s i, I s → I (step s i)) (start : I s) (is : List ι) :
    I (run step s is) := by
  induction is generalizing s with
  | nil => exact start
  | cons i is ih =>
    apply ih
    apply keep
    exact start

/-- Every step meets the condition in the state it starts from. -/
def Along (step : σ → ι → σ) (C : σ → ι → Prop) : σ → List ι → Prop
  | _, [] => True
  | s, i :: is => C s i ∧ Along step C (step s i) is

instance decidableAlong (step : σ → ι → σ) (C : σ → ι → Prop) [∀ s i, Decidable (C s i)] :
    (s : σ) → (is : List ι) → Decidable (Along step C s is)
  | _, [] => .isTrue trivial
  | s, i :: is =>
    have := decidableAlong step C (step s i) is
    inferInstanceAs (Decidable (C s i ∧ Along step C (step s i) is))

/-- The invariant rule for steps that meet a condition. -/
theorem run_inv_along {I : σ → Prop} {C : σ → ι → Prop} (keep : ∀ s i, I s → C s i → I (step s i))
    (start : I s) (along : Along step C s is) : I (run step s is) := by
  induction is generalizing s with
  | nil => exact start
  | cons i is ih =>
    obtain ⟨first, rest⟩ := along
    exact ih (keep s i start first) rest

/-- What has gone wrong stays wrong, and it goes wrong exactly in the steps that do not meet the
condition: then all is well at the end of a run if and only if every step meets the condition. -/
theorem run_iff_along {I P : σ → Prop} {C : σ → ι → Prop}
    (keep : ∀ s i, I s → P s → C s i → I (step s i) ∧ P (step s i))
    (miss : ∀ s i, I s → P s → ¬ C s i → ¬ P (step s i)) (stable : ∀ s i, ¬ P s → ¬ P (step s i))
    (start : I s) (good : P s) : P (run step s is) ↔ Along step C s is := by
  have worse (is : List ι) : ∀ s, ¬ P s → ¬ P (run step s is) := by
    induction is with
    | nil => exact fun _ bad => bad
    | cons i is ih => exact fun s bad => ih _ (stable s i bad)
  induction is generalizing s with
  | nil => exact ⟨fun _ => trivial, fun _ => good⟩
  | cons i is ih =>
    by_cases meets : C s i
    · obtain ⟨next, still⟩ := keep s i start good meets
      constructor
      · intro fine
        exact ⟨meets, (ih next still).mp fine⟩
      · intro along
        exact (ih next still).mpr along.2
    · constructor
      · intro fine
        exact absurd fine (worse is _ (miss s i start good meets))
      · intro along
        exact absurd along.1 meets

/-- Something holds in every state of a run if and only if every step meets the condition, when a step from
a state in which it holds keeps it exactly if it meets the condition. -/
theorem run_prefixes_iff {I P : σ → Prop} {C : σ → ι → Prop} (keep : ∀ s i, I s → I (step s i))
    (turn : ∀ s i, I s → P s → (P (step s i) ↔ C s i)) (start : I s) (good : P s) :
    (∀ js, js <+: is → P (run step s js)) ↔ Along step C s is := by
  induction is generalizing s with
  | nil =>
    constructor
    · exact fun _ => trivial
    · intro _ js isPrefix
      rw [List.prefix_nil.mp isPrefix]
      exact good
  | cons i is ih =>
    constructor
    · intro all
      have first : P (step s i) := all [i] (List.prefix_append [i] is)
      refine ⟨(turn s i start good).mp first, (ih (keep s i start) first).mp fun js isPrefix => ?_⟩
      exact all (i :: js) (List.prefix_cons_inj i |>.mpr isPrefix)
    · rintro ⟨meets, along⟩ js isPrefix
      have first := (turn s i start good).mpr meets
      rcases List.prefix_cons_iff.mp isPrefix with rfl | ⟨ks, rfl, rest⟩
      · exact good
      · exact (ih (keep s i start) first).mpr along ks rest

end Run

/-! ## Steps that may fail -/

section Partial

variable {σ ι : Type} {step : σ → ι → Option σ} {s t : σ} {i : ι} {is : List ι}

/-- The state after a list of steps, unless one of them fails. -/
def runPartial (step : σ → ι → Option σ) (s : σ) : List ι → Option σ
  | [] => some s
  | i :: is => (step s i).bind fun t => runPartial step t is

/-- Every step meets the condition in the state it starts from, as far as the run comes. -/
def AlongPartial (step : σ → ι → Option σ) (C : σ → ι → Prop) : σ → List ι → Prop
  | _, [] => True
  | s, i :: is => C s i ∧ ∀ t, step s i = some t → AlongPartial step C t is

/-- The invariant rule for steps that may fail. -/
theorem runPartial_inv {I : σ → Prop} (keep : ∀ s i t, I s → step s i = some t → I t) (start : I s)
    (ran : runPartial step s is = some t) : I t := by
  induction is generalizing s with
  | nil =>
    cases ran
    exact start
  | cons i is ih =>
    rw [runPartial, Option.bind_eq_some_iff] at ran
    obtain ⟨u, stepped, ran⟩ := ran
    exact ih (keep s i u start stepped) ran

/-- Steps that meet a condition do not fail, and they keep the invariant. -/
theorem runPartial_along {I : σ → Prop} {C : σ → ι → Prop}
    (keep : ∀ s i, I s → C s i → ∃ t, step s i = some t ∧ I t) (start : I s) (along : AlongPartial step C s is) :
    ∃ t, runPartial step s is = some t ∧ I t := by
  induction is generalizing s with
  | nil => exact ⟨s, rfl, start⟩
  | cons i is ih =>
    obtain ⟨first, rest⟩ := along
    obtain ⟨t, stepped, next⟩ := keep s i start first
    obtain ⟨u, ran, last⟩ := ih next (rest t stepped)
    refine ⟨u, ?_, last⟩
    rw [runPartial, stepped]
    exact ran

end Partial

end Lib
