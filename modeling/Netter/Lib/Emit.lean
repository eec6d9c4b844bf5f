import Mathlib.Data.List.Basic

/-!
# Machines that emit

A machine takes one input after the other and emits outputs on the way. `emit` collects them: what
comes out of a longer input is what comes out of its front and then of the rest.
-/

namespace Lib

section Emit

variable {σ ι ο : Type} {step : σ → ι → σ × List ο} {s : σ} {i : ι} {is js : List ι}

/-- The state after some inputs, and what has been emitted. -/
def emit (step : σ → ι → σ × List ο) (s : σ) : List ι → σ × List ο
  | [] => (s, [])
  | i :: is =>
    let (t, out) := step s i
    let (u, more) := emit step t is
    (u, out ++ more)

theorem emit_nil : emit step s [] = (s, []) := rfl

theorem emit_cons : emit step s (i :: is) =
    ((emit step (step s i).1 is).1, (step s i).2 ++ (emit step (step s i).1 is).2) := rfl

theorem emit_append : emit step s (is ++ js) =
    ((emit step (emit step s is).1 js).1, (emit step s is).2 ++ (emit step (emit step s is).1 js).2) := by
  induction is generalizing s with
  | nil => rfl
  | cons i is ih =>
    rw [List.cons_append, emit_cons, emit_cons, ih]
    simp only [List.append_assoc]

/-- A machine that does nothing any more. -/
theorem emit_of_still (still : ∀ i, step s i = (s, [])) (is : List ι) : emit step s is = (s, []) := by
  induction is with
  | nil => rfl
  | cons i is ih =>
    rw [emit_cons, still i]
    simp only [ih, List.nil_append]

/-- The invariant rule, with what holds of each output. -/
theorem emit_inv {I : σ → Prop} {O : ο → Prop} (keep : ∀ s i, I s → I (step s i).1 ∧ ∀ o ∈ (step s i).2, O o)
    (start : I s) (is : List ι) : I (emit step s is).1 ∧ ∀ o ∈ (emit step s is).2, O o := by
  induction is generalizing s with
  | nil => exact ⟨start, nofun⟩
  | cons i is ih =>
    obtain ⟨next, first⟩ := keep s i start
    obtain ⟨last, rest⟩ := ih next
    rw [emit_cons]
    refine ⟨last, fun o member => ?_⟩
    rcases List.mem_append.mp member with now | later
    · exact first o now
    · exact rest o later

/-- The invariant rule, with all inputs and outputs so far. -/
theorem emit_inv_along {I : σ → List ι → List ο → Prop}
    (keep : ∀ s is out i, I s is out → I (step s i).1 (is ++ [i]) (out ++ (step s i).2)) (start : I s [] [])
    (is : List ι) : I (emit step s is).1 is (emit step s is).2 := by
  have all (s : σ) (before : List ι) (out : List ο) (start : I s before out) :
      I (emit step s is).1 (before ++ is) (out ++ (emit step s is).2) := by
    induction is generalizing s before out with
    | nil =>
      rw [emit_nil, List.append_nil, List.append_nil]
      exact start
    | cons i is ih =>
      have next := ih (step s i).1 (before ++ [i]) (out ++ (step s i).2) (keep s before out i start)
      rw [List.append_assoc, List.append_assoc] at next
      exact next
  exact all s [] [] start

end Emit

end Lib
