import Netter.Lib.Run

/-!
# Endless runs

An endless run takes a step at each time. What is to happen in it happens if a measure keeps decreasing until it has;
that it decreases comes from fairness: a step that stays possible is taken.
-/

namespace Lib

/-- Now or later. -/
def Later (P : Nat → Prop) (n : Nat) : Prop := ∃ m, n ≤ m ∧ P m

/-- A step is taken again and again, unless it is again and again impossible. -/
def WeakFair (possible taken : Nat → Prop) : Prop := ∀ n, Later (fun m => possible m → taken m) n

/-- Who is let through again and again goes through sometime. -/
def StrongFair (possible taken : Nat → Prop) : Prop :=
  (∀ n, Later possible n) → ∀ n, Later (fun m => possible m ∧ taken m) n

theorem Later.mono {P Q : Nat → Prop} {n : Nat} (later : Later P n) (weaker : ∀ m, n ≤ m → P m → Q m) : Later Q n := by
  obtain ⟨m, least, holds⟩ := later
  exact ⟨m, least, weaker m least holds⟩

theorem Later.trans {P Q : Nat → Prop} {n : Nat} (later : Later P n) (next : ∀ m, n ≤ m → P m → Later Q m) :
    Later Q n := by
  obtain ⟨m, least, holds⟩ := later
  obtain ⟨k, least', holds'⟩ := next m least holds
  exact ⟨k, Nat.le_trans least least', holds'⟩

/-- What stays until something happens: if it cannot stay for ever, that happens. -/
theorem later_until {P Q : Nat → Prop} {n : Nat} (start : P n) (keep : ∀ m, n ≤ m → P m → Q m ∨ P (m + 1) ∨ Q (m + 1))
    (ends : Later (fun m => P m → Q m) n) : Later Q n := by
  obtain ⟨m, least, last⟩ := ends
  have reached : ∀ k, n + k ≤ m → P (n + k) ∨ Later Q n := by
    intro k
    induction k with
    | zero => exact fun _ => .inl start
    | succ k ih =>
      intro inside
      rcases ih (by omega) with still | done
      · rcases keep (n + k) (Nat.le_add_right n k) still with now | still | next
        · exact .inr ⟨n + k, Nat.le_add_right n k, now⟩
        · exact .inl still
        · exact .inr ⟨n + (k + 1), Nat.le_add_right n _, next⟩
      · exact .inr done
  rcases reached (m - n) (by omega) with still | done
  · rw [Nat.add_sub_cancel' least] at still
    exact ⟨m, least, last still⟩
  · exact done

/-- What stays until something happens, and lets it be possible again and again: under strong fairness it happens. -/
theorem StrongFair.later {possible taken P Q : Nat → Prop} {n : Nat} (fair : StrongFair possible taken) (start : P n)
    (keep : ∀ m, n ≤ m → P m → Q m ∨ P (m + 1) ∨ Q (m + 1)) (again : ∀ m, n ≤ m → P m → Later (fun k => P k → possible k) m)
    (takes : ∀ m, n ≤ m → P m → possible m → taken m → Later Q m) : Later Q n := by
  by_contra never
  have not_yet (m : Nat) (least : n ≤ m) : ¬ Q m := fun now => never ⟨m, least, now⟩
  have stays (k : Nat) : P (n + k) := by
    induction k with
    | zero => exact start
    | succ k ih =>
      rcases keep (n + k) (Nat.le_add_right n k) ih with now | still | next
      · exact absurd now (not_yet _ (Nat.le_add_right n k))
      · exact still
      · exact absurd next (not_yet _ (Nat.le_add_right n (k + 1)))
  have stays {m : Nat} (least : n ≤ m) : P m := Nat.add_sub_cancel' least ▸ stays (m - n)
  have often (m : Nat) : Later possible m := by
    obtain ⟨k, least, there⟩ := again (max n m) (Nat.le_max_left n m) (stays (Nat.le_max_left n m))
    exact ⟨k, by omega, there (stays (by omega))⟩
  obtain ⟨m, least, there, now⟩ := fair often n
  obtain ⟨k, after, done⟩ := takes m least (stays least) there now
  exact not_yet k (Nat.le_trans least after) done

/-- As long as it has not happened, it happens or a measure decreases: then it happens. -/
theorem later_of_decreasing {P : Nat → Prop} {start : Nat} (measure : Nat → Nat)
    (progress : ∀ n, start ≤ n → ¬ P n → Later (fun m => P m ∨ measure m < measure n) n) : Later P start := by
  have all (bound : Nat) : ∀ n, start ≤ n → measure n < bound → Later P n := by
    induction bound with
    | zero => exact fun n _ less => absurd less (Nat.not_lt_zero _)
    | succ bound ih =>
      intro n least less
      by_cases done : P n
      · exact ⟨n, Nat.le_refl n, done⟩
      · refine (progress n least done).trans fun m later next => ?_
        rcases next with happened | decreased
        · exact ⟨m, Nat.le_refl m, happened⟩
        · exact ih m (Nat.le_trans least later) (by omega)
  exact all _ start (Nat.le_refl _) (Nat.lt_succ_self _)

section States

variable {σ ι : Type} {exec : σ → ι → σ} {start : σ} {steps : Nat → ι}

/-- The states of an endless run of a system all of whose steps can be taken. -/
def stateAt (exec : σ → ι → σ) (start : σ) (steps : Nat → ι) : Nat → σ
  | 0 => start
  | n + 1 => exec (stateAt exec start steps n) (steps n)

theorem stateAt_inv {I : σ → Prop} (keep : ∀ s i, I s → I (exec s i)) (first : I start) :
    ∀ n, I (stateAt exec start steps n)
  | 0 => first
  | n + 1 => keep _ _ (stateAt_inv keep first n)

end States

section Trace

variable {σ ι : Type} {step : σ → ι → Option σ} {steps : Nat → ι} {trace : Nat → σ}

/-- The states of an endless run. -/
def Trace (step : σ → ι → Option σ) (steps : Nat → ι) (trace : Nat → σ) : Prop :=
  ∀ n, step (trace n) (steps n) = some (trace (n + 1))

end Trace

end Lib
