import Mathlib.Order.Lattice
import Mathlib.Data.List.GetD

/-!
# A periodic task that is polled

A task is due at `start + interval`, `start + 2 * interval` and so on. It is polled at some times in order, and
a poll runs it at most once, if it has not run as often as it has become due. So the polls that come too late are
made up one by one.
-/

namespace Lib.Periodic

variable {start interval reading : Nat} {readings polls : List Nat}

/-- How often the task has run after the polls: not more often than there were polls, and at each of them not more
often than it had become due. -/
def runs (start interval : Nat) (readings : List Nat) : Nat :=
  (readings.mapIdx fun j reading => (reading - start) / interval + readings.length - (j + 1)).foldl min readings.length

theorem foldl_min_succ (n : Nat) (ns : List Nat) : (ns.map (· + 1)).foldl min (n + 1) = ns.foldl min n + 1 := by
  induction ns generalizing n with
  | nil => rfl
  | cons m ns ih =>
    rw [List.map_cons, List.foldl_cons, List.foldl_cons, ← ih]
    congr 1
    omega

/-- One more poll. -/
theorem runs_snoc (start interval : Nat) (readings : List Nat) (reading : Nat) :
    runs start interval (readings ++ [reading]) = min (runs start interval readings + 1) ((reading - start) / interval) := by
  have shifted : (readings.mapIdx fun j reading => (reading - start) / interval + (readings.length + 1) - (j + 1)) =
      (readings.mapIdx fun j reading => (reading - start) / interval + readings.length - (j + 1)).map (· + 1) := by
    apply List.ext_getElem
    · simp
    · intro j hj _
      have bound : j < readings.length := by simpa using hj
      simp only [List.getElem_mapIdx, List.getElem_map]
      generalize (readings[j] - start) / interval = due
      omega
  rw [runs, runs, List.length_append, List.length_singleton, List.mapIdx_concat, List.foldl_append, shifted, foldl_min_succ,
    List.foldl_cons, List.foldl_nil, Nat.add_sub_cancel]

/-- The task runs as often as it has become due at the most. -/
theorem runs_le (sorted : ∀ r ∈ readings, r ≤ reading) : runs start interval readings ≤ (reading - start) / interval := by
  rcases List.eq_nil_or_concat readings with rfl | ⟨earlier, last, rfl⟩
  · exact Nat.zero_le _
  · rw [List.concat_eq_append] at sorted ⊢
    have later : last ≤ reading := sorted last (by simp)
    have mono : (last - start) / interval ≤ (reading - start) / interval := by
      apply Nat.div_le_div_right
      omega
    rw [runs_snoc]
    exact Nat.le_trans (Nat.min_le_right _ _) mono

theorem runs_le_snoc (sorted : ∀ r ∈ readings, r ≤ reading) :
    runs start interval readings ≤ runs start interval (readings ++ [reading]) := by
  rw [runs_snoc]
  exact Nat.le_min.mpr ⟨Nat.le_succ _, runs_le sorted⟩

/-- The polls that ran the task, counted from zero: as many as the formula says, none of them twice and none too
early, and each poll runs it that finds it behind. -/
structure OnSchedule (start interval : Nat) (readings polls : List Nat) : Prop where
  count : polls.length = runs start interval readings
  increasing : polls.Pairwise (· < ·)
  inside : ∀ p ∈ polls, p < readings.length
  onTime : ∀ k p, polls[k]? = some p → start + (k + 1) * interval ≤ readings.getD p 0
  madeUp : ∀ p < readings.length, p ∈ polls ↔ runs start interval (readings.take p) < (readings.getD p 0 - start) / interval

theorem OnSchedule.nil : OnSchedule start interval [] [] := by
  refine ⟨rfl, List.Pairwise.nil, ?_, ?_, ?_⟩
  · simp
  · simp
  · simp

/-- A poll that finds the task due runs it. -/
theorem OnSchedule.fire (on : OnSchedule start interval readings polls) (pos : 0 < interval)
    (due : start + (polls.length + 1) * interval ≤ reading) :
    OnSchedule start interval (readings ++ [reading]) (polls ++ [readings.length]) := by
  have behind : polls.length + 1 ≤ (reading - start) / interval := by
    rw [Nat.le_div_iff_mul_le pos]
    omega
  constructor
  · rw [runs_snoc, List.length_append, List.length_singleton, ← on.count]
    omega
  · rw [List.pairwise_append]
    refine ⟨on.increasing, List.pairwise_singleton _ _, fun p member q last => ?_⟩
    rw [List.mem_singleton.mp last]
    exact on.inside p member
  · intro p member
    rw [List.length_append, List.length_singleton]
    rcases List.mem_append.mp member with old | new
    · exact Nat.lt_succ_of_lt (on.inside p old)
    · rw [List.mem_singleton.mp new]
      exact Nat.lt_succ_self _
  · intro k p at_k
    rcases Nat.lt_trichotomy k polls.length with old | new | above
    · rw [List.getElem?_append_left old] at at_k
      have bound := on.inside p (List.mem_of_getElem? at_k)
      rw [List.getD_append _ _ _ _ bound]
      exact on.onTime k p at_k
    · subst new
      simp only [List.getElem?_concat_length, Option.some.injEq] at at_k
      subst at_k
      simpa [List.getD_append_right] using due
    · have short : (polls ++ [readings.length]).length ≤ k := by
        rw [List.length_append, List.length_singleton]
        omega
      rw [List.getElem?_eq_none short] at at_k
      cases at_k
  · intro p bound
    rw [List.length_append, List.length_singleton] at bound
    rw [List.mem_append, List.mem_singleton]
    rcases Nat.lt_or_eq_of_le (Nat.lt_succ_iff.mp bound) with old | rfl
    · rw [List.take_append_of_le_length (Nat.le_of_lt old), List.getD_append _ _ _ _ old, ← on.madeUp p old]
      simp [Nat.ne_of_lt old]
    · rw [List.take_left, ← on.count]
      simpa [List.getD_append_right] using Nat.lt_of_succ_le behind

/-- A poll that does not find the task due leaves it. -/
theorem OnSchedule.wait (on : OnSchedule start interval readings polls) (pos : 0 < interval)
    (sorted : ∀ r ∈ readings, r ≤ reading) (early : reading < start + (polls.length + 1) * interval) :
    OnSchedule start interval (readings ++ [reading]) polls := by
  have upToDate : (reading - start) / interval < polls.length + 1 := by
    rw [Nat.div_lt_iff_lt_mul pos]
    have positive : 0 < (polls.length + 1) * interval := Nat.mul_pos (Nat.succ_pos _) pos
    omega
  have same : (reading - start) / interval = runs start interval readings := by
    apply Nat.le_antisymm
    · rw [← on.count]
      exact Nat.le_of_lt_succ upToDate
    · exact runs_le sorted
  constructor
  · rw [runs_snoc, same, Nat.min_eq_right (Nat.le_succ _)]
    exact on.count
  · exact on.increasing
  · intro p member
    rw [List.length_append]
    exact Nat.lt_add_right _ (on.inside p member)
  · intro k p at_k
    have bound := on.inside p (List.mem_of_getElem? at_k)
    rw [List.getD_append _ _ _ _ bound]
    exact on.onTime k p at_k
  · intro p bound
    rw [List.length_append, List.length_singleton] at bound
    rcases Nat.lt_or_eq_of_le (Nat.lt_succ_iff.mp bound) with old | rfl
    · rw [List.take_append_of_le_length (Nat.le_of_lt old), List.getD_append _ _ _ _ old]
      exact on.madeUp p old
    · have absent : readings.length ∉ polls := fun member => Nat.lt_irrefl _ (on.inside _ member)
      rw [List.take_left]
      simp [absent, same]

end Lib.Periodic
