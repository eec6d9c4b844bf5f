import Mathlib.Data.List.TakeDrop
import Mathlib.Logic.Function.Iterate

/-!
# Drawing values from a counter, skipping those in use

A counter moves on with every try; what is read from it is taken unless it is in use. `seek` is the
loop of one draw, `draw` a number of draws in a row. `hits` lists the values that the next tries
would take: `draw_of_hits` says that draws return the first of them, and that the loop ends.
-/

namespace Lib.Skip

variable {κ α : Type} (next : κ → κ) (read : κ → α) (free : α → Bool)

/-- One draw: the value and the counter afterwards. -/
def seek : Nat → κ → Option (α × κ)
  | 0, _ => none
  | fuel + 1, c => if free (read c) then some (read c, next c) else seek fuel (next c)

/-- `n` draws in a row. -/
def draw (fuel : Nat) : Nat → κ → Option (List α × κ)
  | 0, c => some ([], c)
  | n + 1, c => do
    let (x, c) ← seek next read free fuel c
    let (xs, c) ← draw fuel n c
    some (x :: xs, c)

/-- The values that the next `k` tries find free. -/
def hits : Nat → κ → List α
  | 0, _ => []
  | k + 1, c => if free (read c) then read c :: hits k (next c) else hits k (next c)

variable {next read free}

theorem seek_mono {fuel : Nat} {c : κ} {r : α × κ} (found : seek next read free fuel c = some r) :
    seek next read free (fuel + 1) c = some r := by
  induction fuel generalizing c with
  | zero => cases found
  | succ fuel ih =>
    rw [seek] at found ⊢
    split
    · rename_i taken
      rw [if_pos taken] at found
      exact found
    · rename_i skipped
      rw [if_neg skipped] at found
      exact ih found

theorem draw_mono {fuel n : Nat} {c : κ} {r : List α × κ} (drawn : draw next read free fuel n c = some r) :
    draw next read free (fuel + 1) n c = some r := by
  induction n generalizing c r with
  | zero => exact drawn
  | succ n ih =>
    simp only [draw, Option.bind_eq_bind, Option.bind_eq_some_iff] at drawn ⊢
    obtain ⟨first, found, rest, drawn, last⟩ := drawn
    exact ⟨first, seek_mono found, rest, ih drawn, last⟩

/-- The draws return the first hits. -/
theorem draw_of_hits {k fuel n : Nat} {c : κ} (enough : k ≤ fuel)
    (many : n ≤ (hits next read free k c).length) :
    ∃ c', draw next read free fuel n c = some ((hits next read free k c).take n, c') := by
  induction k generalizing fuel n c with
  | zero =>
    have none : n = 0 := Nat.le_zero.mp many
    subst none
    exact ⟨c, rfl⟩
  | succ k ih =>
    obtain _ | n := n
    · exact ⟨c, by simp [draw]⟩
    obtain _ | fuel := fuel
    · omega
    by_cases taken : free (read c) = true
    · rw [hits, if_pos taken] at many ⊢
      obtain ⟨c', drawn⟩ := @ih (fuel + 1) n (next c) (by omega) (by simpa using many)
      exact ⟨c', by simp [draw, seek, taken, drawn]⟩
    · rw [hits, if_neg taken] at many ⊢
      obtain ⟨c', drawn⟩ := @ih fuel (n + 1) (next c) (by omega) many
      refine ⟨c', ?_⟩
      simp only [draw, Option.bind_eq_bind, Option.bind_eq_some_iff] at drawn ⊢
      obtain ⟨first, found, rest, drawn, last⟩ := drawn
      exact ⟨first, by rw [seek, if_neg taken]; exact found, rest, draw_mono drawn, last⟩

theorem hits_add (a b : Nat) (c : κ) :
    hits next read free (a + b) c = hits next read free a c ++ hits next read free b (next^[a] c) := by
  induction a generalizing c with
  | zero => simp [hits]
  | succ a ih =>
    rw [Nat.succ_add, hits, hits, ih, Function.iterate_succ_apply]
    split <;> rfl

/-- The hits as a filtered list of readings. -/
theorem hits_eq (k : Nat) (c : κ) :
    hits next read free k c = ((List.range k).map fun i => read (next^[i] c)).filter free := by
  induction k generalizing c with
  | zero => rfl
  | succ k ih =>
    rw [hits, ih, List.range_succ_eq_map, List.map_cons, List.map_map, List.filter_cons]
    simp only [Function.comp_def, Function.iterate_succ_apply, Function.iterate_zero_apply]
    rfl

theorem mem_hits {k : Nat} {c : κ} {x : α} :
    x ∈ hits next read free k c ↔ (∃ i < k, read (next^[i] c) = x) ∧ free x = true := by
  simp [hits_eq]

end Lib.Skip
