import Mathlib.Data.List.Basic
import Mathlib.Data.List.Nodup

/-!
# What stands before what in a list

`Before a b l` says that `a` stands somewhere before `b` in `l`. Traces are compared through it: it
survives appending and filtering, and a prefix of a list without duplicates keeps it.
-/

namespace Lib

variable {α β : Type}

/-- `a` stands before `b`. -/
def Before (a b : α) (l : List α) : Prop := ∃ l₁ l₂, l = l₁ ++ l₂ ∧ a ∈ l₁ ∧ b ∈ l₂

theorem Before.left_mem {a b : α} {l : List α} (before : Before a b l) : a ∈ l := by
  obtain ⟨l₁, l₂, rfl, left, _⟩ := before
  exact List.mem_append_left l₂ left

/-- Elements appended later do not matter to one that is not among them. -/
theorem Before.of_append {a b : α} {l r : List α} (before : Before a b (l ++ r)) (old : b ∉ r) : Before a b l := by
  obtain ⟨l₁, l₂, eq, left, right⟩ := before
  rcases List.append_eq_append_iff.mp eq with ⟨k, rfl, rfl⟩ | ⟨k, rfl, rfl⟩
  · exact absurd (List.mem_append_right k right) old
  · rcases List.mem_append.mp right with inside | outside
    · exact ⟨l₁, k, rfl, left, inside⟩
    · exact absurd outside old

theorem Before.filterMap {f : α → Option β} {a b : α} {x y : β} {l : List α} (before : Before a b l)
    (left : f a = some x) (right : f b = some y) : Before x y (l.filterMap f) := by
  obtain ⟨l₁, l₂, rfl, inLeft, inRight⟩ := before
  exact ⟨l₁.filterMap f, l₂.filterMap f, List.filterMap_append, List.mem_filterMap.mpr ⟨a, inLeft, left⟩,
    List.mem_filterMap.mpr ⟨b, inRight, right⟩⟩

/-- What stands in order in the filtered list comes from elements in that order. -/
theorem Before.of_filterMap {f : α → Option β} {x y : β} {l : List α} (before : Before x y (l.filterMap f)) :
    ∃ a b, f a = some x ∧ f b = some y ∧ Before a b l := by
  obtain ⟨m₁, m₂, eq, inLeft, inRight⟩ := before
  obtain ⟨l₁, l₂, rfl, rfl, rfl⟩ := List.filterMap_eq_append_iff.mp eq
  obtain ⟨a, left, fa⟩ := List.mem_filterMap.mp inLeft
  obtain ⟨b, right, fb⟩ := List.mem_filterMap.mp inRight
  exact ⟨a, b, fa, fb, l₁, l₂, rfl, left, right⟩

theorem Before.filter {p : α → Bool} {a b : α} {l : List α} (before : Before a b l) (left : p a = true)
    (right : p b = true) : Before a b (l.filter p) := by
  obtain ⟨l₁, l₂, rfl, inLeft, inRight⟩ := before
  exact ⟨l₁.filter p, l₂.filter p, List.filter_append l₁ l₂, List.mem_filter.mpr ⟨inLeft, left⟩,
    List.mem_filter.mpr ⟨inRight, right⟩⟩

theorem Before.of_filter {p : α → Bool} {a b : α} {l : List α} (before : Before a b (l.filter p)) : Before a b l := by
  obtain ⟨m₁, m₂, eq, inLeft, inRight⟩ := before
  obtain ⟨l₁, l₂, rfl, rfl, rfl⟩ := List.filter_eq_append_iff.mp eq
  exact ⟨l₁, l₂, rfl, List.mem_of_mem_filter inLeft, List.mem_of_mem_filter inRight⟩

/-- A prefix that has the second element has the first one, and in the same order. -/
theorem Before.of_prefix {a b : α} {l m : List α} (before : Before a b l) (nodup : l.Nodup) (start : m <+: l)
    (member : b ∈ m) : Before a b m := by
  obtain ⟨l₁, l₂, rfl, left, right⟩ := before
  obtain ⟨r, eq⟩ := start
  rcases List.append_eq_append_iff.mp eq with ⟨k, rfl, rfl⟩ | ⟨k, rfl, rfl⟩
  · exact absurd right (List.disjoint_of_nodup_append nodup (List.mem_append_left k member))
  · rcases List.mem_append.mp right with inside | outside
    · exact ⟨l₁, k, rfl, left, inside⟩
    · rw [← List.append_assoc] at nodup
      exact absurd outside (List.disjoint_of_nodup_append nodup member)

end Lib
