import Mathlib.Data.List.Basic
import Mathlib.Data.List.TakeDrop

/-!
# Bounds-checked blocks of cells

A block is a list of cells with its size in the type. `load` and `store` are the two
directions of a `memcpy`; both are `none` as soon as the range leaves the block, so that a
program over blocks that never returns `none` made every access inside its allocations.
`realloc` keeps the cells that fit and leaves the size of the new block in the type.
-/

namespace Lib

/-- The cells `[off, off + len)` of a list, if they are all there. -/
def load {α : Type} (m : List α) (off len : Nat) : Option (List α) :=
  if off + len ≤ m.length then some ((m.drop off).take len) else none

section Load

variable {α : Type} {m xs : List α} {off len : Nat}

theorem load_eq_some (fits : off + len ≤ m.length) :
    load m off len = some ((m.drop off).take len) := if_pos fits

theorem load_eq_none (beyond : m.length < off + len) : load m off len = none :=
  if_neg (by omega)

/-- A load from the start of a list is its prefix. -/
theorem load_zero (fits : len ≤ m.length) : load m 0 len = some (m.take len) := by
  simpa using load_eq_some (by omega : 0 + len ≤ m.length)

end Load

/-- A block of exactly `n` cells. -/
structure Block (α : Type) (n : Nat) where
  cells : List α
  size : cells.length = n
  deriving DecidableEq

namespace Block

variable {α : Type} {n : Nat}

attribute [simp] Block.size

/-- The block without cells: the null pointer of an empty buffer. -/
def empty : Block α 0 := ⟨[], rfl⟩

/-- Copy `len` cells out of the block. -/
def load (b : Block α n) (off len : Nat) : Option (List α) := Lib.load b.cells off len

/-- Copy `xs` into the block at `off`. -/
def store (b : Block α n) (off : Nat) (xs : List α) : Option (Block α n) :=
  if fits : off + xs.length ≤ n then
    some ⟨b.cells.take off ++ xs ++ b.cells.drop (off + xs.length), by simp; omega⟩
  else none

/-- Move `len` cells from `src` to `dst`; the ranges may overlap. -/
def move (b : Block α n) (dst src len : Nat) : Option (Block α n) :=
  (b.load src len).bind (b.store dst)

/-- A block of `k` cells that starts with the cells of `b`; `fill` stands for the cells a
larger block gains. -/
def realloc (b : Block α n) (fill : α) (k : Nat) : Block α k :=
  ⟨b.cells.take k ++ List.replicate (k - n) fill, by simp; omega⟩

@[ext] theorem ext {a b : Block α n} (h : a.cells = b.cells) : a = b := by
  cases a; cases b; cases h; rfl

theorem load_eq_some (b : Block α n) {off len : Nat} (fits : off + len ≤ n) :
    b.load off len = some ((b.cells.drop off).take len) :=
  Lib.load_eq_some (by rw [b.size]; exact fits)

theorem store_eq_some (b : Block α n) {off : Nat} {xs : List α} (fits : off + xs.length ≤ n) :
    ∃ b', b.store off xs = some b' ∧
      b'.cells = b.cells.take off ++ xs ++ b.cells.drop (off + xs.length) := by
  refine ⟨_, dif_pos fits, rfl⟩

/-- What a store that succeeds has done. -/
theorem of_store {b b' : Block α n} {off : Nat} {xs : List α} (h : b.store off xs = some b') :
    off + xs.length ≤ n ∧ b'.cells = b.cells.take off ++ xs ++ b.cells.drop (off + xs.length) := by
  unfold store at h
  split at h
  · rename_i fits
    cases h
    exact ⟨fits, rfl⟩
  · cases h

/-- A store over as many cells in the middle of a block. -/
theorem store_middle {b : Block α n} {off : Nat} {pre old post xs : List α} (cells : b.cells = pre ++ old ++ post)
    (start : off = pre.length) (same : xs.length = old.length) :
    ∃ b', b.store off xs = some b' ∧ b'.cells = pre ++ xs ++ post := by
  have size := b.size
  rw [cells, List.length_append, List.length_append] at size
  obtain ⟨b', stored, is⟩ := b.store_eq_some (by omega : off + xs.length ≤ n)
  refine ⟨b', stored, ?_⟩
  rw [is, cells, List.append_assoc pre old, start, List.take_left, same, ← List.drop_drop, List.drop_left, List.drop_left]

/-- A store changes nothing below its range. -/
theorem store_take {b b' : Block α n} {off k : Nat} {xs : List α} (h : b.store off xs = some b')
    (below : k ≤ off) : b'.cells.take k = b.cells.take k := by
  obtain ⟨fits, cells⟩ := of_store h
  rw [cells, List.append_assoc, List.take_append_of_le_length (by simp; omega), List.take_take,
    Nat.min_eq_left below]

/-- A store puts its cells right after the ones below its range. -/
theorem store_take_end {b b' : Block α n} {off : Nat} {xs : List α} (h : b.store off xs = some b') :
    b'.cells.take (off + xs.length) = b.cells.take off ++ xs := by
  obtain ⟨fits, cells⟩ := of_store h
  rw [cells]
  exact List.take_left' (by simp; omega)

/-- A store changes nothing above its range. -/
theorem store_drop {b b' : Block α n} {off k : Nat} {xs : List α} (h : b.store off xs = some b')
    (above : off + xs.length ≤ k) : b'.cells.drop k = b.cells.drop k := by
  obtain ⟨fits, cells⟩ := of_store h
  have front : (b.cells.take off ++ xs).length = off + xs.length := by simp; omega
  rw [cells, List.drop_append, List.drop_eq_nil_of_le (by omega), List.nil_append, List.drop_drop,
    front]
  congr 1; omega

/-- The cells a `realloc` keeps. -/
theorem realloc_take (b : Block α n) (fill : α) {k m : Nat} (old : m ≤ n) (new : m ≤ k) :
    (b.realloc fill k).cells.take m = b.cells.take m := by
  unfold realloc
  rw [List.take_append_of_le_length (by simp; omega), List.take_take, Nat.min_eq_left new]

end Block

end Lib
