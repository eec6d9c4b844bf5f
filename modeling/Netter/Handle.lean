import Mathlib.Data.Finset.Card
import Mathlib.Data.Finset.Range
import Netter.Lib.Skip
import Netter.Conn.Model

/-!
# Handles

The constructor of `BaseSocket` draws the handle of a socket from a global 32 bit counter, skipping
handles that are registered in the main loop. A negative counter value is replaced by 1, but the
counter goes on from the negative value: once it has passed `INT_MAX`, every socket gets the handle
1 until the counter is back at 0. `unique_iff` says exactly which draws still get distinct handles.
-/

namespace Netter

open Lib Skip

/-- The handle that comes of a counter value. -/
def handleOf (counter : NetHandle) : NetHandle := if counter < 0 then 1 else counter

/-- The `do … while (true)` loop of `BaseSocket::BaseSocket`: the handle and the counter after it. -/
def newHandle (registered : Finset NetHandle) : Nat → NetHandle → Option (NetHandle × NetHandle)
  | 0, _ => none
  | fuel + 1, allocator =>
    let handle := handleOf allocator
    if handle ∉ registered then some (handle, allocator + 1) else newHandle registered fuel (allocator + 1)

/-- The handles of `n` sockets created in a row. A draw tries every counter value once at most. -/
def newHandles (registered : Finset NetHandle) : Nat → NetHandle → Option (List NetHandle × NetHandle)
  | 0, allocator => some ([], allocator)
  | n + 1, allocator => do
    let (handle, allocator) ← newHandle registered (2 ^ 32) allocator
    let (handles, allocator) ← newHandles registered n allocator
    some (handle :: handles, allocator)

/-- What the tables rely on. -/
structure Unique (registered : Finset NetHandle) (handles : List NetHandle) : Prop where
  nonneg : ∀ handle ∈ handles, 0 ≤ handle
  distinct : handles.Nodup
  fresh : ∀ handle ∈ handles, handle ∉ registered

/-- How many of `counter`, …, `INT_MAX` are not registered. -/
def unregistered (registered : Finset NetHandle) (counter : NetHandle) : Nat :=
  ((List.range (2 ^ 31 - counter.toInt.toNat)).filter fun i => counter + Int32.ofNat i ∉ registered).length

/-- How many sockets get distinct handles, when 1 is not registered. -/
def room (registered : Finset NetHandle) (counter : NetHandle) : Nat :=
  if 0 ≤ counter then unregistered registered counter + 1
  else if counter = -1 ∧ 0 ∉ registered then 2
  else 1

/-! ## The counter -/

section Counter

variable (registered : Finset NetHandle)

abbrev isFree (handle : NetHandle) : Bool := handle ∉ registered

theorem newHandle_eq (fuel : Nat) (allocator : NetHandle) :
    newHandle registered fuel allocator = seek (· + 1) handleOf (isFree registered) fuel allocator := by
  induction fuel generalizing allocator with
  | zero => rfl
  | succ fuel ih => simp only [newHandle, seek, isFree, decide_eq_true_eq, ih]

theorem newHandles_eq (n : Nat) (allocator : NetHandle) :
    newHandles registered n allocator = draw (· + 1) handleOf (isFree registered) (2 ^ 32) n allocator := by
  induction n generalizing allocator with
  | zero => rfl
  | succ n ih => simp only [newHandles, draw, newHandle_eq, ih]

theorem iterate_succ_eq (i : Nat) (c : NetHandle) : (· + 1)^[i] c = c + Int32.ofNat i := by
  induction i generalizing c with
  | zero => simp
  | succ i ih =>
    rw [Function.iterate_succ_apply, ih, Int32.ofNat_add, Int32.add_assoc, Int32.add_comm 1]
    rfl

variable {registered}

theorem nonneg_iff {c : NetHandle} : 0 ≤ c ↔ 0 ≤ c.toInt := by
  rw [Int32.le_iff_toInt_le, Int32.toInt_zero]

theorem handleOf_of_nonneg {c : NetHandle} (nonneg : 0 ≤ c) : handleOf c = c := by
  unfold handleOf
  rw [if_neg]
  rw [Int32.lt_iff_toInt_lt, Int32.toInt_zero]
  rw [nonneg_iff] at nonneg
  omega

theorem handleOf_of_neg {c : NetHandle} (neg : ¬ 0 ≤ c) : handleOf c = 1 := by
  unfold handleOf
  rw [if_pos]
  rw [Int32.lt_iff_toInt_lt, Int32.toInt_zero]
  rw [nonneg_iff] at neg
  omega

theorem handleOf_nonneg (c : NetHandle) : 0 ≤ handleOf c := by
  by_cases nonneg : 0 ≤ c
  · rw [handleOf_of_nonneg nonneg]
    exact nonneg
  · rw [handleOf_of_neg nonneg]
    decide

/-- The value of an `int` after wrapping. -/
theorem bmod_eq (x : Int) : x.bmod (2 ^ 32) = (x + 2 ^ 31) % 2 ^ 32 - 2 ^ 31 := by
  rw [Int.bmod_def]
  split <;> omega

theorem toInt_ofNat_bmod (i : Nat) : (Int32.ofNat i).toInt = ((i : Int) + 2 ^ 31) % 2 ^ 32 - 2 ^ 31 := by
  rw [← bmod_eq]
  exact Int32.toInt_ofNat'

theorem toInt_add_bmod (a b : NetHandle) : (a + b).toInt = (a.toInt + b.toInt + 2 ^ 31) % 2 ^ 32 - 2 ^ 31 := by
  rw [← bmod_eq]
  exact Int32.toInt_add a b

/-- The counter does not wrap before `INT_MAX`. -/
theorem toInt_add_ofNat {c : NetHandle} {i : Nat} (nonneg : 0 ≤ c) (below : i < 2 ^ 31 - c.toInt.toNat) :
    (c + Int32.ofNat i).toInt = c.toInt + i := by
  rw [nonneg_iff] at nonneg
  rw [toInt_add_bmod, toInt_ofNat_bmod]
  omega

theorem ofNat_inj {i j : Nat} (hi : i < 2 ^ 32) (hj : j < 2 ^ 32) (same : Int32.ofNat i = Int32.ofNat j) :
    i = j := by
  have same := congrArg Int32.toInt same
  rw [toInt_ofNat_bmod, toInt_ofNat_bmod] at same
  omega

theorem add_ofNat_inj {c : NetHandle} {i j : Nat} (hi : i < 2 ^ 32) (hj : j < 2 ^ 32)
    (same : c + Int32.ofNat i = c + Int32.ofNat j) : i = j :=
  ofNat_inj hi hj (by simpa using same)

end Counter

/-! ## The handles of the next tries -/

section Tries

variable (registered : Finset NetHandle)

/-- The handles that the next `k` tries would give. -/
abbrev tries (k : Nat) (c : NetHandle) : List NetHandle := hits (· + 1) handleOf (isFree registered) k c

variable {registered}

theorem mem_tries {k : Nat} {c handle : NetHandle} :
    handle ∈ tries registered k c ↔ (∃ i < k, handleOf (c + Int32.ofNat i) = handle) ∧ handle ∉ registered := by
  simp only [tries, mem_hits, iterate_succ_eq, isFree, decide_eq_true_eq]

theorem tries_eq (k : Nat) (c : NetHandle) : tries registered k c =
    ((List.range k).filter fun i => handleOf (c + Int32.ofNat i) ∉ registered).map
      fun i => handleOf (c + Int32.ofNat i) := by
  simp only [tries, hits_eq, iterate_succ_eq, List.filter_map, isFree, Function.comp_def]

/-- Tries that read different handles give distinct ones. -/
theorem nodup_tries {k : Nat} {c : NetHandle}
    (inj : ∀ i < k, ∀ j < k, handleOf (c + Int32.ofNat i) ∉ registered →
      handleOf (c + Int32.ofNat i) = handleOf (c + Int32.ofNat j) → i = j) : (tries registered k c).Nodup := by
  rw [tries_eq]
  refine List.Nodup.map_on ?_ (List.nodup_range.filter _)
  intro i hi j hj same
  simp only [List.mem_filter, List.mem_range, decide_eq_true_eq] at hi hj
  exact inj i hi.1 j hj.1 hi.2 same

/-- Every non-negative handle comes up within a turn of the counter. -/
theorem exists_try (c : NetHandle) {v : Nat} (small : v < 2 ^ 31) :
    ∃ i < 2 ^ 32, handleOf (c + Int32.ofNat i) = Int32.ofNat v := by
  have lower := c.le_toInt
  have upper := c.toInt_lt
  refine ⟨(((v : Int) - c.toInt) % 2 ^ 32).toNat, by omega, ?_⟩
  have back : c + Int32.ofNat (((v : Int) - c.toInt) % 2 ^ 32).toNat = Int32.ofNat v := by
    rw [← Int32.toInt_inj, toInt_add_bmod, toInt_ofNat_bmod, toInt_ofNat_bmod]
    omega
  rw [back, handleOf_of_nonneg]
  rw [nonneg_iff, toInt_ofNat_bmod]
  omega

/-- Registered handles take away at most as many of the next counter values as there are. -/
theorem card_unregistered (base : NetHandle) {k : Nat} (small : k ≤ 2 ^ 32) :
    k ≤ ((Finset.range k).filter fun i => base + Int32.ofNat i ∉ registered).card + registered.card := by
  have taken : ((Finset.range k).filter fun i => ¬ base + Int32.ofNat i ∉ registered).card ≤ registered.card := by
    refine Finset.card_le_card_of_injOn (fun i => base + Int32.ofNat i) ?_ ?_
    · intro i hi
      simpa using (Finset.mem_filter.mp hi).2
    · intro i hi j hj same
      have hi := Finset.mem_range.mp (Finset.mem_filter.mp hi).1
      have hj := Finset.mem_range.mp (Finset.mem_filter.mp hj).1
      exact add_ofNat_inj (by omega) (by omega) same
  have all := Finset.card_filter_add_card_filter_not (s := Finset.range k) (fun i => base + Int32.ofNat i ∉ registered)
  rw [Finset.card_range] at all
  omega

/-- A turn of the counter finds all handles that are not registered. -/
theorem length_tries (c : NetHandle) : 2 ^ 31 ≤ (tries registered (2 ^ 32) c).length + registered.card := by
  have many := @card_unregistered registered 0 _ (by decide : 2 ^ 31 ≤ 2 ^ 32)
  have image : (((Finset.range (2 ^ 31)).filter fun i => 0 + Int32.ofNat i ∉ registered).image Int32.ofNat) ⊆
      (tries registered (2 ^ 32) c).toFinset := by
    intro handle h
    obtain ⟨v, hv, rfl⟩ := Finset.mem_image.mp h
    obtain ⟨small, fresh⟩ := Finset.mem_filter.mp hv
    rw [Int32.zero_add] at fresh
    rw [List.mem_toFinset, mem_tries]
    exact ⟨exists_try c (Finset.mem_range.mp small), fresh⟩
  have card := Finset.card_le_card image
  rw [Finset.card_image_of_injOn] at card
  · have short := List.toFinset_card_le (tries registered (2 ^ 32) c)
    omega
  · intro i hi j hj same
    have hi := Finset.mem_range.mp (Finset.mem_filter.mp hi).1
    have hj := Finset.mem_range.mp (Finset.mem_filter.mp hj).1
    exact ofNat_inj (by omega) (by omega) same

theorem tries_add (a b : Nat) (c : NetHandle) :
    tries registered (a + b) c = tries registered a c ++ tries registered b (c + Int32.ofNat a) := by
  rw [tries, hits_add, iterate_succ_eq]

/-- The draws return the handles of the next tries. -/
theorem newHandles_run (c : NetHandle) {n : Nat} (bound : n + registered.card ≤ 2 ^ 31) :
    ∃ c', newHandles registered n c = some ((tries registered (2 ^ 32) c).take n, c') ∧
      ((tries registered (2 ^ 32) c).take n).length = n := by
  have many := @length_tries registered c
  have enough : n ≤ (tries registered (2 ^ 32) c).length := by omega
  obtain ⟨c', drawn⟩ := draw_of_hits (Nat.le_refl (2 ^ 32)) enough
  exact ⟨c', by rw [newHandles_eq]; exact drawn, by rw [List.length_take]; omega⟩

section Split

variable {n k : Nat} {c : NetHandle} (within : k ≤ 2 ^ 32)
include within

theorem split_tries : ∃ later, tries registered (2 ^ 32) c = tries registered k c ++ later := by
  refine ⟨tries registered (2 ^ 32 - k) (c + Int32.ofNat k), ?_⟩
  rw [← tries_add, Nat.add_sub_cancel' within]

/-- Distinct tries give distinct handles as long as they suffice. -/
theorem nodup_take (distinct : (tries registered k c).Nodup) (enough : n ≤ (tries registered k c).length) :
    ((tries registered (2 ^ 32) c).take n).Nodup := by
  obtain ⟨later, split⟩ := @split_tries registered _ c within
  rw [split, List.take_append_of_le_length enough]
  exact distinct.sublist (List.take_sublist _ _)

/-- A handle that comes up twice is drawn twice. -/
theorem not_nodup_take (repeated : ¬ (tries registered k c).Nodup)
    (many : (tries registered k c).length ≤ n) : ¬ ((tries registered (2 ^ 32) c).take n).Nodup := by
  obtain ⟨later, split⟩ := @split_tries registered _ c within
  intro distinct
  rw [split, List.take_append, List.take_of_length_le many] at distinct
  exact repeated (distinct.sublist (List.sublist_append_left _ _))

/-- The handles of `k` tries are distinct and those of `k'` tries, one handle more, are not. -/
theorem nodup_take_iff {k' : Nat} (within' : k' ≤ 2 ^ 32) (distinct : (tries registered k c).Nodup)
    (repeated : ¬ (tries registered k' c).Nodup)
    (more : (tries registered k' c).length = (tries registered k c).length + 1) :
    ((tries registered (2 ^ 32) c).take n).Nodup ↔ n ≤ (tries registered k c).length := by
  constructor
  · intro unique
    by_contra beyond
    exact not_nodup_take within' repeated (by omega) unique
  · exact nodup_take within distinct

end Split

/-! ## The three regions of the counter -/

/-- With 1 registered, negative counter values are skipped like used ones. -/
theorem nodup_of_one_registered (one : 1 ∈ registered) (c : NetHandle) : (tries registered (2 ^ 32) c).Nodup := by
  apply nodup_tries
  intro i hi j hj fresh same
  have nonneg : ∀ k, handleOf (c + Int32.ofNat k) ∉ registered → 0 ≤ c + Int32.ofNat k := by
    intro k fresh
    by_contra neg
    rw [handleOf_of_neg neg] at fresh
    exact fresh one
  have left := nonneg i fresh
  have right := nonneg j (by rw [← same]; exact fresh)
  rw [handleOf_of_nonneg left, handleOf_of_nonneg right] at same
  exact add_ofNat_inj hi hj same

theorem tries_one_of_neg {c : NetHandle} (neg : ¬ 0 ≤ c) (one : 1 ∉ registered) : tries registered 1 c = [1] := by
  simp [tries, hits, isFree, handleOf_of_neg neg, one]

theorem tries_one_of_nonneg {c : NetHandle} (nonneg : 0 ≤ c) :
    tries registered 1 c = if c ∉ registered then [c] else [] := by
  simp only [tries, hits, isFree, handleOf_of_nonneg nonneg, decide_eq_true_eq]

section Positive

variable {c : NetHandle} (nonneg : 0 ≤ c)
include nonneg

theorem add_ofNat_nonneg {i : Nat} (below : i < 2 ^ 31 - c.toInt.toNat) : 0 ≤ c + Int32.ofNat i := by
  rw [nonneg_iff, toInt_add_ofNat nonneg below]
  rw [nonneg_iff] at nonneg
  omega

/-- Up to `INT_MAX` the counter values are the handles. -/
theorem tries_upto : (tries registered (2 ^ 31 - c.toInt.toNat) c).Nodup ∧
    (tries registered (2 ^ 31 - c.toInt.toNat) c).length = unregistered registered c := by
  constructor
  · apply nodup_tries
    intro i hi j hj _ same
    rw [handleOf_of_nonneg (add_ofNat_nonneg nonneg hi), handleOf_of_nonneg (add_ofNat_nonneg nonneg hj)] at same
    exact add_ofNat_inj (by omega) (by omega) same
  · rw [tries_eq, List.length_map, unregistered]
    congr 1
    apply List.filter_congr
    intro i hi
    rw [handleOf_of_nonneg (add_ofNat_nonneg nonneg (List.mem_range.mp hi))]

/-- Past `INT_MAX` the counter is negative, and stays so. -/
theorem past_max {i : Nat} (few : i < 2 ^ 31) : ¬ 0 ≤ c + Int32.ofNat (2 ^ 31 - c.toInt.toNat) + Int32.ofNat i := by
  have upper := c.toInt_lt
  rw [nonneg_iff] at nonneg ⊢
  rw [toInt_add_bmod, toInt_add_bmod, toInt_ofNat_bmod, toInt_ofNat_bmod]
  omega

end Positive

/-- Two negative counter values in a row give the same handle. -/
theorem tries_two_of_neg {c : NetHandle} (neg : ¬ 0 ≤ c) (neg' : ¬ 0 ≤ c + Int32.ofNat 1) (one : 1 ∉ registered) :
    tries registered 2 c = [1, 1] := by
  rw [show 2 = 1 + 1 from rfl, tries_add, tries_one_of_neg neg one, tries_one_of_neg neg' one]
  rfl

/-- From a non-negative counter on: distinct up to `INT_MAX` and one handle further. -/
theorem distinct_iff_of_nonneg {n : Nat} {c : NetHandle} (bound : n + registered.card < 2 ^ 31 - 1)
    (nonneg : 0 ≤ c) (one : 1 ∉ registered) :
    ((tries registered (2 ^ 32) c).take n).Nodup ↔ n ≤ unregistered registered c + 1 := by
  have upper := c.toInt_lt
  have nonneg' := nonneg_iff.mp nonneg
  obtain ⟨distinct, length⟩ := @tries_upto registered c nonneg
  have past : ¬ 0 ≤ c + Int32.ofNat (2 ^ 31 - c.toInt.toNat) := by
    simpa using past_max nonneg (by decide : 0 < 2 ^ 31)
  have past' := past_max nonneg (by decide : 1 < 2 ^ 31)
  generalize left : 2 ^ 31 - c.toInt.toNat = d at distinct length past past'
  constructor
  · intro unique
    by_contra more
    have repeated : tries registered (d + 2) c = tries registered d c ++ [1, 1] := by
      rw [tries_add, tries_two_of_neg past past' one]
    have twice : ¬ (tries registered (d + 2) c).Nodup := by
      rw [repeated, List.nodup_append]
      simp
    have many : (tries registered (d + 2) c).length ≤ n := by
      rw [repeated, List.length_append, length]
      show _ + 2 ≤ n
      omega
    exact not_nodup_take (by omega) twice many unique
  · intro few
    by_cases within : n ≤ unregistered registered c
    · exact nodup_take (by omega) distinct (by rw [length]; exact within)
    · -- the handle after `INT_MAX` is 1, which has not come up if the counter started above it
      have above : 1 < c.toInt := by
        have many := @card_unregistered registered c (2 ^ 31 - c.toInt.toNat) (by omega)
        have same : unregistered registered c =
            ((Finset.range (2 ^ 31 - c.toInt.toNat)).filter fun i => c + Int32.ofNat i ∉ registered).card := rfl
        omega
      have next : tries registered (d + 1) c = tries registered d c ++ [1] := by
        rw [tries_add, tries_one_of_neg past one]
      have distinct' : (tries registered (d + 1) c).Nodup := by
        rw [next, List.nodup_append]
        refine ⟨distinct, List.nodup_singleton _, ?_⟩
        intro handle h last hlast same
        subst same
        rw [List.mem_singleton] at hlast
        obtain ⟨⟨i, hi, read⟩, -⟩ := mem_tries.mp h
        rw [handleOf_of_nonneg (add_ofNat_nonneg nonneg (by omega)), hlast] at read
        have value := congrArg Int32.toInt read
        rw [toInt_add_ofNat nonneg (by omega)] at value
        have unit : (1 : Int32).toInt = 1 := rfl
        omega
      exact nodup_take (by omega) distinct' (by rw [next, List.length_append, length]; exact few)

/-- From a negative counter on, with 1 free: the first handle is 1, and it comes up again at once, or
at the counter value 1 if the first was drawn at -1. -/
theorem distinct_iff_of_neg {n : Nat} {c : NetHandle} (neg : ¬ 0 ≤ c) (one : 1 ∉ registered) :
    ((tries registered (2 ^ 32) c).take n).Nodup ↔ n ≤ if c = -1 ∧ 0 ∉ registered then 2 else 1 := by
  have first := tries_one_of_neg neg one
  by_cases last : c = -1
  · subst last
    have third : tries registered 3 (-1) = [1] ++ (if 0 ∉ registered then [0] else []) ++ [1] := by
      rw [show 3 = 1 + 1 + 1 from rfl, tries_add, tries_add, first, show (-1 : NetHandle) + Int32.ofNat 1 = 0 from rfl,
        show (-1 : NetHandle) + Int32.ofNat (1 + 1) = 1 from rfl, tries_one_of_nonneg (by decide),
        tries_one_of_nonneg (by decide), if_pos one]
    have twice : ¬ (tries registered 3 (-1)).Nodup := by
      rw [third]
      split <;> decide
    by_cases zero : 0 ∈ registered
    · rw [if_neg (not_not.mpr zero)] at third
      have iff := @nodup_take_iff registered n 1 (-1) (by decide) 3 (by decide) (by rw [first]; decide) twice
        (by rw [first, third]; rfl)
      rw [iff, first, if_neg (by simp [zero])]
      rfl
    · rw [if_pos zero] at third
      have second : tries registered 2 (-1) = [1, 0] := by
        rw [show 2 = 1 + 1 from rfl, tries_add, first, show (-1 : NetHandle) + Int32.ofNat 1 = 0 from rfl,
          tries_one_of_nonneg (by decide), if_pos zero]
        rfl
      have iff := @nodup_take_iff registered n 2 (-1) (by decide) 3 (by decide) (by rw [second]; decide) twice
        (by rw [second, third]; rfl)
      rw [iff, second, if_pos ⟨rfl, zero⟩]
      rfl
  · have next : ¬ 0 ≤ c + Int32.ofNat 1 := by
      rw [nonneg_iff] at neg ⊢
      have apart : c.toInt ≠ -1 := fun same => last (Int32.toInt_inj.mp same)
      have lower := c.le_toInt
      rw [toInt_add_bmod, toInt_ofNat_bmod]
      omega
    have second := tries_two_of_neg neg next one
    have iff := @nodup_take_iff registered n 1 c (by decide) 2 (by decide) (by rw [first]; decide)
      (by rw [second]; decide) (by rw [first, second]; rfl)
    rw [iff, first, if_neg (fun h => last h.1)]
    rfl

/-- **Which draws give distinct handles.** The constructor loop always ends, and `n` sockets get
unique handles if and only if 1 is registered or there is room before the counter has replaced a
second handle by 1. -/
theorem unique_iff (registered : Finset NetHandle) (allocator : NetHandle) (n : Nat)
    (bound : n + registered.card < 2 ^ 31 - 1) :
    ∃ handles allocator', newHandles registered n allocator = some (handles, allocator') ∧
      handles.length = n ∧
      (Unique registered handles ↔ 1 ∈ registered ∨ n ≤ room registered allocator) := by
  obtain ⟨allocator', drawn, length⟩ := @newHandles_run registered allocator n (by omega)
  refine ⟨_, allocator', drawn, length, ?_⟩
  have member : ∀ handle ∈ (tries registered (2 ^ 32) allocator).take n, 0 ≤ handle ∧ handle ∉ registered := by
    intro handle h
    obtain ⟨⟨i, -, rfl⟩, fresh⟩ := mem_tries.mp (List.mem_of_mem_take h)
    exact ⟨handleOf_nonneg _, fresh⟩
  have unique : Unique registered ((tries registered (2 ^ 32) allocator).take n) ↔
      ((tries registered (2 ^ 32) allocator).take n).Nodup :=
    ⟨fun u => u.distinct, fun distinct => ⟨fun h mem => (member h mem).1, distinct, fun h mem => (member h mem).2⟩⟩
  rw [unique]
  by_cases one : 1 ∈ registered
  · have distinct := (nodup_of_one_registered one allocator).sublist (List.take_sublist n _)
    exact ⟨fun _ => .inl one, fun _ => distinct⟩
  · rw [or_iff_right one, room]
    by_cases nonneg : 0 ≤ allocator
    · rw [if_pos nonneg]
      exact distinct_iff_of_nonneg bound nonneg one
    · rw [if_neg nonneg]
      exact distinct_iff_of_neg nonneg one

/-- Three sockets created at `INT_MAX` with nothing registered. -/
theorem unique_iff_max :
    ∃ handles allocator', newHandles ∅ 3 (Int32.ofInt (2 ^ 31 - 1)) = some (handles, allocator') ∧
      handles.length = 3 ∧ (Unique ∅ handles ↔ 1 ∈ (∅ : Finset NetHandle) ∨ 3 ≤ room ∅ (Int32.ofInt (2 ^ 31 - 1))) :=
  unique_iff ∅ (Int32.ofInt (2 ^ 31 - 1)) 3 (by decide)

/-- The second and the third of them share the handle 1. -/
theorem handles_repeat :
    ∃ allocator', newHandles ∅ 3 (Int32.ofInt (2 ^ 31 - 1)) = some ([Int32.ofInt (2 ^ 31 - 1), 1, 1], allocator') ∧
      ¬ Unique ∅ [Int32.ofInt (2 ^ 31 - 1), 1, 1] := by
  refine ⟨_, rfl, ?_⟩
  intro unique
  exact absurd unique.distinct (by decide)

end Tries

end Netter
