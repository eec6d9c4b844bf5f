import Mathlib.Data.UInt
import Netter.SimpleBuffer.Queue

/-!
# When there is room

The end offset is a `uint32_t` sum in the test of `Write` as well as in `Extend`, which adds a quarter.
When one of them wraps, the allocation is too small for what is copied next.
-/

namespace Netter.SimpleBuffer

open Lib

variable {b : SimpleBuffer} {len : UInt32} {data : List UInt8}

/-- There is room for the bytes after the capacity step of `Write`, or the write is refused. -/
def WriteSafe (b : SimpleBuffer) (data : List UInt8) (len : UInt32) : Prop :=
  ∃ after, b.write (some data) len = some after ∧
    (b.writeOffset.toNat + len.toNat ≤ (b.reserve len).allocSize.toNat ∨ after = b)

/-- There is room for `len` bytes after `Extend(len)`. -/
def ExtendSafe (b : SimpleBuffer) (len : UInt32) : Prop :=
  b.writeOffset.toNat + len.toNat ≤ (b.extend len).allocSize.toNat

/-- **`Extend` makes room** if and only if the new size does not wrap. -/
theorem extendSafe_iff : b.ExtendSafe len ↔ b.Grows len := by
  have size : (b.extend len).allocSize.toNat = ((b.writeOffset.toNat + len.toNat) % 2 ^ 32 +
      (b.writeOffset.toNat + len.toNat) % 2 ^ 32 / 4) % 2 ^ 32 := by
    simp [extend, UInt32.toNat_add, UInt32.toNat_shiftRight, Nat.shiftRight_eq_div_pow]
  have bound := (b.extend len).allocSize.toNat_lt
  unfold ExtendSafe Grows
  by_cases wraps : b.writeOffset.toNat + len.toNat < 2 ^ 32
  · rw [Nat.mod_eq_of_lt wraps] at size
    omega
  · omega

/-- The test at the head of `Write` leaves enough room if and only if no size wraps. -/
theorem reserve_room_iff : b.writeOffset.toNat + len.toNat ≤ (b.reserve len).allocSize.toNat ↔ b.NoWrap len.toNat := by
  have alloc := b.allocSize.toNat_lt
  have extended : b.writeOffset.toNat + len.toNat ≤ (b.extend len).allocSize.toNat ↔ b.Grows len := extendSafe_iff
  constructor
  · intro room
    have sum : b.writeOffset.toNat + len.toNat < 2 ^ 32 :=
      Nat.lt_of_le_of_lt room (b.reserve len).allocSize.toNat_lt
    refine ⟨sum, fun full => ?_⟩
    have test : b.writeOffset + len > b.allocSize := by
      rw [gt_iff_lt, UInt32.lt_iff_toNat_lt, UInt32.toNat_add, Nat.mod_eq_of_lt sum]
      exact full
    rw [reserve, if_pos test] at room
    exact extended.mp room
  · intro fits
    unfold reserve
    split
    next test =>
      rw [gt_iff_lt, UInt32.lt_iff_toNat_lt, UInt32.toNat_add, Nat.mod_eq_of_lt fits.sum] at test
      exact extended.mpr (fits.grow test)
    next test =>
      rw [gt_iff_lt, UInt32.lt_iff_toNat_lt, UInt32.toNat_add, Nat.mod_eq_of_lt fits.sum] at test
      exact Nat.le_of_not_lt test

/-- A `Write` that does not leave the allocation has found room for its bytes there. -/
theorem room_of_write {after : SimpleBuffer} (written : b.write (some data) len = some after)
    (enough : len.toNat ≤ data.length) : b.writeOffset.toNat + len.toNat ≤ (b.reserve len).allocSize.toNat ∧
      after.allocSize = (b.reserve len).allocSize := by
  rw [write_some, load_zero enough, Option.bind_some, Option.map_eq_some_iff] at written
  obtain ⟨filled, is, rfl⟩ := written
  simp only [fill, Option.bind_eq_bind, Option.bind_eq_some_iff] at is
  obtain ⟨cells, stored, same⟩ := is
  cases same
  obtain ⟨room, -⟩ := Block.of_store stored
  rw [reserve_writeOffset, List.length_take, Nat.min_eq_left enough] at room
  exact ⟨room, rfl⟩

/-- Whatever the sizes are: a `Write` that does not leave the allocation appends its bytes. -/
theorem write_of_some {after : SimpleBuffer} (wf : b.WF) (written : b.write (some data) len = some after)
    (enough : len.toNat ≤ data.length) : after.WF ∧ after.content = b.content ++ data.take len.toNat ∧
      after.readOffset = b.readOffset ∧ after.writeOffset.toNat = b.writeOffset.toNat + len.toNat := by
  have fits := reserve_room_iff.mp (room_of_write written enough).1
  have count : len.toNat = (data.take len.toNat).length := by
    rw [List.length_take, Nat.min_eq_left enough]
  obtain ⟨after', written', wf', queue, read, write⟩ := write_spec wf count (count ▸ fits)
  rw [← write_take enough, written] at written'
  cases written'
  exact ⟨wf', queue, read, by rw [write, ← count]⟩

/-- **Appending is safe** if and only if neither the end offset nor the size to be allocated wraps. -/
theorem append_safe_iff (b : SimpleBuffer) (len : UInt32) :
    (∀ data : List UInt8, len.toNat ≤ data.length → (b.WriteSafe data len ↔ b.NoWrap len.toNat)) ∧
      (b.ExtendSafe len ↔ b.Grows len) := by
  refine ⟨fun data enough => ⟨?_, fun fits => ?_⟩, extendSafe_iff⟩
  · rintro ⟨after, written, -⟩
    exact reserve_room_iff.mp (room_of_write written enough).1
  · have room := reserve_room_iff.mpr fits
    have inside : (b.reserve len).writeOffset.toNat + (data.take len.toNat).length ≤ (b.reserve len).allocSize.toNat := by
      rw [reserve_writeOffset, List.length_take, Nat.min_eq_left enough]
      exact room
    obtain ⟨cells, stored, -⟩ := (b.reserve len).buffer.store_eq_some inside
    refine ⟨({ b.reserve len with buffer := cells } : SimpleBuffer).incWriteOffset len, ?_, .inl room⟩
    rw [write_some, load_zero enough, Option.bind_some, fill, stored]
    rfl

/-- Two packets of `2 ^ 31 - 1` bytes for a peer that reads nothing: the second one is copied past the end. -/
theorem not_append_safe : ∃ s,
    runPartial Op.exec .init [.write (List.replicate (2 ^ 31 - 1) 0) (2 ^ 31 - 1)] = some s ∧
      ¬ s.buffer.WriteSafe (List.replicate (2 ^ 31 - 1) 0) (2 ^ 31 - 1) := by
  have count : (2 ^ 31 - 1 : UInt32).toNat = (List.replicate (2 ^ 31 - 1) (0 : UInt8)).length :=
    (List.length_replicate ..).symm
  have fits : init.NoWrap (List.replicate (2 ^ 31 - 1) (0 : UInt8)).length := by
    rw [List.length_replicate]
    exact ⟨by decide, fun _ => by decide⟩
  obtain ⟨b, written, -, -, -, ends⟩ := write_spec wf_init count fits
  obtain ⟨-, size⟩ := room_of_write written (Nat.le_of_eq count)
  refine ⟨_, by simp only [runPartial, Op.exec, Usage.init, written]; rfl, ?_⟩
  rintro ⟨after, again, -⟩
  have second := reserve_room_iff.mp (room_of_write again (Nat.le_of_eq count)).1
  have full : b.allocSize.toNat = 2684354558 := by
    rw [size]
    decide
  rw [List.length_replicate] at ends
  have bad := second.grow
  have len : (2 ^ 31 - 1 : UInt32).toNat = 2 ^ 31 - 1 := rfl
  have start : init.writeOffset.toNat = 0 := rfl
  rw [full, ends, len, start] at bad
  exact absurd (bad (by decide)) (by decide)

end Netter.SimpleBuffer
