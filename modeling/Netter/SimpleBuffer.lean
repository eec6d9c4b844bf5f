import Mathlib.Algebra.Group.Int.Defs
import Mathlib.Algebra.GroupWithZero.Nat
import Netter.Lib.Block

/-!
# `SimpleBuffer`

The growing byte buffer under both directions of a connection and under every packet. The
allocation is a block whose size is `m_alloc_size`; all offsets are `uint32_t` and every sum
is taken modulo `2 ^ 32`, as in the code. A `memcpy` or `memmove` that leaves the allocation is
`none`. `realloc` succeeds; the bytes it adds read as 0 here and nothing depends on them.

`content` is what the buffer is for: the queue of bytes between the two offsets. Each
operation has one lemma that says what it does to the queue.
-/

namespace Netter

open Lib

structure SimpleBuffer where
  allocSize : UInt32
  buffer : Block UInt8 allocSize.toNat
  writeOffset : UInt32
  readOffset : UInt32
  deriving DecidableEq

namespace SimpleBuffer

/-- `SimpleBuffer::SimpleBuffer`. -/
def init : SimpleBuffer := ⟨0, Block.empty, 0, 0⟩

def getWritableLen (b : SimpleBuffer) : UInt32 := b.allocSize - b.writeOffset

def getReadableLen (b : SimpleBuffer) : UInt32 := b.writeOffset - b.readOffset

def incWriteOffset (b : SimpleBuffer) (len : UInt32) : SimpleBuffer :=
  { b with writeOffset := b.writeOffset + len }

/-- `Extend`: room for `len` bytes after the write offset, and a quarter of that on top. -/
def extend (b : SimpleBuffer) (len : UInt32) : SimpleBuffer :=
  let allocSize := b.writeOffset + len
  let allocSize := allocSize + (allocSize >>> 2)
  { b with allocSize, buffer := b.buffer.realloc 0 allocSize.toNat }

/-- The capacity step at the head of `Write`. -/
def reserve (b : SimpleBuffer) (len : UInt32) : SimpleBuffer :=
  if b.writeOffset + len > b.allocSize then b.extend len else b

/-- `Write(buf, len)`; `none` for `buf` is the null pointer. It returns its argument `len`. -/
def write (b : SimpleBuffer) (buf : Option (List UInt8)) (len : UInt32) : Option SimpleBuffer :=
  let b := b.reserve len
  match buf with
  | some src => do
    let bytes ← load src 0 len.toNat
    let buffer ← b.buffer.store b.writeOffset.toNat bytes
    some { b with buffer, writeOffset := b.writeOffset + len }
  | none => some { b with writeOffset := b.writeOffset + len }

/-- The number of bytes `Read(_, len)` takes, which it returns. -/
def readLen (b : SimpleBuffer) (len : UInt32) : UInt32 :=
  if len > b.getReadableLen then b.getReadableLen else len

/-- `Read(buf, len)` with a destination: the bytes copied out and the buffer after. -/
def read (b : SimpleBuffer) (len : UInt32) : Option (List UInt8 × SimpleBuffer) := do
  let out ← b.buffer.load b.readOffset.toNat (b.readLen len).toNat
  some (out, { b with readOffset := b.readOffset + b.readLen len })

/-- `Read(NULL, len)`. -/
def readNull (b : SimpleBuffer) (len : UInt32) : SimpleBuffer :=
  { b with readOffset := b.readOffset + b.readLen len }

/-- `ResetOffset`: the unread bytes move to the front. -/
def resetOffset (b : SimpleBuffer) : Option SimpleBuffer :=
  if b.readOffset = 0 then some b
  else do
    let buffer ← if b.readOffset < b.writeOffset
      then b.buffer.move 0 b.readOffset.toNat b.getReadableLen.toNat
      else some b.buffer
    some { b with buffer, writeOffset := b.getReadableLen, readOffset := 0 }

/-- What `recv(fd, GetWriteBuffer(), _)` does to the memory when it returns `bytes`. -/
def fill (b : SimpleBuffer) (bytes : List UInt8) : Option SimpleBuffer := do
  let buffer ← b.buffer.store b.writeOffset.toNat bytes
  some { b with buffer }

/-! ## The queue -/

/-- The bytes written and not read yet. -/
def content (b : SimpleBuffer) : List UInt8 :=
  (b.buffer.cells.take b.writeOffset.toNat).drop b.readOffset.toNat

/-- The offsets are in order and inside the allocation. -/
structure WF (b : SimpleBuffer) : Prop where
  read_le : b.readOffset.toNat ≤ b.writeOffset.toNat
  write_le : b.writeOffset.toNat ≤ b.allocSize.toNat

/-- Appending `len` bytes computes neither the end offset nor the new size modulo `2 ^ 32`. -/
structure NoWrap (b : SimpleBuffer) (len : Nat) : Prop where
  sum : b.writeOffset.toNat + len < 2 ^ 32
  grow : b.allocSize.toNat < b.writeOffset.toNat + len →
    b.writeOffset.toNat + len + (b.writeOffset.toNat + len) / 4 < 2 ^ 32

/-- The size `Extend(len)` allocates is below `2 ^ 32`. -/
def Grows (b : SimpleBuffer) (len : UInt32) : Prop :=
  b.writeOffset.toNat + len.toNat + (b.writeOffset.toNat + len.toNat) / 4 < 2 ^ 32

theorem wf_init : init.WF := ⟨by decide, by decide⟩

theorem WF.length_content {b : SimpleBuffer} (wf : b.WF) :
    b.content.length = b.writeOffset.toNat - b.readOffset.toNat := by
  have := wf.write_le
  simp [content]
  omega

/-- The front of the queue is what the memory holds from the read offset on. -/
theorem WF.take_content {b : SimpleBuffer} (wf : b.WF) {k : Nat} (short : k ≤ b.content.length) :
    b.content.take k = (b.buffer.cells.drop b.readOffset.toNat).take k := by
  rw [wf.length_content] at short
  rw [content, List.drop_take, List.take_take, Nat.min_eq_left short]

theorem WF.toNat_getReadableLen {b : SimpleBuffer} (wf : b.WF) :
    b.getReadableLen.toNat = b.content.length := by
  rw [wf.length_content, getReadableLen, UInt32.toNat_sub_of_le]
  exact UInt32.le_iff_toNat_le.mpr wf.read_le

theorem WF.toNat_getWritableLen {b : SimpleBuffer} (wf : b.WF) :
    b.getWritableLen.toNat = b.allocSize.toNat - b.writeOffset.toNat := by
  rw [getWritableLen, UInt32.toNat_sub_of_le]
  exact UInt32.le_iff_toNat_le.mpr wf.write_le

/-- The size `Extend` computes, when the sums fit. -/
theorem toNat_allocSize_extend {b : SimpleBuffer} {len : UInt32}
    (fits : b.writeOffset.toNat + len.toNat + (b.writeOffset.toNat + len.toNat) / 4 < 2 ^ 32) :
    (b.extend len).allocSize.toNat =
      b.writeOffset.toNat + len.toNat + (b.writeOffset.toNat + len.toNat) / 4 := by
  have sum : (b.writeOffset + len).toNat = b.writeOffset.toNat + len.toNat := by
    rw [UInt32.toNat_add]; omega
  have quarter : ((b.writeOffset + len) >>> 2).toNat = (b.writeOffset + len).toNat / 4 := by
    simp [UInt32.toNat_shiftRight, Nat.shiftRight_eq_div_pow]
  simp only [extend]
  rw [UInt32.toNat_add, quarter, sum]
  omega

theorem extend_spec {b : SimpleBuffer} {len : UInt32} (wf : b.WF)
    (fits : b.writeOffset.toNat + len.toNat + (b.writeOffset.toNat + len.toNat) / 4 < 2 ^ 32) :
    (b.extend len).WF ∧ (b.extend len).content = b.content ∧
      b.writeOffset.toNat + len.toNat ≤ (b.extend len).allocSize.toNat := by
  have size := toNat_allocSize_extend fits
  have inside := wf.write_le
  refine ⟨⟨wf.read_le, ?_⟩, ?_, by omega⟩
  · show b.writeOffset.toNat ≤ (b.extend len).allocSize.toNat
    omega
  · show (List.take b.writeOffset.toNat (b.buffer.realloc 0 (b.extend len).allocSize.toNat).cells).drop _ = _
    rw [Block.realloc_take _ _ inside (by omega)]
    rfl

@[simp] theorem reserve_writeOffset (b : SimpleBuffer) (len : UInt32) :
    (b.reserve len).writeOffset = b.writeOffset := by
  unfold reserve; split <;> rfl

@[simp] theorem reserve_readOffset (b : SimpleBuffer) (len : UInt32) :
    (b.reserve len).readOffset = b.readOffset := by
  unfold reserve; split <;> rfl

/-- After the capacity step the bytes fit, and the queue is what it was. -/
theorem reserve_spec {b : SimpleBuffer} {len : UInt32} (wf : b.WF) (room : b.NoWrap len.toNat) :
    (b.reserve len).WF ∧ (b.reserve len).content = b.content ∧
      b.writeOffset.toNat + len.toNat ≤ (b.reserve len).allocSize.toNat := by
  have sum : (b.writeOffset + len).toNat = b.writeOffset.toNat + len.toNat := by
    have := room.sum
    rw [UInt32.toNat_add]; omega
  unfold reserve
  split
  · rename_i full
    rw [gt_iff_lt, UInt32.lt_iff_toNat_lt, sum] at full
    exact extend_spec wf (room.grow full)
  · rename_i fits
    rw [gt_iff_lt, UInt32.lt_iff_toNat_lt, sum] at fits
    exact ⟨wf, rfl, by omega⟩

/-- Bytes stored at the write offset join the queue once the offset is moved past them. -/
theorem fill_spec {b : SimpleBuffer} {bytes : List UInt8} {len : UInt32} (wf : b.WF)
    (count : len.toNat = bytes.length) (room : b.writeOffset.toNat + bytes.length ≤ b.allocSize.toNat) :
    ∃ b', b.fill bytes = some b' ∧ (b'.incWriteOffset len).WF ∧
      (b'.incWriteOffset len).content = b.content ++ bytes ∧ b'.readOffset = b.readOffset ∧
      (b'.incWriteOffset len).writeOffset.toNat = b.writeOffset.toNat + bytes.length ∧
      b'.allocSize = b.allocSize := by
  obtain ⟨m, stored, -⟩ := b.buffer.store_eq_some room
  have bound := b.allocSize.toNat_lt
  have moved : (b.writeOffset + len).toNat = b.writeOffset.toNat + bytes.length := by
    rw [UInt32.toNat_add]; omega
  have ordered := wf.read_le
  have inside := wf.write_le
  have size := b.buffer.size
  refine ⟨{ b with buffer := m }, by simp [fill, stored], ⟨?_, ?_⟩, ?_, rfl, moved, rfl⟩
  · show b.readOffset.toNat ≤ (b.writeOffset + len).toNat
    omega
  · show (b.writeOffset + len).toNat ≤ b.allocSize.toNat
    omega
  · show (m.cells.take (b.writeOffset + len).toNat).drop b.readOffset.toNat = b.content ++ bytes
    rw [moved, Block.store_take_end stored, List.drop_append_of_le_length (by simp; omega)]
    rfl

/-- `Write` with a source is the capacity step, a store at the write offset and its move. -/
theorem write_some (b : SimpleBuffer) (src : List UInt8) (len : UInt32) :
    b.write (some src) len = (load src 0 len.toNat).bind fun bytes =>
      ((b.reserve len).fill bytes).map (incWriteOffset · len) := by
  simp only [write, fill, incWriteOffset, Option.bind_eq_bind]
  congr 1
  funext bytes
  generalize (b.reserve len).buffer.store (b.reserve len).writeOffset.toNat bytes = stored
  cases stored <;> rfl

/-- `Write` looks at the first `len` bytes of its source only. -/
theorem write_take {b : SimpleBuffer} {src : List UInt8} {len : UInt32} (inside : len.toNat ≤ src.length) :
    b.write (some src) len = b.write (some (src.take len.toNat)) len := by
  rw [write_some, write_some, load_zero inside, load_zero (by rw [List.length_take]; omega), List.take_take,
    Nat.min_self]

/-- `Write` appends to the queue. -/
theorem write_spec {b : SimpleBuffer} {bytes : List UInt8} {len : UInt32} (wf : b.WF)
    (count : len.toNat = bytes.length) (room : b.NoWrap bytes.length) :
    ∃ b', b.write (some bytes) len = some b' ∧ b'.WF ∧ b'.content = b.content ++ bytes ∧
      b'.readOffset = b.readOffset ∧ b'.writeOffset.toNat = b.writeOffset.toNat + bytes.length := by
  obtain ⟨wf', same, fits⟩ := reserve_spec wf (count ▸ room)
  rw [count] at fits
  obtain ⟨m, filled, moved, queue, front, last, -⟩ :=
    fill_spec wf' count (by rw [reserve_writeOffset]; exact fits)
  refine ⟨m.incWriteOffset len, ?_, moved, by rw [queue, same], ?_, by rw [last, reserve_writeOffset]⟩
  · rw [write_some, load_zero (by omega), count, List.take_length, Option.bind_some, filled]
    rfl
  · rw [← reserve_readOffset b len, ← front]
    rfl

/-- The count `Read` returns is `min(len, readable)`. -/
theorem WF.toNat_readLen {b : SimpleBuffer} (wf : b.WF) (len : UInt32) :
    (b.readLen len).toNat = min len.toNat b.content.length := by
  unfold readLen
  split
  · rename_i beyond
    rw [gt_iff_lt, UInt32.lt_iff_toNat_lt, wf.toNat_getReadableLen] at beyond
    rw [wf.toNat_getReadableLen]
    omega
  · rename_i within
    rw [gt_iff_lt, UInt32.lt_iff_toNat_lt, wf.toNat_getReadableLen] at within
    omega

/-- `Read(NULL, len)` drops from the front of the queue. -/
theorem readNull_spec {b : SimpleBuffer} (wf : b.WF) (len : UInt32) :
    (b.readNull len).WF ∧ (b.readNull len).content = b.content.drop len.toNat ∧
      (b.readNull len).readOffset.toNat = b.readOffset.toNat + min len.toNat b.content.length := by
  have count := wf.toNat_readLen len
  have size := wf.length_content
  have ordered := wf.read_le
  have bound := b.writeOffset.toNat_lt
  have moved : (b.readOffset + b.readLen len).toNat =
      b.readOffset.toNat + min len.toNat b.content.length := by
    rw [UInt32.toNat_add, count]; omega
  refine ⟨⟨?_, wf.write_le⟩, ?_, moved⟩
  · show (b.readOffset + b.readLen len).toNat ≤ b.writeOffset.toNat
    omega
  · show (b.buffer.cells.take b.writeOffset.toNat).drop (b.readOffset + b.readLen len).toNat = _
    rw [moved, ← List.drop_drop]
    by_cases within : len.toNat ≤ b.content.length
    · rw [Nat.min_eq_left within]
      rfl
    · rw [Nat.min_eq_right (by omega), List.drop_eq_nil_of_le (Nat.le_of_lt (Nat.lt_of_not_le within))]
      exact List.drop_eq_nil_of_le (Nat.le_refl _)

/-- `Read` with a destination copies out what it drops. -/
theorem read_spec {b : SimpleBuffer} (wf : b.WF) (len : UInt32) :
    b.read len = some (b.content.take len.toNat, b.readNull len) := by
  have count := wf.toNat_readLen len
  have size := wf.length_content
  have ordered := wf.read_le
  have inside := wf.write_le
  have whole : b.content.take len.toNat =
      (b.buffer.cells.drop b.readOffset.toNat).take (b.readLen len).toNat := by
    rw [count, ← wf.take_content (Nat.min_le_right _ _), List.take_eq_take_min]
  unfold read
  rw [Block.load_eq_some _ (by omega), ← whole]
  rfl

/-- `ResetOffset` leaves the queue as it is and starts it at 0. -/
theorem resetOffset_spec {b : SimpleBuffer} (wf : b.WF) :
    ∃ b', b.resetOffset = some b' ∧ b'.WF ∧ b'.content = b.content ∧ b'.readOffset = 0 ∧
      b'.writeOffset.toNat = b.content.length ∧ b'.allocSize = b.allocSize := by
  have size := wf.length_content
  have inside := wf.write_le
  have readable := wf.toNat_getReadableLen
  unfold resetOffset
  split
  · rename_i start
    exact ⟨b, rfl, wf, rfl, start, by rw [size, start]; rfl, rfl⟩
  split
  · rename_i unread
    rw [UInt32.lt_iff_toNat_lt] at unread
    have block := b.buffer.size
    have source : b.buffer.load b.readOffset.toNat b.getReadableLen.toNat = some b.content := by
      rw [Block.load_eq_some _ (by omega), content, List.drop_take, ← size, readable]
    obtain ⟨m, stored, -⟩ := b.buffer.store_eq_some (by omega : 0 + b.content.length ≤ b.allocSize.toNat)
    refine ⟨{ b with buffer := m, writeOffset := b.getReadableLen, readOffset := 0 },
      by simp [Block.move, source, stored], ⟨Nat.zero_le _, ?_⟩, ?_, rfl, readable, rfl⟩
    · show b.getReadableLen.toNat ≤ b.allocSize.toNat
      omega
    · show (m.cells.take b.getReadableLen.toNat).drop 0 = b.content
      have front := Block.store_take_end stored
      rw [Nat.zero_add, List.take_zero, List.nil_append] at front
      rw [readable, front, List.drop_zero]
  · rename_i drained
    rw [UInt32.lt_iff_toNat_lt] at drained
    have none : b.content = [] := List.eq_nil_of_length_eq_zero (by omega)
    refine ⟨{ b with writeOffset := b.getReadableLen, readOffset := 0 }, rfl, ⟨Nat.zero_le _, ?_⟩,
      ?_, rfl, readable, rfl⟩
    · show b.getReadableLen.toNat ≤ b.allocSize.toNat
      omega
    · show (b.buffer.cells.take b.getReadableLen.toNat).drop 0 = b.content
      rw [readable, none]
      rfl

end SimpleBuffer

end Netter
