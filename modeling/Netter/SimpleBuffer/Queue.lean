import Netter.Lib.Run
import Netter.SimpleBuffer

/-!
# A FIFO queue of bytes

Any calls in any order, as long as no size is computed modulo `2 ^ 32`: they stay inside the
allocation, and the bytes that have been appended are those that have been read and then those that
are between the two offsets.
-/

namespace Netter.SimpleBuffer

open Lib

/-- A call, or a use of the write area. -/
inductive Op where
  | write (data : List UInt8) (len : UInt32)
  | read (len : UInt32)
  | resetOffset
  | extend (len : UInt32)
  /-- The bytes at `GetWriteBuffer()` are overwritten by `area`, and `IncWriteOffset(r)` follows. -/
  | fill (area : List UInt8) (r : UInt32)

/-- A buffer with what has been appended to it and what has been read from it. -/
structure Usage where
  buffer : SimpleBuffer
  appended : List UInt8
  taken : List UInt8

def Usage.init : Usage := ⟨.init, [], []⟩

/-- What stands behind the write offset when `area` has been put there. -/
def writeArea (b : SimpleBuffer) (area : List UInt8) : List UInt8 :=
  area ++ b.buffer.cells.drop (b.writeOffset.toNat + area.length)

/-- The call, or `none` if it leaves the allocation. -/
def Op.exec (s : Usage) : Op → Option Usage
  | .write data len => do
    let buffer ← s.buffer.write (some data) len
    some { s with buffer, appended := s.appended ++ data.take len.toNat }
  | .read len => do
    let (out, buffer) ← s.buffer.read len
    some { s with buffer, taken := s.taken ++ out }
  | .resetOffset => do
    let buffer ← s.buffer.resetOffset
    some { s with buffer }
  | .extend len => some { s with buffer := s.buffer.extend len }
  | .fill area r => do
    let buffer ← s.buffer.fill area
    some { s with
      buffer := buffer.incWriteOffset r
      appended := s.appended ++ (s.buffer.writeArea area).take r.toNat }

/-- What a caller sees to: the source of a `Write` has its bytes, no size wraps, and what is filled is
in the write area. -/
def Op.Allowed (s : Usage) : Op → Prop
  | .write data len => len.toNat ≤ data.length ∧ s.buffer.Grows len
  | .extend len => s.buffer.Grows len
  | .fill area r => area.length ≤ s.buffer.getWritableLen.toNat ∧ r ≤ s.buffer.getWritableLen
  | _ => True

variable {b : SimpleBuffer} {s : Usage} {len : UInt32}

theorem Grows.noWrap (grows : b.Grows len) : b.NoWrap len.toNat := by
  unfold Grows at grows
  exact ⟨by omega, fun _ => grows⟩

/-- A part of the write area joins the queue. -/
theorem fill_area_spec {area : List UInt8} {r : UInt32} (wf : b.WF)
    (inside : area.length ≤ b.getWritableLen.toNat) (within : r ≤ b.getWritableLen) :
    ∃ b', b.fill area = some b' ∧ (b'.incWriteOffset r).WF ∧
      (b'.incWriteOffset r).content = b.content ++ (b.writeArea area).take r.toNat := by
  have ordered := wf.read_le
  have space := wf.write_le
  have size := b.buffer.size
  have bound := b.allocSize.toNat_lt
  rw [UInt32.le_iff_toNat_le, wf.toNat_getWritableLen] at within
  rw [wf.toNat_getWritableLen] at inside
  obtain ⟨m, stored, cells⟩ :=
    b.buffer.store_eq_some (by omega : b.writeOffset.toNat + area.length ≤ b.allocSize.toNat)
  have moved : (b.writeOffset + r).toNat = b.writeOffset.toNat + r.toNat := by
    rw [UInt32.toNat_add]
    omega
  refine ⟨{ b with buffer := m }, by simp [fill, stored], ⟨?_, ?_⟩, ?_⟩
  · show b.readOffset.toNat ≤ (b.writeOffset + r).toNat
    omega
  · show (b.writeOffset + r).toNat ≤ b.allocSize.toNat
    omega
  · show (m.cells.take (b.writeOffset + r).toNat).drop b.readOffset.toNat = _
    have front : (b.buffer.cells.take b.writeOffset.toNat).length = b.writeOffset.toNat := by
      rw [List.length_take]
      omega
    have split : m.cells.take (b.writeOffset.toNat + r.toNat) =
        b.buffer.cells.take b.writeOffset.toNat ++ (b.writeArea area).take r.toNat := by
      rw [cells, List.append_assoc, List.take_append, front, List.take_of_length_le (by omega)]
      congr 2
      omega
    rw [moved, split, List.drop_append_of_le_length (by omega)]
    rfl

/-- The offsets are in order inside the allocation, and what has been appended is what has been read and
then what is in the buffer. -/
structure Usage.Sound (s : Usage) : Prop where
  wf : s.buffer.WF
  balance : s.appended = s.taken ++ s.buffer.content

theorem Usage.Sound.exec (sound : s.Sound) {op : Op} (allowed : op.Allowed s) :
    ∃ t, op.exec s = some t ∧ t.Sound := by
  obtain ⟨wf, balance⟩ := sound
  cases op with
  | write data len =>
    obtain ⟨enough, grows⟩ := allowed
    have count : (data.take len.toNat).length = len.toNat := by
      rw [List.length_take]
      omega
    obtain ⟨b', written, wf', queue, -⟩ := write_spec wf count.symm (count.symm ▸ grows.noWrap)
    rw [← write_take enough] at written
    refine ⟨_, by simp only [Op.exec, written]; rfl, wf', ?_⟩
    show s.appended ++ _ = s.taken ++ b'.content
    rw [queue, balance, List.append_assoc]
  | read len =>
    obtain ⟨wf', queue, -⟩ := readNull_spec wf len
    refine ⟨_, by simp only [Op.exec, read_spec wf]; rfl, wf', ?_⟩
    show s.appended = (s.taken ++ s.buffer.content.take len.toNat) ++ (s.buffer.readNull len).content
    rw [queue, List.append_assoc, List.take_append_drop]
    exact balance
  | resetOffset =>
    obtain ⟨b', moved, wf', queue, -⟩ := resetOffset_spec wf
    refine ⟨_, by simp only [Op.exec, moved]; rfl, wf', ?_⟩
    show s.appended = s.taken ++ b'.content
    rw [queue]
    exact balance
  | extend len =>
    obtain ⟨wf', queue, -⟩ := extend_spec wf allowed
    refine ⟨_, rfl, wf', ?_⟩
    show s.appended = s.taken ++ (s.buffer.extend len).content
    rw [queue]
    exact balance
  | fill area r =>
    obtain ⟨b', filled, wf', queue⟩ := fill_area_spec wf allowed.1 allowed.2
    refine ⟨_, by simp only [Op.exec, filled]; rfl, wf', ?_⟩
    show s.appended ++ _ = s.taken ++ (b'.incWriteOffset r).content
    rw [queue, balance, List.append_assoc]

/-- What the buffer does as a queue. -/
structure Usage.Fifo (s : Usage) : Prop extends s.Sound where
  /-- `Read` takes the oldest bytes, as many as it is asked for if there are as many. -/
  oldest : ∀ len, ∃ after, s.buffer.read len = some (s.buffer.content.take len.toNat, after) ∧
    (s.buffer.readLen len).toNat = min len.toNat s.buffer.getReadableLen.toNat ∧
    (s.buffer.content.take len.toNat).length = (s.buffer.readLen len).toNat ∧
    after.content = s.buffer.content.drop len.toNat
  reset : ∃ after, s.buffer.resetOffset = some after ∧ after.content = s.buffer.content
  extend : ∀ len, s.buffer.Grows len → (s.buffer.extend len).content = s.buffer.content

theorem Usage.Sound.fifo (sound : s.Sound) : s.Fifo := by
  have wf := sound.wf
  refine ⟨sound, fun len => ⟨s.buffer.readNull len, read_spec wf len, ?_, ?_, (readNull_spec wf len).2.1⟩, ?_, ?_⟩
  · rw [wf.toNat_readLen, wf.toNat_getReadableLen]
  · rw [wf.toNat_readLen, List.length_take]
  · obtain ⟨after, moved, -, queue, -⟩ := resetOffset_spec wf
    exact ⟨after, moved, queue⟩
  · exact fun len grows => (extend_spec wf grows).2.1

/-- **A `SimpleBuffer` is a FIFO queue**: calls in any order stay inside the allocation, and they leave what a
queue would have. -/
theorem fifo_queue (ops : List Op) (allowed : AlongPartial Op.exec (fun s op => op.Allowed s) .init ops) :
    ∃ s, runPartial Op.exec .init ops = some s ∧ s.Fifo := by
  obtain ⟨s, ran, sound⟩ := runPartial_along (I := Usage.Sound)
    (fun s op sound allowed => sound.exec allowed) ⟨wf_init, rfl⟩ allowed
  exact ⟨s, ran, sound.fifo⟩

theorem fifo_queue_write_read :
    ∃ s, runPartial Op.exec .init [.write [1, 2, 3] 3, .read 2, .resetOffset] = some s ∧ s.Fifo :=
  fifo_queue _ ⟨⟨by decide, by unfold Grows; decide⟩, fun _ _ => ⟨trivial, fun _ _ => ⟨trivial, fun _ _ => trivial⟩⟩⟩

end Netter.SimpleBuffer
