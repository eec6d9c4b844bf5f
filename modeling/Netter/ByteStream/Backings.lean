import Netter.ByteStream.RoundTrip

/-!
# Reading over the two backings

A stream over a `SimpleBuffer` has `m_len = 0`, which is what the checks of `_ReadByte` and `Skip` compare the
position with. So a read throws there unless its end wraps around to 0, while over a raw buffer it
gives the bytes.
-/

namespace Netter.CByteStream

open Lib

/-- The same result with ranges counted from `start`. -/
def ReadResult.relative (start : UInt32) : ReadResult → ReadResult
  | .slice range => .slice ⟨range.off - start, range.len⟩
  | other => other

/-- The same value or the same exception, and the same position when the second stream starts at `start`. -/
inductive SameResult (start : UInt32) : EStateM.Result Stop CByteStream ReadResult →
    EStateM.Result Stop CByteStream ReadResult → Prop where
  | value (x y : ReadResult) (s t : CByteStream) (same : x = y.relative start) (pos : s.pos = t.pos - start) :
      SameResult start (.ok x s) (.ok y t)
  | exception (ex : PktException) (s t : CByteStream) (pos : s.pos = t.pos - start) :
      SameResult start (.error (.throws ex) s) (.error (.throws ex) t)

/-- Call by call the same; the caller goes on when it has caught an exception. -/
def SameReads (start : UInt32) : List ReadOp → CByteStream → CByteStream → Prop
  | [], _, _ => True
  | op :: ops, s, t => SameResult start (op.exec.run s) (op.exec.run t) ∧
      ∀ s' t', op.after s = some s' → op.after t = some t' → SameReads start ops s' t'

/-- The bytes that a call asks `_ReadByte` for first. -/
def ReadOp.width : ReadOp → Nat
  | .int type => type.bytes
  | .skip _ => 0
  | _ => 4

/-- At position `pos` of `n` bytes: the read asks for too many over a raw buffer as well, and `Skip` ends behind the
bytes, or at their start when this is the start of the `SimpleBuffer`. -/
def ReadOp.Alike (n start pos : Nat) : ReadOp → Prop
  | .skip k => (pos + k.toNat) % 2 ^ 32 ≤ n ↔ (start + pos + k.toNat) % 2 ^ 32 = 0
  | op => n < (pos + op.width) % 2 ^ 32 ∧ (start + pos + op.width) % 2 ^ 32 ≠ 0

/-- Only `Skip` moves a position when nothing can be read. -/
def ReadOp.next (pos : Nat) : ReadOp → Nat
  | .skip k => (pos + k.toNat) % 2 ^ 32
  | _ => pos

def AllAlike (n start : Nat) : Nat → List ReadOp → Prop
  | _, [] => True
  | pos, op :: ops => op.Alike n start pos ∧ AllAlike n start (op.next pos) ops

variable {op : ReadOp} {s t : CByteStream} {e : Stop} {out : List UInt8} {k : UInt32}

/-! ## Calls and their first read -/

theorem readByte_throws (beyond : s.pos + k > s.len) :
    (readByte k).run s = .error (.throws ⟨.parseFailed, "parase packet failed!"⟩) s := by
  simp [readByte, beyond]

theorem skip_throws (beyond : s.pos + k > s.len) :
    (skip k).run s = .error (.throws ⟨.parseFailed, "parse packet failed!"⟩) { s with pos := s.pos + k } := by
  simp [skip, beyond]

theorem skip_returns (within : ¬ s.pos + k > s.len) : (skip k).run s = .ok () { s with pos := s.pos + k } := by
  simp [skip, within]

/-- When the first read fails the call fails in the same way. -/
theorem ReadOp.exec_of_error (reads : ∀ k, op ≠ .skip k) (fails : (readByte (UInt32.ofNat op.width)).run s = .error e t) :
    op.exec.run s = .error e t := by
  have word : (getWord op.width).run s = .error e t := by
    simp only [getWord, bind_pure_comp, run_map, fails]
  cases op with
  | skip k => exact absurd rfl (reads k)
  | int type => simp only [ReadOp.exec, bind_pure_comp, run_map, IntType.get_eq, show (getWord type.bytes).run s = _ from word]
  | readString => simp only [ReadOp.exec, bind_pure_comp, run_map, readString_error word]
  | readStringObj => simp only [ReadOp.exec, bind_pure_comp, run_map, readStringObj_error (readString_error word)]
  | readData => simp only [ReadOp.exec, CByteStream.readData, bind_pure_comp, run_map, readString_error word]

/-- Behind its first read a string call fails with another message than `_ReadByte`. -/
theorem readString_of_ok (first : (readByte 4).run s = .ok out t) (u : CByteStream) :
    readString.run s ≠ .error (.throws ⟨.parseFailed, "parase packet failed!"⟩) u := by
  have word : getUint32.run s = .ok (UInt32.ofBitVec (BigEndian.ofBytes out)) t := by
    simp only [getUint32, getWord, bind_pure_comp, run_map]
    rw [show UInt32.ofNat 4 = 4 from rfl, first]
  simp only [readString, getPos, bind_pure_comp, EStateM.run_bind, word, run_map, EStateM.run_get]
  by_cases beyond : t.pos + UInt32.ofBitVec (BigEndian.ofBytes out) > t.len
  · rw [skip_throws beyond]
    intro same
    simp at same
  · rw [skip_returns beyond]
    intro same
    cases same

theorem map_ne_error {α β : Type} {f : α → β} {x : StreamM α} (other : x.run s ≠ .error e t) :
    (f <$> x).run s ≠ .error e t := by
  rw [run_map]
  cases run : x.run s with
  | ok a u => nofun
  | error e' u =>
    rw [run] at other
    exact fun same => other (by cases same; rfl)

theorem ReadOp.exec_of_ok (reads : ∀ k, op ≠ .skip k) (first : (readByte (UInt32.ofNat op.width)).run s = .ok out t)
    (u : CByteStream) : op.exec.run s ≠ .error (.throws ⟨.parseFailed, "parase packet failed!"⟩) u := by
  cases op with
  | skip k => exact absurd rfl (reads k)
  | int type =>
    have word : (getWord type.bytes).run s = .ok (BigEndian.ofBytes out) t := by
      simp only [getWord, bind_pure_comp, run_map]
      rw [show (readByte (UInt32.ofNat type.bytes)).run s = _ from first]
    simp only [ReadOp.exec, bind_pure_comp, run_map, IntType.get_eq, word]
    intro same
    cases same
  | readString =>
    simp only [ReadOp.exec, bind_pure_comp]
    exact map_ne_error (readString_of_ok first u)
  | readStringObj =>
    have other := readString_of_ok first u
    simp only [ReadOp.exec, bind_pure_comp]
    refine map_ne_error ?_
    simp only [CByteStream.readStringObj, EStateM.run_bind]
    cases read : CByteStream.readString.run s with
    | error e v =>
      rw [read] at other
      exact fun same => other (by cases same; rfl)
    | ok slice v =>
      simp only [EStateM.run_get]
      cases load v.getBuf slice.off.toNat slice.len.toNat with
      | none =>
        intro same
        cases same
      | some bytes =>
        intro same
        cases same
  | readData =>
    simp only [ReadOp.exec, bind_pure_comp]
    exact map_ne_error (readString_of_ok first u)

/-! ## One call -/

section Step

variable {len : UInt32} {mem : Block UInt8 len.toNat} {sb : SimpleBuffer} {pos : UInt32}

/-- The position relative to the start of the bytes. -/
theorem sub_start (start pos : UInt32) : pos = start + pos - start := by
  rw [UInt32.add_comm, UInt32.add_sub_cancel]

theorem ofSimple_beyond {q k : UInt32} : q + k > 0 ↔ (q.toNat + k.toNat) % 2 ^ 32 ≠ 0 := by
  rw [gt_iff_lt, UInt32.lt_iff_toNat_lt, UInt32.toNat_add]
  exact Nat.pos_iff_ne_zero

theorem ReadOp.width_lt (op : ReadOp) : op.width < 2 ^ 32 := by
  cases op with
  | int type => exact Nat.lt_of_le_of_lt type.bytes_le (by decide)
  | skip k => exact Nat.zero_lt_succ _
  | readString => exact Nat.lt_of_lt_of_le (show 4 < 5 by decide) (by decide)
  | readStringObj => exact Nat.lt_of_lt_of_le (show 4 < 5 by decide) (by decide)
  | readData => exact Nat.lt_of_lt_of_le (show 4 < 5 by decide) (by decide)

theorem ReadOp.width_pos (reads : ∀ k, op ≠ .skip k) : 0 < op.width := by
  cases op with
  | int type => cases type <;> exact Nat.zero_lt_succ _
  | skip k => exact absurd rfl (reads k)
  | readString => exact Nat.zero_lt_succ _
  | readStringObj => exact Nat.zero_lt_succ _
  | readData => exact Nat.zero_lt_succ _

/-- The check passes when the end wraps around to 0. -/
theorem readByte_simple (wf : sb.WF) (zero : ¬ pos + k > 0) :
    ∃ out t, (readByte k).run (ofSimple sb pos) = .ok out t := by
  have read := SimpleBuffer.read_spec wf k
  refine ⟨sb.content.take k.toNat, ⟨.simple (sb.readNull k), 0, pos + k⟩, ?_⟩
  simp [readByte, ofSimple, zero, read]

theorem SameResult.of_left {start : UInt32} {ex : PktException} {y : EStateM.Result Stop CByteStream ReadResult}
    (same : SameResult start (.error (.throws ex) s) y) : ∃ t, y = .error (.throws ex) t := by
  cases same with
  | exception ex s t pos => exact ⟨t, rfl⟩

theorem SameResult.of_right {start : UInt32} {ex : PktException} {x : EStateM.Result Stop CByteStream ReadResult}
    (same : SameResult start x (.error (.throws ex) t)) : ∃ s, x = .error (.throws ex) s := by
  cases same with
  | exception ex s t pos => exact ⟨s, rfl⟩

/-- Two reads are alike only when both fail. -/
theorem sameResult_read_iff (reads : ∀ k, op ≠ .skip k) (wf : sb.WF)
    (room : sb.readOffset.toNat + len.toNat < 2 ^ 32) :
    SameResult sb.readOffset (op.exec.run (rawAt mem pos)) (op.exec.run (ofSimple sb (sb.readOffset + pos))) ↔
      len.toNat < (pos.toNat + op.width) % 2 ^ 32 ∧ (sb.readOffset.toNat + pos.toNat + op.width) % 2 ^ 32 ≠ 0 := by
  have width := op.width_lt
  have some := ReadOp.width_pos reads
  have count : (UInt32.ofNat op.width).toNat = op.width := UInt32.toNat_ofNat_of_lt' width
  have ends : sb.readOffset + pos + UInt32.ofNat op.width > 0 ↔
      (sb.readOffset.toNat + pos.toNat + op.width) % 2 ^ 32 ≠ 0 := by
    rw [ofSimple_beyond, UInt32.toNat_add, count, Nat.mod_add_mod]
  have throws (beyond : (sb.readOffset.toNat + pos.toNat + op.width) % 2 ^ 32 ≠ 0) :
      op.exec.run (ofSimple sb (sb.readOffset + pos)) =
        .error (.throws ⟨.parseFailed, "parase packet failed!"⟩) (ofSimple sb (sb.readOffset + pos)) :=
    ReadOp.exec_of_error reads (readByte_throws (ends.mpr beyond))
  constructor
  · intro same
    rcases read_cases len.toNat pos.toNat_lt width with fits | beyond | wraps
    · rw [throws (by omega)] at same
      obtain ⟨u, fails⟩ := same.of_right
      have reads_raw := readByte_fits mem (count.symm ▸ fits : pos.toNat + (UInt32.ofNat op.width).toNat ≤ len.toNat)
      exact absurd fails (ReadOp.exec_of_ok reads reads_raw u)
    · refine ⟨beyond, fun zero => ?_⟩
      have raw := readByte_over mem (count.symm ▸ beyond :
        len.toNat < (pos.toNat + (UInt32.ofNat op.width).toNat) % 2 ^ 32)
      rw [ReadOp.exec_of_error reads raw] at same
      obtain ⟨u, fails⟩ := same.of_left
      obtain ⟨out, t, read⟩ := readByte_simple wf (mt ends.mp (not_not.mpr zero))
      exact ReadOp.exec_of_ok reads read u fails
    · have raw := readByte_wraps mem (count.symm ▸ wraps : Wraps len.toNat pos.toNat (UInt32.ofNat op.width).toNat)
      rw [ReadOp.exec_of_error reads raw] at same
      cases same
  · rintro ⟨beyond, nonzero⟩
    have raw := readByte_over mem (count.symm ▸ beyond :
      len.toNat < (pos.toNat + (UInt32.ofNat op.width).toNat) % 2 ^ 32)
    rw [ReadOp.exec_of_error reads raw, throws nonzero]
    exact .exception _ _ _ (sub_start _ _)

theorem skip_exec_returns (within : ¬ s.pos + k > s.len) :
    (ReadOp.skip k).exec.run s = .ok .unit { s with pos := s.pos + k } := by
  simp only [ReadOp.exec, bind_pure_comp, run_map, skip_returns within]

theorem skip_exec_throws (beyond : s.pos + k > s.len) : (ReadOp.skip k).exec.run s =
    .error (.throws ⟨.parseFailed, "parse packet failed!"⟩) { s with pos := s.pos + k } := by
  simp only [ReadOp.exec, bind_pure_comp, run_map, skip_throws beyond]

theorem skip_after (s : CByteStream) (k : UInt32) : (ReadOp.skip k).after s = some { s with pos := s.pos + k } := by
  unfold ReadOp.after
  by_cases beyond : s.pos + k > s.len
  · rw [skip_exec_throws beyond]
  · rw [skip_exec_returns beyond]

theorem sameResult_skip_iff : SameResult sb.readOffset ((ReadOp.skip k).exec.run (rawAt mem pos))
      ((ReadOp.skip k).exec.run (ofSimple sb (sb.readOffset + pos))) ↔
    ((pos.toNat + k.toNat) % 2 ^ 32 ≤ len.toNat ↔ (sb.readOffset.toNat + pos.toNat + k.toNat) % 2 ^ 32 = 0) := by
  have raw : pos + k > len ↔ len.toNat < (pos.toNat + k.toNat) % 2 ^ 32 := add_gt_iff pos k
  have ends : sb.readOffset + pos + k > 0 ↔ (sb.readOffset.toNat + pos.toNat + k.toNat) % 2 ^ 32 ≠ 0 := by
    rw [ofSimple_beyond, UInt32.toNat_add, Nat.mod_add_mod]
  have moved : pos + k = sb.readOffset + pos + k - sb.readOffset := by
    rw [UInt32.add_assoc]
    exact sub_start _ _
  by_cases rawBeyond : pos + k > len
  · rw [skip_exec_throws rawBeyond]
    have misses := Nat.not_le_of_lt (raw.mp rawBeyond)
    by_cases beyond : sb.readOffset + pos + k > 0
    · rw [skip_exec_throws beyond]
      exact iff_of_true (.exception _ _ _ moved) (iff_of_false misses (ends.mp beyond))
    · rw [skip_exec_returns beyond]
      have zero := not_not.mp (mt ends.mpr beyond)
      exact iff_of_false nofun fun same => misses (same.mpr zero)
  · rw [skip_exec_returns rawBeyond]
    have fits := Nat.le_of_not_lt (mt raw.mpr rawBeyond)
    by_cases beyond : sb.readOffset + pos + k > 0
    · rw [skip_exec_throws beyond]
      exact iff_of_false nofun fun same => ends.mp beyond (same.mp fits)
    · rw [skip_exec_returns beyond]
      have zero := not_not.mp (mt ends.mpr beyond)
      exact iff_of_true (.value _ _ _ _ rfl moved) (iff_of_true fits zero)

theorem sameResult_iff (wf : sb.WF) (room : sb.readOffset.toNat + len.toNat < 2 ^ 32) (op : ReadOp) :
    SameResult sb.readOffset (op.exec.run (rawAt mem pos)) (op.exec.run (ofSimple sb (sb.readOffset + pos))) ↔
      op.Alike len.toNat sb.readOffset.toNat pos.toNat := by
  cases op with
  | skip k => exact sameResult_skip_iff
  | int type => exact sameResult_read_iff nofun wf room
  | readString => exact sameResult_read_iff nofun wf room
  | readStringObj => exact sameResult_read_iff nofun wf room
  | readData => exact sameResult_read_iff nofun wf room

/-- Two reads that are alike leave both streams where they were. -/
theorem after_read (reads : ∀ k, op ≠ .skip k) (beyond : len.toNat < (pos.toNat + op.width) % 2 ^ 32)
    (nonzero : (sb.readOffset.toNat + pos.toNat + op.width) % 2 ^ 32 ≠ 0) : ∃ pos' : UInt32,
    op.after (rawAt mem pos) = some (rawAt mem pos') ∧
      op.after (ofSimple sb (sb.readOffset + pos)) = some (ofSimple sb (sb.readOffset + pos')) ∧
      pos'.toNat = pos.toNat := by
  have count : (UInt32.ofNat op.width).toNat = op.width := UInt32.toNat_ofNat_of_lt' op.width_lt
  have raw := readByte_over mem (count.symm ▸ beyond :
    len.toNat < (pos.toNat + (UInt32.ofNat op.width).toNat) % 2 ^ 32)
  have simple : sb.readOffset + pos + UInt32.ofNat op.width > 0 := by
    rw [ofSimple_beyond, UInt32.toNat_add, count, Nat.mod_add_mod]
    exact nonzero
  unfold ReadOp.after
  rw [ReadOp.exec_of_error reads raw,
    ReadOp.exec_of_error reads (readByte_throws (s := ofSimple sb (sb.readOffset + pos)) simple)]
  exact ⟨pos, rfl, rfl, rfl⟩

/-- After calls that are alike the streams are at the same place again. -/
theorem ReadOp.Alike.after (mem : Block UInt8 len.toNat) (alike : op.Alike len.toNat sb.readOffset.toNat pos.toNat) : ∃ pos' : UInt32,
    op.after (rawAt mem pos) = some (rawAt mem pos') ∧
      op.after (ofSimple sb (sb.readOffset + pos)) = some (ofSimple sb (sb.readOffset + pos')) ∧
      pos'.toNat = op.next pos.toNat := by
  cases op with
  | skip k =>
    refine ⟨pos + k, skip_after _ k, ?_, UInt32.toNat_add pos k⟩
    rw [skip_after, ← UInt32.add_assoc]
    rfl
  | int type => exact after_read nofun alike.1 alike.2
  | readString => exact after_read nofun alike.1 alike.2
  | readStringObj => exact after_read nofun alike.1 alike.2
  | readData => exact after_read nofun alike.1 alike.2

theorem sameReads_iff (mem : Block UInt8 len.toNat) (pos : UInt32) (wf : sb.WF)
    (room : sb.readOffset.toNat + len.toNat < 2 ^ 32) (ops : List ReadOp) :
    SameReads sb.readOffset ops (rawAt mem pos) (ofSimple sb (sb.readOffset + pos)) ↔
      AllAlike len.toNat sb.readOffset.toNat pos.toNat ops := by
  induction ops generalizing pos with
  | nil => exact Iff.rfl
  | cons op ops ih =>
    unfold SameReads AllAlike
    rw [sameResult_iff wf room]
    refine and_congr_right fun alike => ?_
    obtain ⟨pos', raw, simple, moved⟩ := alike.after mem
    rw [← moved, ← ih pos']
    constructor
    · exact fun rest => rest _ _ raw simple
    · intro rest s' t' here there
      rw [raw] at here
      rw [simple] at there
      cases here
      cases there
      exact rest

end Step

/-! ## Every sequence of reads -/

/-- **The two backings agree** exactly when no call finds its bytes over the raw buffer: for all bytes, each
`SimpleBuffer` that holds them, and each sequence of reads. -/
theorem backings_agree_iff {sb : SimpleBuffer} {bytes : List UInt8} (wf : sb.WF) (holds : sb.content = bytes)
    (ops : List ReadOp) : SameReads sb.readOffset ops (ofBytes bytes) (ofSimple sb sb.readOffset) ↔
      AllAlike bytes.length sb.readOffset.toNat 0 ops := by
  have length := wf.length_content
  have ordered := wf.read_le
  have bound := sb.writeOffset.toNat_lt
  rw [holds] at length
  have size : bytes.length = (UInt32.ofNat bytes.length).toNat :=
    (UInt32.toNat_ofNat_of_lt' (show bytes.length < 2 ^ 32 by omega)).symm
  have same := sameReads_iff ⟨bytes, size⟩ 0 wf (by omega) ops
  rw [UInt32.add_zero] at same
  rw [ofBytes_eq size, same]
  exact Iff.of_eq (congrArg (AllAlike · sb.readOffset.toNat 0 ops) size.symm)

/-- Two bytes behind one that has been read, and three calls that want more than there is. -/
theorem backings_agree_beyond : SameReads 1 [.int .uint32, .skip 9, .readString] (ofBytes [5, 7])
    (ofSimple ⟨3, ⟨[3, 5, 7], rfl⟩, 3, 1⟩ 1) := by
  have wf : SimpleBuffer.WF ⟨3, ⟨[3, 5, 7], rfl⟩, 3, 1⟩ := ⟨by decide, by decide⟩
  exact (backings_agree_iff wf rfl _).mpr
    ⟨by unfold ReadOp.Alike; decide, by unfold ReadOp.Alike; decide, by unfold ReadOp.Alike; decide, trivial⟩

/-- One byte: it is read over the raw buffer, and over the `SimpleBuffer` the read throws. -/
theorem not_backings_agree :
    ¬ SameReads 0 [.int .uint8] (ofBytes [5]) (ofSimple ⟨1, ⟨[5], rfl⟩, 1, 0⟩ 0) := by
  rintro ⟨same, -⟩
  cases same

end Netter.CByteStream
