import Netter.ByteStream.Model

/-!
# Reads over a raw buffer

What each read does to the position and which bytes it touches. The end of a read is computed
modulo `2 ^ 32` before it is compared with the length, so there are three cases: the bytes fit
and the read is the obvious one; the reduced end is past the buffer and the read throws; or the
end wraps around to a place inside the buffer (`Wraps`), and the read goes wrong.
`safeRun_iff_cleanRun` says that this third case is the only way a run of reads goes wrong.
-/

namespace Netter.CByteStream

open Lib

/-- A read call of the class. -/
inductive ReadOp where
  | int (type : IntType)
  | skip (len : UInt32)
  | readString
  | readStringObj
  | readData

/-- What a read call gives its caller. -/
inductive ReadResult where
  | int (type : IntType) (data : type.Carrier)
  | unit
  | slice (range : Slice)
  | bytes (bytes : List UInt8)

def ReadOp.exec : ReadOp → StreamM ReadResult
  | .int type => return .int type (← type.get)
  | .skip len => do CByteStream.skip len; return .unit
  | .readString => return .slice (← CByteStream.readString)
  | .readStringObj => return .bytes (← CByteStream.readStringObj)
  | .readData => return .slice (← CByteStream.readData)

/-! ## One read -/

/-- The end of a read of `len` bytes at `pos` wraps around to a place inside `n` bytes. -/
def Wraps (n pos len : Nat) : Prop := 2 ^ 32 ≤ pos + len ∧ pos + len - 2 ^ 32 ≤ n

instance (n pos len : Nat) : Decidable (Wraps n pos len) := by unfold Wraps; infer_instance

/-- The three cases of the check `m_pos + len > m_len`. -/
theorem read_cases (n : Nat) {pos k : Nat} (start : pos < 2 ^ 32) (width : k < 2 ^ 32) :
    pos + k ≤ n ∨ n < (pos + k) % 2 ^ 32 ∨ Wraps n pos k := by
  unfold Wraps
  omega

theorem not_wraps_of_fits {n pos k : Nat} (bound : n < 2 ^ 32) (fits : pos + k ≤ n) :
    ¬ Wraps n pos k := by
  unfold Wraps; omega

theorem not_wraps_of_over {n pos k : Nat} (start : pos < 2 ^ 32) (width : k < 2 ^ 32)
    (beyond : n < (pos + k) % 2 ^ 32) : ¬ Wraps n pos k := by
  unfold Wraps; omega

theorem Wraps.not_fits {n pos k : Nat} (bound : n < 2 ^ 32) (wraps : Wraps n pos k) :
    ¬ pos + k ≤ n := by
  unfold Wraps at wraps; omega

/-- The length field at `pos`. -/
def lengthAt (bytes : List UInt8) (pos : Nat) : UInt32 :=
  UInt32.ofBitVec (BigEndian.ofBytes ((bytes.drop pos).take 4))

section Raw

variable {len : UInt32} (mem : Block UInt8 len.toNat) (pos : UInt32)

/-- The stream over the whole of `mem`, at position `pos`. -/
def rawAt : CByteStream := ⟨.raw mem, len, pos⟩

/-- A raw stream over exactly `len` bytes, with the size of its block spelled the other way. -/
theorem ofRaw_eq_rawAt {bytes : List UInt8} (size : bytes.length = len.toNat) :
    ofRaw (⟨bytes, rfl⟩ : Block UInt8 bytes.length) len = rawAt ⟨bytes, size⟩ 0 := by
  have same : ∀ n (h : bytes.length = n),
      Backing.raw (⟨bytes, rfl⟩ : Block UInt8 bytes.length) = .raw (⟨bytes, h⟩ : Block UInt8 n) := by
    rintro n rfl
    rfl
  simp only [ofRaw, rawAt]
  rw [same _ size]

theorem add_gt_iff (k : UInt32) : pos + k > len ↔ len.toNat < (pos.toNat + k.toNat) % 2 ^ 32 := by
  rw [gt_iff_lt, UInt32.lt_iff_toNat_lt, UInt32.toNat_add]

variable {pos}

theorem toNat_add_of_le {k : UInt32} (fits : pos.toNat + k.toNat ≤ len.toNat) :
    (pos + k).toNat = pos.toNat + k.toNat := by
  have := len.toNat_lt
  rw [UInt32.toNat_add]; omega

theorem readByte_fits {k : UInt32} (fits : pos.toNat + k.toNat ≤ len.toNat) :
    (readByte k).run (rawAt mem pos) =
      .ok ((mem.cells.drop pos.toNat).take k.toNat) (rawAt mem (pos + k)) := by
  have check : ¬ pos + k > len := by
    rw [add_gt_iff, ← UInt32.toNat_add, toNat_add_of_le fits]; omega
  have inside := mem.load_eq_some fits
  simp [readByte, rawAt, check, inside]

theorem readByte_over {k : UInt32} (beyond : len.toNat < (pos.toNat + k.toNat) % 2 ^ 32) :
    (readByte k).run (rawAt mem pos) =
      .error (.throws ⟨.parseFailed, "parase packet failed!"⟩) (rawAt mem pos) := by
  have check := (add_gt_iff pos k).mpr beyond
  simp [readByte, rawAt, check]

/-- The copy passes the check and ends past the buffer. -/
theorem readByte_wraps {k : UInt32} (wraps : Wraps len.toNat pos.toNat k.toNat) :
    (readByte k).run (rawAt mem pos) = .error .undefined (rawAt mem pos) := by
  obtain ⟨carry, low⟩ := wraps
  have := len.toNat_lt
  have := k.toNat_lt
  have := pos.toNat_lt
  have check : ¬ pos + k > len := by rw [add_gt_iff]; omega
  have outside : mem.load pos.toNat k.toNat = none :=
    load_eq_none (by rw [mem.size]; omega)
  simp [readByte, rawAt, check, outside]

/-- `Skip` throws after it has moved the position. -/
theorem skip_over {k : UInt32} (beyond : len.toNat < (pos.toNat + k.toNat) % 2 ^ 32) :
    (skip k).run (rawAt mem pos) =
      .error (.throws ⟨.parseFailed, "parse packet failed!"⟩) (rawAt mem (pos + k)) := by
  have check := (add_gt_iff pos k).mpr beyond
  simp [skip, rawAt, check]

theorem skip_moves {k : UInt32} (within : (pos.toNat + k.toNat) % 2 ^ 32 ≤ len.toNat) :
    (skip k).run (rawAt mem pos) = .ok () (rawAt mem (pos + k)) := by
  have check : ¬ pos + k > len := by rw [add_gt_iff]; omega
  simp [skip, rawAt, check]

theorem getWord_fits {k : Nat} (small : k < 2 ^ 32) (fits : pos.toNat + k ≤ len.toNat) :
    (getWord k).run (rawAt mem pos) =
      .ok (BigEndian.ofBytes ((mem.cells.drop pos.toNat).take k)) (rawAt mem (pos + UInt32.ofNat k)) := by
  have width : (UInt32.ofNat k).toNat = k := UInt32.toNat_ofNat_of_lt' small
  rw [← width] at fits
  simp only [getWord, bind_pure_comp, run_map, readByte_fits mem fits, width]

theorem getWord_over {k : Nat} (small : k < 2 ^ 32) (beyond : len.toNat < (pos.toNat + k) % 2 ^ 32) :
    (getWord k).run (rawAt mem pos) =
      .error (.throws ⟨.parseFailed, "parase packet failed!"⟩) (rawAt mem pos) := by
  have width : (UInt32.ofNat k).toNat = k := UInt32.toNat_ofNat_of_lt' small
  rw [← width] at beyond
  simp only [getWord, bind_pure_comp, run_map, readByte_over mem beyond]

theorem getWord_wraps {k : Nat} (small : k < 2 ^ 32) (wraps : Wraps len.toNat pos.toNat k) :
    (getWord k).run (rawAt mem pos) = .error .undefined (rawAt mem pos) := by
  have width : (UInt32.ofNat k).toNat = k := UInt32.toNat_ofNat_of_lt' small
  rw [← width] at wraps
  simp only [getWord, bind_pure_comp, run_map, readByte_wraps mem wraps]

theorem getUint32_fits (fits : pos.toNat + 4 ≤ len.toNat) :
    getUint32.run (rawAt mem pos) = .ok (lengthAt mem.cells pos.toNat) (rawAt mem (pos + 4)) := by
  have read := getWord_fits mem (by decide : 4 < 2 ^ 32) fits
  simp only [getUint32, bind_pure_comp, run_map, read]
  rfl

theorem readString_moves (fits : pos.toNat + 4 ≤ len.toNat)
    (within : ((pos + 4).toNat + (lengthAt mem.cells pos.toNat).toNat) % 2 ^ 32 ≤ len.toNat) :
    readString.run (rawAt mem pos) = .ok ⟨pos + 4, lengthAt mem.cells pos.toNat⟩
      (rawAt mem (pos + 4 + lengthAt mem.cells pos.toNat)) := by
  have read := getUint32_fits mem fits
  have moved := skip_moves mem within
  simp only [readString, getPos, bind_pure_comp, EStateM.run_bind, read, EStateM.run_get, run_map, moved]
  rfl

theorem readString_over (fits : pos.toNat + 4 ≤ len.toNat)
    (beyond : len.toNat < ((pos + 4).toNat + (lengthAt mem.cells pos.toNat).toNat) % 2 ^ 32) :
    readString.run (rawAt mem pos) = .error (.throws ⟨.parseFailed, "parse packet failed!"⟩)
      (rawAt mem (pos + 4 + lengthAt mem.cells pos.toNat)) := by
  have read := getUint32_fits mem fits
  have moved := skip_over mem beyond
  simp only [readString, getPos, bind_pure_comp, EStateM.run_bind, read, EStateM.run_get, run_map, moved]

end Raw

section Errors

variable {e : Stop} {s s' : CByteStream}

theorem readString_error (h : (getWord 4).run s = .error e s') : readString.run s = .error e s' := by
  simp only [readString, getUint32, bind_pure_comp, EStateM.run_bind, run_map, h]

theorem readStringObj_error (h : readString.run s = .error e s') : readStringObj.run s = .error e s' := by
  simp only [readStringObj, EStateM.run_bind, h]

end Errors

/-! ## Safe reads -/

/-- The handed back range lies in the first `n` bytes. -/
def ReadResult.Within (n : Nat) : ReadResult → Prop
  | .slice range => range.off.toNat + range.len.toNat ≤ n
  | _ => True

/-- All bytes the call asks for lie in the buffer. -/
def ReadOp.Fits (s : CByteStream) : ReadOp → Prop
  | .int type => s.pos.toNat + type.bytes ≤ s.len.toNat
  | .skip len => s.pos.toNat + len.toNat ≤ s.len.toNat
  | _ => s.pos.toNat + 4 + (lengthAt s.getBuf s.pos.toNat).toNat ≤ s.len.toNat

/-- The position, or the position after the length field, wraps around into the buffer. -/
def ReadOp.WrapsAt (s : CByteStream) : ReadOp → Prop
  | .int type => Wraps s.len.toNat s.pos.toNat type.bytes
  | .skip len => Wraps s.len.toNat s.pos.toNat len.toNat
  | _ => Wraps s.len.toNat s.pos.toNat 4 ∨ s.pos.toNat + 4 ≤ s.len.toNat ∧
      Wraps s.len.toNat (s.pos.toNat + 4) (lengthAt s.getBuf s.pos.toNat).toNat

/-- What the buffer's owner relies on. Copies outside the buffer are undefined behaviour. -/
structure ReadSafe (op : ReadOp) (s : CByteStream) : Prop where
  copies : ∀ s', op.exec.run s ≠ .error .undefined s'
  moves : ∀ r s', op.exec.run s = .ok r s' → s.pos ≤ s'.pos ∧ s'.pos ≤ s.len ∧ r.Within s.len.toNat
  throws : ¬ op.Fits s → ∃ ex s', op.exec.run s = .error (.throws ex) s'

/-- The state the reads go on from: after a result, or after an exception that was caught. -/
def ReadOp.after (op : ReadOp) (s : CByteStream) : Option CByteStream :=
  match op.exec.run s with
  | .ok _ s' => some s'
  | .error (.throws _) s' => some s'
  | .error .undefined _ => none

/-- Every read of the sequence is safe in the state it starts from. -/
def SafeRun : List ReadOp → CByteStream → Prop
  | [], _ => True
  | op :: ops, s => ReadSafe op s ∧ ∀ s', op.after s = some s' → SafeRun ops s'

/-- No read of the sequence wraps around in the state it starts from. -/
def CleanRun : List ReadOp → CByteStream → Prop
  | [], _ => True
  | op :: ops, s => ¬ op.WrapsAt s ∧ ∀ s', op.after s = some s' → CleanRun ops s'

/-- The three ways a read over a raw buffer ends. -/
inductive ReadCase (op : ReadOp) {len : UInt32} (mem : Block UInt8 len.toNat) (pos : UInt32) : Prop where
  | fits (r : ReadResult) (pos' : UInt32) (run : op.exec.run (rawAt mem pos) = .ok r (rawAt mem pos'))
      (clean : ¬ op.WrapsAt (rawAt mem pos)) (fits : op.Fits (rawAt mem pos))
      (lower : pos ≤ pos') (upper : pos' ≤ len) (within : r.Within len.toNat)
  | beyond (ex : PktException) (pos' : UInt32)
      (run : op.exec.run (rawAt mem pos) = .error (.throws ex) (rawAt mem pos'))
      (clean : ¬ op.WrapsAt (rawAt mem pos))
  | wraps (pos' : UInt32) (run : op.exec.run (rawAt mem pos) = .error .undefined (rawAt mem pos') ∨
        ∃ r, op.exec.run (rawAt mem pos) = .ok r (rawAt mem pos'))
      (wraps : op.WrapsAt (rawAt mem pos)) (beyond : ¬ op.Fits (rawAt mem pos))

section Cases

variable {len : UInt32} (mem : Block UInt8 len.toNat) (pos : UInt32)

theorem int_case (type : IntType) : ReadCase (.int type) mem pos := by
  have bound := len.toNat_lt
  have start := pos.toNat_lt
  have small := type.bytes_le
  have word : type.bytes < 2 ^ 32 := by omega
  have exec : ReadOp.exec (.int type) = ReadResult.int type <$> type.ofBits <$> getWord type.bytes := by
    simp only [ReadOp.exec, bind_pure_comp, IntType.get_eq]
  rcases read_cases len.toNat start word with fits | beyond | wraps
  · have moved : (pos + UInt32.ofNat type.bytes).toNat = pos.toNat + type.bytes := by
      rw [UInt32.toNat_add, UInt32.toNat_ofNat_of_lt' word]; omega
    exact .fits (.int type _) _ (by rw [exec, run_map, run_map, getWord_fits mem word fits])
      (not_wraps_of_fits bound fits) fits (by rw [UInt32.le_iff_toNat_le]; omega)
      (by rw [UInt32.le_iff_toNat_le]; omega) trivial
  · exact .beyond _ pos (by rw [exec, run_map, run_map, getWord_over mem word beyond])
      (not_wraps_of_over start word beyond)
  · exact .wraps pos (.inl (by rw [exec, run_map, run_map, getWord_wraps mem word wraps])) wraps
      (wraps.not_fits bound)

theorem skip_case (k : UInt32) : ReadCase (.skip k) mem pos := by
  have bound := len.toNat_lt
  have start := pos.toNat_lt
  have width := k.toNat_lt
  have exec : ReadOp.exec (.skip k) = (fun _ => ReadResult.unit) <$> skip k := by
    simp only [ReadOp.exec, bind_pure_comp]
  rcases read_cases len.toNat start width with fits | beyond | wraps
  · have moved := toNat_add_of_le fits
    exact .fits .unit _ (by rw [exec, run_map, skip_moves mem (by omega)]) (not_wraps_of_fits bound fits)
      fits (by rw [UInt32.le_iff_toNat_le]; omega) (by rw [UInt32.le_iff_toNat_le]; omega) trivial
  · exact .beyond _ _ (by rw [exec, run_map, skip_over mem beyond])
      (not_wraps_of_over start width beyond)
  · exact .wraps _ (.inr ⟨_, by rw [exec, run_map, skip_moves mem (by unfold Wraps at wraps; omega)]⟩)
      wraps (wraps.not_fits bound)

/-- `readString` in the same three cases. -/
inductive StringCase : Prop where
  | fits (run : readString.run (rawAt mem pos) = .ok ⟨pos + 4, lengthAt mem.cells pos.toNat⟩
        (rawAt mem (pos + 4 + lengthAt mem.cells pos.toNat)))
      (fits : pos.toNat + 4 + (lengthAt mem.cells pos.toNat).toNat ≤ len.toNat)
      (header : (pos + 4).toNat = pos.toNat + 4)
      (body : (pos + 4 + lengthAt mem.cells pos.toNat).toNat =
        pos.toNat + 4 + (lengthAt mem.cells pos.toNat).toNat)
      (clean : ¬ ReadOp.readString.WrapsAt (rawAt mem pos))
  | beyond (ex : PktException) (pos' : UInt32)
      (run : readString.run (rawAt mem pos) = .error (.throws ex) (rawAt mem pos'))
      (clean : ¬ ReadOp.readString.WrapsAt (rawAt mem pos))
  | wraps (pos' : UInt32) (run : readString.run (rawAt mem pos) = .error .undefined (rawAt mem pos') ∨
        (pos + 4).toNat = pos.toNat + 4 ∧
          readString.run (rawAt mem pos) = .ok ⟨pos + 4, lengthAt mem.cells pos.toNat⟩ (rawAt mem pos'))
      (wraps : ReadOp.readString.WrapsAt (rawAt mem pos))
      (beyond : len.toNat < pos.toNat + 4 + (lengthAt mem.cells pos.toNat).toNat)

theorem string_case : StringCase mem pos := by
  have bound := len.toNat_lt
  have start := pos.toNat_lt
  have count := (lengthAt mem.cells pos.toNat).toNat_lt
  rcases read_cases len.toNat start (by decide : 4 < 2 ^ 32) with header | beyond | wraps
  · have moved : (pos + 4).toNat = pos.toNat + 4 := by
      rw [UInt32.toNat_add, show (4 : UInt32).toNat = 4 from rfl]; omega
    have clean := not_wraps_of_fits bound header
    have body := read_cases len.toNat (pos + 4).toNat_lt count
    rw [moved] at body
    rcases body with fits | beyond | wraps
    · refine .fits (readString_moves mem header (by omega)) fits moved
        (by rw [UInt32.toNat_add, moved]; omega) ?_
      rintro (first | ⟨-, second⟩)
      · exact clean first
      · exact not_wraps_of_fits bound fits second
    · refine .beyond _ _ (readString_over mem header (by omega)) ?_
      rintro (first | ⟨-, second⟩)
      · exact clean first
      · exact not_wraps_of_over (by omega) count beyond second
    · exact .wraps _ (.inr ⟨moved, readString_moves mem header (by unfold Wraps at wraps; omega)⟩)
        (.inr ⟨header, wraps⟩) (by unfold Wraps at wraps; omega)
  · refine .beyond _ _ (readString_error (getWord_over mem (by decide) beyond)) ?_
    rintro (first | ⟨header, -⟩)
    · exact not_wraps_of_over start (by decide) beyond first
    · change pos.toNat + 4 ≤ len.toNat at header
      omega
  · exact .wraps _ (.inl (readString_error (getWord_wraps mem (by decide) wraps))) (.inl wraps)
      (by unfold Wraps at wraps; omega)

theorem readString_case : ReadCase .readString mem pos := by
  have exec : ReadOp.exec .readString = ReadResult.slice <$> readString := by
    simp only [ReadOp.exec, bind_pure_comp]
  cases string_case mem pos with
  | fits run fits header body clean =>
    exact .fits (.slice _) _ (by rw [exec, run_map, run]) clean fits
      (by rw [UInt32.le_iff_toNat_le]; omega) (by rw [UInt32.le_iff_toNat_le]; omega)
      (by show (pos + 4).toNat + (lengthAt mem.cells pos.toNat).toNat ≤ len.toNat; omega)
  | beyond ex pos' run clean => exact .beyond ex pos' (by rw [exec, run_map, run]) clean
  | wraps pos' run wraps beyond =>
    refine .wraps pos' ?_ wraps (Nat.not_le_of_lt beyond)
    rcases run with run | ⟨-, run⟩
    · exact .inl (by rw [exec, run_map, run])
    · exact .inr ⟨_, by rw [exec, run_map, run]⟩

theorem readStringObj_run {slice : Slice} {pos' : UInt32}
    (run : readString.run (rawAt mem pos) = .ok slice (rawAt mem pos')) :
    readStringObj.run (rawAt mem pos) =
      (orUndefined (mem.load slice.off.toNat slice.len.toNat)).run (rawAt mem pos') := by
  simp only [readStringObj, EStateM.run_bind, run, EStateM.run_get]
  rfl

/-- `ReadString(string&)` copies the bytes it skipped, so a wrapped length is an overrun here. -/
theorem readStringObj_case : ReadCase .readStringObj mem pos := by
  have bound := len.toNat_lt
  have exec : ReadOp.exec .readStringObj = ReadResult.bytes <$> readStringObj := by
    simp only [ReadOp.exec, bind_pure_comp]
  cases string_case mem pos with
  | fits run fits header body clean =>
    have inside := mem.load_eq_some (header.symm ▸ fits :
      (pos + 4).toNat + (lengthAt mem.cells pos.toNat).toNat ≤ len.toNat)
    exact .fits (.bytes _) _ (by rw [exec, run_map, readStringObj_run mem pos run, inside,
      run_orUndefined_some]) clean fits (by rw [UInt32.le_iff_toNat_le]; omega)
      (by rw [UInt32.le_iff_toNat_le]; omega) trivial
  | beyond ex pos' run clean =>
    exact .beyond ex pos' (by rw [exec, run_map, readStringObj_error run]) clean
  | wraps pos' run wraps beyond =>
    refine .wraps pos' (.inl ?_) wraps (Nat.not_le_of_lt beyond)
    rcases run with run | ⟨header, run⟩
    · rw [exec, run_map, readStringObj_error run]
    · have outside : mem.load (pos + 4).toNat (lengthAt mem.cells pos.toNat).toNat = none :=
        load_eq_none (by rw [mem.size]; omega)
      rw [exec, run_map, readStringObj_run mem pos run, outside, run_orUndefined_none]

theorem readData_case : ReadCase .readData mem pos := by
  cases readString_case mem pos with
  | fits r pos' run clean fits lower upper within =>
    exact .fits r pos' run clean fits lower upper within
  | beyond ex pos' run clean => exact .beyond ex pos' run clean
  | wraps pos' run wraps beyond => exact .wraps pos' run wraps beyond

theorem read_case (op : ReadOp) : ReadCase op mem pos := by
  cases op with
  | int width => exact int_case mem pos width
  | skip k => exact skip_case mem pos k
  | readString => exact readString_case mem pos
  | readStringObj => exact readStringObj_case mem pos
  | readData => exact readData_case mem pos

/-- A read is safe exactly when its end does not wrap around into the buffer. -/
theorem readSafe_iff (op : ReadOp) : ReadSafe op (rawAt mem pos) ↔ ¬ op.WrapsAt (rawAt mem pos) := by
  cases read_case mem pos op with
  | fits r pos' run clean fits lower upper within =>
    refine ⟨fun _ => clean, fun _ => ⟨fun s' h => ?_, fun r' s' h => ?_, fun misfit => absurd fits misfit⟩⟩
    · rw [run] at h; cases h
    · rw [run] at h; cases h
      exact ⟨lower, upper, within⟩
  | beyond ex pos' run clean =>
    refine ⟨fun _ => clean, fun _ => ⟨fun s' h => ?_, fun r' s' h => ?_, fun _ => ⟨ex, _, run⟩⟩⟩
    · rw [run] at h; cases h
    · rw [run] at h; cases h
  | wraps pos' run wraps beyond =>
    refine ⟨fun safe => ?_, fun clean => absurd wraps clean⟩
    obtain ⟨ex, s', thrown⟩ := safe.throws beyond
    rcases run with run | ⟨r, run⟩ <;> rw [run] at thrown <;> cases thrown

/-- Reads never change the buffer of a raw stream. -/
theorem after_raw {op : ReadOp} {s' : CByteStream} (h : op.after (rawAt mem pos) = some s') :
    ∃ pos', s' = rawAt mem pos' := by
  unfold ReadOp.after at h
  cases read_case mem pos op with
  | fits r pos' run => rw [run] at h; cases h; exact ⟨pos', rfl⟩
  | beyond ex pos' run => rw [run] at h; cases h; exact ⟨pos', rfl⟩
  | wraps pos' run => rcases run with run | ⟨r, run⟩ <;> rw [run] at h <;> cases h; exact ⟨pos', rfl⟩

theorem safeRun_rawAt_iff (ops : List ReadOp) :
    SafeRun ops (rawAt mem pos) ↔ CleanRun ops (rawAt mem pos) := by
  induction ops generalizing pos with
  | nil => exact Iff.rfl
  | cons op ops ih =>
    unfold SafeRun CleanRun
    refine and_congr (readSafe_iff mem pos op) (forall₂_congr fun s' h => ?_)
    obtain ⟨pos', rfl⟩ := after_raw mem pos h
    exact ih pos'

end Cases

/-- **Reads over a raw buffer.** Whatever the bytes and the calls are, every read of the
sequence is safe exactly when none of them wraps around. -/
theorem safeRun_iff_cleanRun (len : UInt32) (mem : Block UInt8 len.toNat) (ops : List ReadOp) :
    SafeRun ops (ofRaw mem len) ↔ CleanRun ops (ofRaw mem len) :=
  safeRun_rawAt_iff mem 0 ops

/-- Eight bytes whose length field is `0xFFFFFFFF`: `ReadString` reports 4 GB at offset 4. -/
theorem readString_unsafe :
    ¬ ∀ (len : UInt32) (mem : Block UInt8 len.toNat) (ops : List ReadOp), SafeRun ops (ofRaw mem len) := by
  intro safe
  have run := (safe 8 ⟨[255, 255, 255, 255, 0, 0, 0, 0], rfl⟩ [.readString]).1.moves
    (.slice ⟨4, 0xFFFFFFFF⟩) ⟨.raw ⟨[255, 255, 255, 255, 0, 0, 0, 0], rfl⟩, 8, 3⟩ rfl
  have inside : (4 : UInt32).toNat + (0xFFFFFFFF : UInt32).toNat ≤ (8 : UInt32).toNat := run.2.2
  exact absurd inside (by decide)

end Netter.CByteStream
