import Netter.ByteStream.Bounds

/-!
# Decoding undoes encoding

Fields written to a stream over a `SimpleBuffer` and read back, each with the calls that match,
from a raw stream over the bytes that were written. `pieces` are the `_WriteByte` calls of a
field; the writing half of the proof works on pieces, the reading half on fields.
-/

namespace Netter.CByteStream

open Lib

/-- The two overloads of `WriteString` and of `ReadString`. -/
inductive StringCall where
  | pointer
  | object

/-- A value with the call that writes it and the call that reads it. -/
inductive Field where
  | int (type : IntType) (value : type.Carrier)
  | string (value : List UInt8) (writer reader : StringCall)
  | data (value : List UInt8)

/-- The calls of a field without its value. -/
inductive FieldType where
  | int (type : IntType)
  | string (writer reader : StringCall)
  | data

def Field.type : Field → FieldType
  | .int type _ => .int type
  | .string _ writer reader => .string writer reader
  | .data _ => .data

def Field.write : Field → StreamM Unit
  | .int type value => type.put value
  | .string value .pointer _ => writeStringLen value (UInt32.ofNat value.length)
  | .string value .object _ => writeString value
  | .data value => writeData value (UInt32.ofNat value.length)

/-- What a caller finds at the pointer it was handed. -/
def fetch (range : Slice) : StreamM (List UInt8) := do
  orUndefined (load (← get).getBuf range.off.toNat range.len.toNat)

def FieldType.read : FieldType → StreamM Field
  | .int type => return .int type (← type.get)
  | .string writer .pointer => return .string (← fetch (← readString)) writer .pointer
  | .string writer .object => return .string (← readStringObj) writer .object
  | .data => return .data (← fetch (← readData))

def writeAll : List Field → StreamM Unit
  | [] => return
  | f :: fs => do f.write; writeAll fs

def readAll : List FieldType → StreamM (List Field)
  | [] => return []
  | t :: ts => return (← t.read) :: (← readAll ts)

/-- The byte strings a field hands to `_WriteByte`. -/
def Field.pieces : Field → List (List UInt8)
  | .int type value => [BigEndian.toBytes type.bytes (type.bits value)]
  | .string value _ _ | .data value =>
    [BigEndian.toBytes 4 (UInt32.ofNat value.length).toBitVec, value]

/-- The bytes of a field on the wire. -/
def Field.encode (f : Field) : List UInt8 := f.pieces.flatten

def encodeAll (fs : List Field) : List UInt8 := fs.flatMap Field.encode

/-! ## Writing -/

def writePieces : List (List UInt8) → StreamM Unit
  | [] => return
  | p :: ps => do writeByte p (UInt32.ofNat p.length); writePieces ps

/-- No `Write` of the pieces wraps an offset or a size of the buffer it finds. -/
def NoWrapAll : List (List UInt8) → SimpleBuffer → Prop
  | [], _ => True
  | p :: ps, sb => sb.NoWrap p.length ∧
      ∀ sb', sb.write (some p) (UInt32.ofNat p.length) = some sb' → NoWrapAll ps sb'

theorem writePieces_append (ps qs : List (List UInt8)) :
    writePieces (ps ++ qs) = writePieces ps >>= fun _ => writePieces qs := by
  induction ps with
  | nil => rfl
  | cons p ps ih => simp only [List.cons_append, writePieces, ih, bind_assoc]

theorem Field.write_eq (f : Field) : f.write = writePieces f.pieces := by
  cases f with
  | int type value =>
    simp only [Field.write, Field.pieces, writePieces, IntType.put_eq, BigEndian.length_toBytes,
      bind_pure_unit]
  | string value writer reader =>
    cases writer <;>
    · simp only [Field.write, writeString, writeStringLen, Field.pieces, writePieces, bind_pure_unit,
        BigEndian.length_toBytes]
      rfl
  | data value =>
    simp only [Field.write, writeData, writeStringLen, Field.pieces, writePieces, bind_pure_unit,
      BigEndian.length_toBytes]
    rfl

theorem writeAll_eq (fs : List Field) : writeAll fs = writePieces (fs.flatMap Field.pieces) := by
  induction fs with
  | nil => rfl
  | cons f fs ih => rw [writeAll, Field.write_eq, ih, List.flatMap_cons, writePieces_append]

/-- The stream over `sb` whose position is the buffer's write offset. -/
def simpleAt (sb : SimpleBuffer) : CByteStream := ofSimple sb sb.writeOffset

theorem writeByte_simpleAt {sb : SimpleBuffer} {p : List UInt8} (wf : sb.WF) (room : sb.NoWrap p.length) :
    ∃ sb', sb.write (some p) (UInt32.ofNat p.length) = some sb' ∧
      (writeByte p (UInt32.ofNat p.length)).run (simpleAt sb) = .ok () (simpleAt sb') ∧
      sb'.WF ∧ sb'.content = sb.content ++ p ∧ sb'.readOffset = sb.readOffset ∧
      sb'.writeOffset.toNat = sb.writeOffset.toNat + p.length := by
  have sum := room.sum
  have small : p.length < 2 ^ 32 := by omega
  have count : (UInt32.ofNat p.length).toNat = p.length := UInt32.toNat_ofNat_of_lt' small
  obtain ⟨sb', written, wf', queue, front, moved⟩ := SimpleBuffer.write_spec wf count room
  have pos : sb.writeOffset + UInt32.ofNat p.length = sb'.writeOffset := by
    apply UInt32.toNat_inj.mp
    rw [UInt32.toNat_add, count, moved]; omega
  refine ⟨sb', written, ?_, wf', queue, front, moved⟩
  simp [writeByte, simpleAt, ofSimple, written, pos]

theorem writePieces_spec {ps : List (List UInt8)} {sb : SimpleBuffer} (wf : sb.WF) (room : NoWrapAll ps sb) :
    ∃ sb', (writePieces ps).run (simpleAt sb) = .ok () (simpleAt sb') ∧ sb'.WF ∧
      sb'.content = sb.content ++ ps.flatten ∧ sb'.readOffset = sb.readOffset ∧
      sb'.writeOffset.toNat = sb.writeOffset.toNat + ps.flatten.length := by
  induction ps generalizing sb with
  | nil => exact ⟨sb, rfl, wf, by simp, rfl, by simp⟩
  | cons p ps ih =>
    obtain ⟨mid, written, run, wf', queue, front, moved⟩ := writeByte_simpleAt wf room.1
    obtain ⟨sb', rest, wf'', queue', front', moved'⟩ := ih wf' (room.2 mid written)
    refine ⟨sb', ?_, wf'', ?_, front'.trans front, ?_⟩
    · simp only [writePieces, EStateM.run_bind, run, rest]
    · rw [queue', queue, List.flatten_cons, List.append_assoc]
    · rw [moved', moved, List.flatten_cons, List.length_append]; omega

theorem NoWrapAll.left {ps qs : List (List UInt8)} {sb : SimpleBuffer} (room : NoWrapAll (ps ++ qs) sb) :
    NoWrapAll ps sb := by
  induction ps generalizing sb with
  | nil => trivial
  | cons p ps ih => exact ⟨room.1, fun sb' written => ih (room.2 sb' written)⟩

/-- Nothing wraps when five quarters of the final offset fit into 32 bits. -/
theorem NoWrapAll.of_bound {ps : List (List UInt8)} {sb : SimpleBuffer} (wf : sb.WF)
    (bound : sb.writeOffset.toNat + ps.flatten.length +
      (sb.writeOffset.toNat + ps.flatten.length) / 4 < 2 ^ 32) : NoWrapAll ps sb := by
  induction ps generalizing sb with
  | nil => trivial
  | cons p ps ih =>
    rw [List.flatten_cons, List.length_append] at bound
    have room : sb.NoWrap p.length := ⟨by omega, fun _ => by omega⟩
    refine ⟨room, fun sb' written => ?_⟩
    obtain ⟨mid, same, -, wf', -, -, moved⟩ := writeByte_simpleAt wf room
    rw [written] at same
    cases same
    exact ih wf' (by omega)

/-! ## Reading -/

section Reading

variable {len : UInt32} (mem : Block UInt8 len.toNat) {pos : UInt32}

theorem length_drop_mem {bytes : List UInt8} (here : mem.cells.drop pos.toNat = bytes)
    (start : pos.toNat ≤ len.toNat) : pos.toNat + bytes.length = len.toNat := by
  have total := congrArg List.length here
  rw [List.length_drop, mem.size] at total
  omega

theorem getWord_encoded {k : Nat} {v : BitVec (8 * k)} {rest : List UInt8} (small : k < 2 ^ 32)
    (start : pos.toNat ≤ len.toNat)
    (here : mem.cells.drop pos.toNat = BigEndian.toBytes k v ++ rest) :
    (getWord k).run (rawAt mem pos) = .ok v (rawAt mem (pos + UInt32.ofNat k)) := by
  have total := length_drop_mem mem here start
  rw [List.length_append, BigEndian.length_toBytes] at total
  rw [getWord_fits mem small (by omega), here, List.take_left' (BigEndian.length_toBytes k v),
    BigEndian.ofBytes_toBytes k v rfl]

theorem lengthAt_encoded {v : UInt32} {rest : List UInt8}
    (here : mem.cells.drop pos.toNat = BigEndian.toBytes 4 v.toBitVec ++ rest) :
    lengthAt mem.cells pos.toNat = v := by
  rw [lengthAt, here, List.take_left' (BigEndian.length_toBytes 4 _),
    BigEndian.ofBytes_toBytes 4 v.toBitVec rfl]

/-- A length-prefixed field is handed back where its bytes are. -/
theorem readString_encoded {value rest : List UInt8} (start : pos.toNat ≤ len.toNat)
    (here : mem.cells.drop pos.toNat =
      BigEndian.toBytes 4 (UInt32.ofNat value.length).toBitVec ++ value ++ rest) :
    ∃ range, readString.run (rawAt mem pos) =
        .ok range (rawAt mem (pos + UInt32.ofNat (4 + value.length))) ∧
      mem.load range.off.toNat range.len.toNat = some value := by
  have bound := len.toNat_lt
  have total := length_drop_mem mem here start
  simp only [List.length_append, BigEndian.length_toBytes] at total
  have small : value.length < 2 ^ 32 := by omega
  have count : (UInt32.ofNat value.length).toNat = value.length := UInt32.toNat_ofNat_of_lt' small
  have field := lengthAt_encoded mem (by rw [here, List.append_assoc])
  have header : (pos + 4).toNat = pos.toNat + 4 := by
    rw [UInt32.toNat_add, show (4 : UInt32).toNat = 4 from rfl]; omega
  have run := readString_moves mem (by omega : pos.toNat + 4 ≤ len.toNat)
    (by rw [field, header, count]; omega)
  have next : mem.cells.drop (pos.toNat + 4) = value ++ rest := by
    rw [← List.drop_drop, here, List.append_assoc, List.drop_left' (BigEndian.length_toBytes 4 _)]
  rw [field] at run
  refine ⟨⟨pos + 4, UInt32.ofNat value.length⟩, ?_, ?_⟩
  · rw [run, UInt32.ofNat_add, UInt32.add_assoc]
    rfl
  · show mem.load (pos + 4).toNat (UInt32.ofNat value.length).toNat = some value
    rw [header, count, mem.load_eq_some (by omega), next, List.take_left]

/-- A length-prefixed field that is cut off throws, inside the length or inside the bytes. -/
theorem readString_cut {value : List UInt8} {j : Nat} (start : pos.toNat ≤ len.toNat)
    (small : pos.toNat + 4 + value.length < 2 ^ 32) (short : j < 4 + value.length)
    (cut : mem.cells.drop pos.toNat =
      (BigEndian.toBytes 4 (UInt32.ofNat value.length).toBitVec ++ value).take j) :
    ∃ ex s', readString.run (rawAt mem pos) = .error (.throws ex) s' := by
  have total := length_drop_mem mem cut start
  simp only [List.length_take, List.length_append, BigEndian.length_toBytes] at total
  by_cases header : 4 ≤ j
  · have count : (UInt32.ofNat value.length).toNat = value.length :=
      UInt32.toNat_ofNat_of_lt' (show value.length < 2 ^ 32 by omega)
    have field : lengthAt mem.cells pos.toNat = UInt32.ofNat value.length := by
      apply lengthAt_encoded mem
      rw [cut, List.take_append, List.take_of_length_le (by rw [BigEndian.length_toBytes]; omega)]
    have moved : (pos + 4).toNat = pos.toNat + 4 := by
      rw [UInt32.toNat_add, show (4 : UInt32).toNat = 4 from rfl]; omega
    exact ⟨_, _, readString_over mem (by omega) (by rw [field, moved, count]; omega)⟩
  · exact ⟨_, _, readString_error (getWord_over mem (by decide) (by omega))⟩

theorem fetch_rawAt (range : Slice) :
    (fetch range).run (rawAt mem pos) =
      (orUndefined (mem.load range.off.toNat range.len.toNat)).run (rawAt mem pos) := rfl

/-- A field that is there in full reads back. -/
theorem read_encoded {f : Field} {rest : List UInt8} (start : pos.toNat ≤ len.toNat)
    (here : mem.cells.drop pos.toNat = f.encode ++ rest) :
    f.type.read.run (rawAt mem pos) = .ok f (rawAt mem (pos + UInt32.ofNat f.encode.length)) := by
  cases f with
  | int type value =>
    have small : type.bytes < 2 ^ 32 := by have := type.bytes_le; omega
    simp only [Field.encode, Field.pieces, List.flatten_cons, List.flatten_nil, List.append_nil] at here
    have word := getWord_encoded mem small start here
    simp [Field.type, FieldType.read, IntType.get_eq, word, IntType.ofBits_bits, Field.encode,
      Field.pieces]
  | string value writer reader =>
    simp only [Field.encode, Field.pieces, List.flatten_cons, List.flatten_nil, List.append_nil] at here
    obtain ⟨range, run, found⟩ := readString_encoded mem start here
    cases reader with
    | pointer =>
      simp [Field.type, FieldType.read, run, fetch_rawAt, found, Field.encode, Field.pieces]
    | object =>
      simp [Field.type, FieldType.read, readStringObj_run mem pos run, found, Field.encode, Field.pieces]
  | data value =>
    simp only [Field.encode, Field.pieces, List.flatten_cons, List.flatten_nil, List.append_nil] at here
    obtain ⟨range, run, found⟩ := readString_encoded mem start here
    simp [Field.type, FieldType.read, readData, run, fetch_rawAt, found, Field.encode, Field.pieces]

/-- A field that is cut off throws. -/
theorem read_cut {f : Field} {j : Nat} (start : pos.toNat ≤ len.toNat)
    (small : pos.toNat + f.encode.length < 2 ^ 32) (short : j < f.encode.length)
    (cut : mem.cells.drop pos.toNat = f.encode.take j) :
    ∃ ex s', f.type.read.run (rawAt mem pos) = .error (.throws ex) s' := by
  cases f with
  | int type value =>
    simp only [Field.encode, Field.pieces, List.flatten_cons, List.flatten_nil, List.append_nil,
      BigEndian.length_toBytes] at cut small short
    have total := length_drop_mem mem cut start
    simp only [List.length_take, BigEndian.length_toBytes] at total
    have word := getWord_over mem (by omega : type.bytes < 2 ^ 32)
      (by omega : len.toNat < (pos.toNat + type.bytes) % 2 ^ 32)
    exact ⟨⟨.parseFailed, "parase packet failed!"⟩, rawAt mem pos, by
      simp only [Field.type, FieldType.read, IntType.get_eq, bind_pure_comp, run_map, word]⟩
  | string value writer reader =>
    simp only [Field.encode, Field.pieces, List.flatten_cons, List.flatten_nil, List.append_nil,
      List.length_append, BigEndian.length_toBytes] at cut small short
    obtain ⟨ex, s', run⟩ := readString_cut mem start (by omega) short cut
    cases reader with
    | pointer => exact ⟨ex, s', by simp [Field.type, FieldType.read, run]⟩
    | object => exact ⟨ex, s', by simp [Field.type, FieldType.read, readStringObj_error run]⟩
  | data value =>
    simp only [Field.encode, Field.pieces, List.flatten_cons, List.flatten_nil, List.append_nil,
      List.length_append, BigEndian.length_toBytes] at cut small short
    obtain ⟨ex, s', run⟩ := readString_cut mem start (by omega) short cut
    exact ⟨ex, s', by simp [Field.type, FieldType.read, readData, run]⟩

theorem readAll_encoded {fs : List Field} {rest : List UInt8} (start : pos.toNat ≤ len.toNat)
    (here : mem.cells.drop pos.toNat = encodeAll fs ++ rest) :
    (readAll (fs.map Field.type)).run (rawAt mem pos) =
      .ok fs (rawAt mem (pos + UInt32.ofNat (encodeAll fs).length)) := by
  induction fs generalizing pos with
  | nil => simp [readAll, encodeAll]
  | cons f fs ih =>
    have bound := len.toNat_lt
    have total := length_drop_mem mem here start
    simp only [encodeAll, List.flatMap_cons, List.append_assoc, List.length_append] at here total
    have first := read_encoded mem start here
    have moved : (pos + UInt32.ofNat f.encode.length).toNat = pos.toNat + f.encode.length := by
      rw [UInt32.toNat_add, UInt32.toNat_ofNat_of_lt' (show f.encode.length < 2 ^ 32 by omega)]; omega
    have next : mem.cells.drop (pos + UInt32.ofNat f.encode.length).toNat = encodeAll fs ++ rest := by
      rw [moved, ← List.drop_drop, here, List.drop_left]
      rfl
    have others := ih (by omega) next
    simp only [List.map_cons, readAll, EStateM.run_bind, first, others, bind_pure_comp, run_map]
    simp only [encodeAll, List.flatMap_cons, List.length_append, UInt32.ofNat_add, UInt32.add_assoc]

theorem readAll_cut {fs : List Field} {j : Nat} (start : pos.toNat ≤ len.toNat)
    (small : pos.toNat + (encodeAll fs).length < 2 ^ 32) (short : j < (encodeAll fs).length)
    (cut : mem.cells.drop pos.toNat = (encodeAll fs).take j) :
    ∃ ex s', (readAll (fs.map Field.type)).run (rawAt mem pos) = .error (.throws ex) s' := by
  induction fs generalizing pos j with
  | nil => simp [encodeAll] at short
  | cons f fs ih =>
    simp only [encodeAll, List.flatMap_cons, List.length_append] at cut small short
    have total := length_drop_mem mem cut start
    simp only [List.length_take, List.length_append] at total
    by_cases whole : f.encode.length ≤ j
    · -- the cut is behind the first field, which reads back; the others throw
      rw [List.take_append, List.take_of_length_le whole] at cut
      have first := read_encoded mem start cut
      have moved : (pos + UInt32.ofNat f.encode.length).toNat = pos.toNat + f.encode.length := by
        rw [UInt32.toNat_add, UInt32.toNat_ofNat_of_lt' (show f.encode.length < 2 ^ 32 by omega)]; omega
      have next : mem.cells.drop (pos + UInt32.ofNat f.encode.length).toNat =
          (encodeAll fs).take (j - f.encode.length) := by
        rw [moved, ← List.drop_drop, cut, List.drop_left]
        rfl
      obtain ⟨ex, s', others⟩ := ih (by omega) (by rw [moved, encodeAll]; omega)
        (by rw [encodeAll]; omega) next
      exact ⟨ex, s', by
        simp only [List.map_cons, readAll, EStateM.run_bind, first, others, bind_pure_comp, run_map]⟩
    · have inside : mem.cells.drop pos.toNat = f.encode.take j := by
        rw [cut, List.take_append_of_le_length (by omega)]
      obtain ⟨ex, s', run⟩ := read_cut mem start (by omega) (by omega) inside
      exact ⟨ex, s', by simp only [List.map_cons, readAll, EStateM.run_bind, run]⟩

end Reading

/-! ## The round trip -/

/-- The raw stream over exactly these bytes. -/
def ofBytes (bytes : List UInt8) : CByteStream :=
  ofRaw (⟨bytes, rfl⟩ : Block UInt8 bytes.length) (UInt32.ofNat bytes.length)

theorem ofBytes_eq {bytes : List UInt8} (size : bytes.length = (UInt32.ofNat bytes.length).toNat) :
    ofBytes bytes = rawAt ⟨bytes, size⟩ 0 := ofRaw_eq_rawAt size

/-- The bytes between the old and the new write offset are the ones a write has queued. -/
theorem load_written {sb sb' : SimpleBuffer} {bytes : List UInt8} (wf : sb.WF) (wf' : sb'.WF)
    (queue : sb'.content = sb.content ++ bytes) (front : sb'.readOffset = sb.readOffset)
    (moved : sb'.writeOffset.toNat = sb.writeOffset.toNat + bytes.length) :
    sb'.buffer.load sb.writeOffset.toNat (sb'.writeOffset.toNat - sb.writeOffset.toNat) = some bytes := by
  have ordered := wf.read_le
  have inside := wf'.write_le
  have old := wf.length_content
  have tail : sb'.content.drop sb.content.length = bytes := by rw [queue, List.drop_left]
  rw [old, SimpleBuffer.content, List.drop_drop, front,
    show sb.readOffset.toNat + (sb.writeOffset.toNat - sb.readOffset.toNat) = sb.writeOffset.toNat by omega,
    List.drop_take] at tail
  rw [Block.load_eq_some _ (by omega), tail]

theorem flatten_flatMap_pieces (fs : List Field) : (fs.flatMap Field.pieces).flatten = encodeAll fs := by
  induction fs with
  | nil => rfl
  | cons f fs ih =>
    rw [List.flatMap_cons, List.flatten_append, ih]
    rfl

/-- **Decoding undoes encoding.** After every write the stream is in step with its buffer; the
bytes written read back as the fields, and any strict prefix of them makes the reader throw. -/
theorem round_trip (fields : List Field) (sb : SimpleBuffer) (pos : UInt32) (wf : sb.WF)
    (start : pos = sb.writeOffset) (room : NoWrapAll (fields.flatMap Field.pieces) sb) :
    (∀ k, ∃ sb', (writeAll (fields.take k)).run (ofSimple sb pos) = .ok () (ofSimple sb' sb'.writeOffset)) ∧
    ∃ sb' bytes, (writeAll fields).run (ofSimple sb pos) = .ok () (ofSimple sb' sb'.writeOffset) ∧
      sb'.buffer.load sb.writeOffset.toNat (sb'.writeOffset.toNat - sb.writeOffset.toNat) = some bytes ∧
      bytes = encodeAll fields ∧
      (∃ s', (readAll (fields.map Field.type)).run (ofBytes bytes) = .ok fields s' ∧
        s'.pos.toNat = bytes.length) ∧
      ∀ k, k < bytes.length →
        ∃ ex s', (readAll (fields.map Field.type)).run (ofBytes (bytes.take k)) = .error (.throws ex) s' := by
  subst start
  constructor
  · intro k
    have front : NoWrapAll ((fields.take k).flatMap Field.pieces) sb := by
      rw [← List.take_append_drop k fields, List.flatMap_append] at room
      exact room.left
    obtain ⟨sb', run, -⟩ := writePieces_spec wf front
    exact ⟨sb', by rw [writeAll_eq]; exact run⟩
  obtain ⟨sb', run, wf', queue, front, moved⟩ := writePieces_spec wf room
  rw [flatten_flatMap_pieces] at queue moved
  have bound := sb'.writeOffset.toNat_lt
  have sized : ∀ bytes : List UInt8, bytes.length ≤ (encodeAll fields).length →
      bytes.length = (UInt32.ofNat bytes.length).toNat := fun bytes le =>
    (UInt32.toNat_ofNat_of_lt' (show bytes.length < 2 ^ 32 by omega)).symm
  refine ⟨sb', encodeAll fields, by rw [writeAll_eq]; exact run, load_written wf wf' queue front moved,
    rfl, ?_, ?_⟩
  · have size := sized _ (Nat.le_refl _)
    refine ⟨_, by
      rw [ofBytes_eq size]
      exact readAll_encoded ⟨encodeAll fields, size⟩ (Nat.zero_le _) (List.append_nil _).symm, ?_⟩
    show (0 + UInt32.ofNat (encodeAll fields).length).toNat = (encodeAll fields).length
    rw [UInt32.zero_add, ← size]
  · intro k short
    have size := sized ((encodeAll fields).take k) (by rw [List.length_take]; omega)
    rw [ofBytes_eq size]
    exact readAll_cut ⟨(encodeAll fields).take k, size⟩ (Nat.zero_le _)
      (by show 0 + _ < _; omega) short rfl

/-- A number, a string and a blob, behind a 16 byte header. -/
theorem round_trip_header :
    ∃ sb', (writeAll [.int .int16 (-2 : Int16), .string [104, 105] .pointer .object, .data [0]]).run
      (ofSimple ⟨16, ⟨List.replicate 16 0, rfl⟩, 16, 0⟩ 16) = .ok () (ofSimple sb' sb'.writeOffset) :=
  have wf : SimpleBuffer.WF ⟨16, ⟨List.replicate 16 0, rfl⟩, 16, 0⟩ := ⟨by decide, by decide⟩
  (round_trip [.int .int16 (-2 : Int16), .string [104, 105] .pointer .object, .data [0]]
    ⟨16, ⟨List.replicate 16 0, rfl⟩, 16, 0⟩ 16 wf rfl (.of_bound wf (by decide))).1 3

end Netter.CByteStream
