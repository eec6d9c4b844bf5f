import Netter.Lib.BigEndian
import Netter.SimpleBuffer
import Netter.Util

/-!
# `CByteStream`

The field reader and writer under every packet, over one of two backings: a raw buffer of fixed
length, or a `SimpleBuffer`. A call is a computation over the stream that may throw; the state
survives an exception, so `Skip` leaves the position moved when it throws. All sums with
`m_pos` are `uint32_t` sums. A `memcpy` outside the raw buffer is `Stop.undefined`.

The overloads of `operator <<` are the `put…` functions and those of `operator >>` the `get…`
functions: one definition each, with the width of the type, over the shared byte codec.
-/

namespace Netter

open Lib

/-- What `m_pBuf` and `m_pSimpBuf` are: exactly one of the two is set. -/
inductive Backing where
  | raw {size : Nat} (mem : Block UInt8 size)
  | simple (sb : SimpleBuffer)

structure CByteStream where
  backing : Backing
  len : UInt32
  pos : UInt32

abbrev StreamM := EStateM Stop CByteStream

namespace CByteStream

/-- `CByteStream(uchar_t* buf, uint32_t len)`. -/
def ofRaw {size : Nat} (mem : Block UInt8 size) (len : UInt32) : CByteStream := ⟨.raw mem, len, 0⟩

/-- `CByteStream(SimpleBuffer* pSimpBuf, uint32_t pos)`. -/
def ofSimple (sb : SimpleBuffer) (pos : UInt32) : CByteStream := ⟨.simple sb, 0, pos⟩

/-- The memory `GetBuf()` points to. -/
def getBuf (s : CByteStream) : List UInt8 :=
  match s.backing with
  | .raw mem => mem.cells
  | .simple sb => sb.buffer.cells

/-- A copy that is undefined behaviour when it does not stay inside its memory. -/
def orUndefined {α : Type} (x : Option α) : StreamM α := fun s =>
  match x with
  | some a => .ok a s
  | none => .error .undefined s

@[simp] theorem run_orUndefined_some {α : Type} (a : α) (s : CByteStream) :
    (orUndefined (some a)).run s = .ok a s := rfl

@[simp] theorem run_orUndefined_none {α : Type} (s : CByteStream) :
    (orUndefined (none : Option α)).run s = .error .undefined s := rfl

@[simp] theorem run_throw {α : Type} (e : Stop) (s : CByteStream) :
    (throw e : StreamM α).run s = .error e s := rfl

@[simp] theorem run_map {α β : Type} (f : α → β) (x : StreamM α) (s : CByteStream) :
    (f <$> x).run s = match x.run s with
      | .ok a s => .ok (f a) s
      | .error e s => .error e s := by
  rw [map_eq_pure_bind, EStateM.run_bind]
  cases EStateM.run x s <;> rfl

def getPos : StreamM UInt32 := do return (← get).pos

/-- `Skip`: the position moves first and is checked afterwards. -/
def skip (len : UInt32) : StreamM Unit := do
  modify fun s => { s with pos := s.pos + len }
  let s ← get
  if s.pos > s.len then
    throw (.throws ⟨.parseFailed, "parse packet failed!"⟩)

/-- `_ReadByte`, returning what it copies to its caller's array. -/
def readByte (len : UInt32) : StreamM (List UInt8) := do
  let s ← get
  if s.pos + len > s.len then
    throw (.throws ⟨.parseFailed, "parase packet failed!"⟩)
  else
    match s.backing with
    | .simple sb => do
      let (out, sb) ← orUndefined (sb.read len)
      set { s with backing := .simple sb, pos := s.pos + len }
      return out
    | .raw mem => do
      let out ← orUndefined (mem.load s.pos.toNat len.toNat)
      set { s with pos := s.pos + len }
      return out

/-- `_WriteByte`: over a raw buffer, bytes that do not fit are dropped without a word. -/
def writeByte (buf : List UInt8) (len : UInt32) : StreamM Unit := do
  let s ← get
  match s.backing with
  | .raw mem =>
    if s.pos + len > s.len then
      return
    else do
      let bytes ← orUndefined (load buf 0 len.toNat)
      let mem ← orUndefined (mem.store s.pos.toNat bytes)
      set { s with backing := .raw mem, pos := s.pos + len }
  | .simple sb => do
    let sb ← orUndefined (sb.write (some buf) len)
    set { s with backing := .simple sb, pos := s.pos + len }

/-! ## Integers -/

/-- `operator <<` for an unsigned type of `k` bytes. -/
def putUnsigned (k : Nat) (data : BitVec (8 * k)) : StreamM Unit :=
  writeByte (BigEndian.toBytes k data) (UInt32.ofNat k)

/-- `operator <<` for a signed type of `k` bytes: `>>` is an arithmetic shift there. -/
def putSigned (k : Nat) (data : BitVec (8 * k)) : StreamM Unit :=
  writeByte (BigEndian.toBytesSigned k data) (UInt32.ofNat k)

/-- `operator >>` for a type of `k` bytes. -/
def getWord (k : Nat) : StreamM (BitVec (8 * k)) := do
  return BigEndian.ofBytes (← readByte (UInt32.ofNat k))

def putInt8 (data : Int8) : StreamM Unit := putSigned 1 data.toBitVec
def putUint8 (data : UInt8) : StreamM Unit := putUnsigned 1 data.toBitVec
def putInt16 (data : Int16) : StreamM Unit := putSigned 2 data.toBitVec
def putUint16 (data : UInt16) : StreamM Unit := putUnsigned 2 data.toBitVec
def putInt32 (data : Int32) : StreamM Unit := putSigned 4 data.toBitVec
def putUint32 (data : UInt32) : StreamM Unit := putUnsigned 4 data.toBitVec
def putInt64 (data : Int64) : StreamM Unit := putSigned 8 data.toBitVec
def putUint64 (data : UInt64) : StreamM Unit := putUnsigned 8 data.toBitVec

def getInt8 : StreamM Int8 := do return Int8.ofBitVec (← getWord 1)
def getUint8 : StreamM UInt8 := do return UInt8.ofBitVec (← getWord 1)
def getInt16 : StreamM Int16 := do return Int16.ofBitVec (← getWord 2)
def getUint16 : StreamM UInt16 := do return UInt16.ofBitVec (← getWord 2)
def getInt32 : StreamM Int32 := do return Int32.ofBitVec (← getWord 4)
def getUint32 : StreamM UInt32 := do return UInt32.ofBitVec (← getWord 4)
def getInt64 : StreamM Int64 := do return Int64.ofBitVec (← getWord 8)
def getUint64 : StreamM UInt64 := do return UInt64.ofBitVec (← getWord 8)

/-- The types `operator <<` and `operator >>` are overloaded for. -/
inductive IntType where
  | int8
  | uint8
  | int16
  | uint16
  | int32
  | uint32
  | int64
  | uint64
  deriving DecidableEq

namespace IntType

/-- `sizeof`. -/
def bytes : IntType → Nat
  | int8 | uint8 => 1
  | int16 | uint16 => 2
  | int32 | uint32 => 4
  | int64 | uint64 => 8

def Carrier : IntType → Type
  | int8 => Int8
  | uint8 => UInt8
  | int16 => Int16
  | uint16 => UInt16
  | int32 => Int32
  | uint32 => UInt32
  | int64 => Int64
  | uint64 => UInt64

def put : (t : IntType) → t.Carrier → StreamM Unit
  | int8 => putInt8
  | uint8 => putUint8
  | int16 => putInt16
  | uint16 => putUint16
  | int32 => putInt32
  | uint32 => putUint32
  | int64 => putInt64
  | uint64 => putUint64

def get : (t : IntType) → StreamM t.Carrier
  | int8 => getInt8
  | uint8 => getUint8
  | int16 => getInt16
  | uint16 => getUint16
  | int32 => getInt32
  | uint32 => getUint32
  | int64 => getInt64
  | uint64 => getUint64

/-- The two's complement bits of a value. -/
def bits : (t : IntType) → t.Carrier → BitVec (8 * t.bytes)
  | int8 => Int8.toBitVec
  | uint8 => UInt8.toBitVec
  | int16 => Int16.toBitVec
  | uint16 => UInt16.toBitVec
  | int32 => Int32.toBitVec
  | uint32 => UInt32.toBitVec
  | int64 => Int64.toBitVec
  | uint64 => UInt64.toBitVec

def ofBits : (t : IntType) → BitVec (8 * t.bytes) → t.Carrier
  | int8 => Int8.ofBitVec
  | uint8 => UInt8.ofBitVec
  | int16 => Int16.ofBitVec
  | uint16 => UInt16.ofBitVec
  | int32 => Int32.ofBitVec
  | uint32 => UInt32.ofBitVec
  | int64 => Int64.ofBitVec
  | uint64 => UInt64.ofBitVec

theorem ofBits_bits (t : IntType) (v : t.Carrier) : t.ofBits (t.bits v) = v := by
  cases t <;> rfl

/-- Every overload of `operator <<` writes the big-endian bytes of the value, signed or not. -/
theorem put_eq (t : IntType) (v : t.Carrier) :
    t.put v = writeByte (BigEndian.toBytes t.bytes (t.bits v)) (UInt32.ofNat t.bytes) := by
  cases t
  case int8 | int16 | int32 | int64 =>
    exact congrArg (writeByte · _) (BigEndian.toBytesSigned_eq _ _ (Nat.le_refl _))
  all_goals rfl

theorem get_eq (t : IntType) : t.get = t.ofBits <$> getWord t.bytes := by
  cases t <;> exact bind_pure_comp _ _

theorem bytes_le (t : IntType) : t.bytes ≤ 8 := by
  cases t <;> decide

end IntType

/-! ## Strings and blobs -/

/-- A pointer into `GetBuf()` with a length, as `ReadString` and `ReadData` hand it back. -/
structure Slice where
  off : UInt32
  len : UInt32
  deriving DecidableEq

/-- `WriteString(const char* str, uint32_t len)`. -/
def writeStringLen (str : List UInt8) (len : UInt32) : StreamM Unit := do
  putUint32 len
  writeByte str len

/-- `WriteString(const char* str)`: `str` up to its terminating NUL, or nothing for a null pointer. -/
def writeCString (str : Option (List UInt8)) : StreamM Unit :=
  let str := (str.getD []).takeWhile (· ≠ 0)
  writeStringLen str (UInt32.ofNat str.length)

/-- `WriteString(const string& str_obj)`. -/
def writeString (str : List UInt8) : StreamM Unit := writeStringLen str (UInt32.ofNat str.length)

/-- `WriteData(uchar_t* data, uint32_t len)`. -/
def writeData (data : List UInt8) (len : UInt32) : StreamM Unit := writeStringLen data len

/-- `ReadString(uint32_t& len)`. -/
def readString : StreamM Slice := do
  let len ← getUint32
  let off ← getPos
  skip len
  return ⟨off, len⟩

/-- `ReadString(string& str_obj)`. -/
def readStringObj : StreamM (List UInt8) := do
  let slice ← readString
  let s ← get
  orUndefined (load s.getBuf slice.off.toNat slice.len.toNat)

/-- `ReadData(uint32_t& len)`. -/
def readData : StreamM Slice := readString

end CByteStream

end Netter
