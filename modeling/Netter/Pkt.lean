import Netter.ByteStream.Bounds

/-!
# Packets

`PktBase` and the one packet type of the library, `PktHeartBeat`. A packet that came in has no
bytes of its own: `m_incoming_buf` points into the receive buffer of its connection, and the
header setters write there. Such a pointer is an offset into that buffer's memory.

`frameAt` says what the front of a byte stream is, without a word about pointers and streams;
`readPacket_eq` says that `ReadPacket` computes it.
-/

namespace Netter

open Lib

/-- `PKT_HEADER_LEN`. -/
def pktHeaderLen : UInt32 := 16

/-- `PKT_VERSION`. -/
def pktVersion : UInt16 := 1

/-- `PKT_ID_HEARTBEAT`. -/
def pktIdHeartbeat : UInt32 := 1

/-- `pkt_header_t`. -/
structure PktHeader where
  length : UInt32
  version : UInt16
  flag : UInt16
  pktId : UInt32
  seqNo : UInt32
  deriving DecidableEq

/-- What the constructor `PktBase` sets; it leaves `length` alone, which nothing reads. -/
def PktHeader.init : PktHeader := ⟨0, pktVersion, 0, 0, 0⟩

/-- `m_incoming_buf` and `m_incoming_len`. -/
structure Incoming where
  buf : UInt32
  len : UInt32
  deriving DecidableEq

structure PktBase where
  buf : SimpleBuffer
  incoming : Option Incoming
  header : PktHeader
  deriving DecidableEq

namespace CByteStream

/-- The static `ReadUint32`. -/
def readUint32 (buf : List UInt8) : Option UInt32 :=
  (load buf 0 4).map fun bytes => UInt32.ofBitVec (BigEndian.ofBytes bytes)

end CByteStream

namespace PktBase

open CByteStream

def init : PktBase := ⟨.init, none, .init⟩

/-- The memory from `GetBuffer()` on; `mem` is the memory incoming pointers point into. -/
def getBuffer (pkt : PktBase) (mem : List UInt8) : List UInt8 :=
  match pkt.incoming with
  | some incoming => mem.drop incoming.buf.toNat
  | none => pkt.buf.buffer.cells

def getLength (pkt : PktBase) : UInt32 :=
  match pkt.incoming with
  | some incoming => incoming.len
  | none => pkt.buf.writeOffset

/-! ## The header setters -/

section Setters

variable {n : Nat}

/-- A static `Write…` call with the destination `GetBuffer() + off`. -/
def poke (pkt : PktBase) (mem : Block UInt8 n) (off : Nat) (bytes : List UInt8) :
    Option (PktBase × Block UInt8 n) :=
  match pkt.incoming with
  | some incoming => do
    let mem ← mem.store (incoming.buf.toNat + off) bytes
    some (pkt, mem)
  | none => do
    let buffer ← pkt.buf.buffer.store off bytes
    some ({ pkt with buf := { pkt.buf with buffer } }, mem)

def setVersion (pkt : PktBase) (mem : Block UInt8 n) (version : UInt16) : Option (PktBase × Block UInt8 n) := do
  let (pkt, mem) ← pkt.poke mem 4 (BigEndian.toBytes 2 version.toBitVec)
  some ({ pkt with header := { pkt.header with version } }, mem)

def setFlag (pkt : PktBase) (mem : Block UInt8 n) (flag : UInt16) : Option (PktBase × Block UInt8 n) := do
  let (pkt, mem) ← pkt.poke mem 6 (BigEndian.toBytes 2 flag.toBitVec)
  some ({ pkt with header := { pkt.header with flag } }, mem)

def setSeqNo (pkt : PktBase) (mem : Block UInt8 n) (seqNo : UInt32) : Option (PktBase × Block UInt8 n) := do
  let (pkt, mem) ← pkt.poke mem 12 (BigEndian.toBytes 4 seqNo.toBitVec)
  some ({ pkt with header := { pkt.header with seqNo } }, mem)

/-- `WriteHeader`; its first store is `WriteInt32`, with arithmetic shifts. -/
def writeHeader (pkt : PktBase) (mem : Block UInt8 n) : Option (PktBase × Block UInt8 n) := do
  let (pkt, mem) ← pkt.poke mem 0 (BigEndian.toBytesSigned 4 pkt.getLength.toBitVec)
  let (pkt, mem) ← pkt.poke mem 4 (BigEndian.toBytes 2 pkt.header.version.toBitVec)
  let (pkt, mem) ← pkt.poke mem 6 (BigEndian.toBytes 2 pkt.header.flag.toBitVec)
  let (pkt, mem) ← pkt.poke mem 8 (BigEndian.toBytes 4 pkt.header.pktId.toBitVec)
  pkt.poke mem 12 (BigEndian.toBytes 4 pkt.header.seqNo.toBitVec)

end Setters

/-- A call of a header setter. -/
inductive HeaderOp where
  | setVersion (version : UInt16)
  | setFlag (flag : UInt16)
  | setSeqNo (seqNo : UInt32)
  | writeHeader

def HeaderOp.exec {n : Nat} (pkt : PktBase) (mem : Block UInt8 n) :
    HeaderOp → Option (PktBase × Block UInt8 n)
  | .setVersion version => pkt.setVersion mem version
  | .setFlag flag => pkt.setFlag mem flag
  | .setSeqNo seqNo => pkt.setSeqNo mem seqNo
  | .writeHeader => pkt.writeHeader mem

section Incoming

variable {n : Nat}

/-- The memories agree except for the 16 bytes of a header at `off`. -/
structure SameButHeader (off : Nat) (mem mem' : Block UInt8 n) : Prop where
  before : mem'.cells.take off = mem.cells.take off
  behind : mem'.cells.drop (off + 16) = mem.cells.drop (off + 16)

theorem SameButHeader.rfl {off : Nat} {mem : Block UInt8 n} : SameButHeader off mem mem := ⟨Eq.refl _, Eq.refl _⟩

theorem SameButHeader.trans {off : Nat} {mem mem' mem'' : Block UInt8 n} (first : SameButHeader off mem mem')
    (second : SameButHeader off mem' mem'') : SameButHeader off mem mem'' :=
  ⟨second.before.trans first.before, second.behind.trans first.behind⟩

variable {pkt : PktBase} {mem : Block UInt8 n} {incoming : Incoming}

theorem poke_incoming (off : Nat) (bytes : List UInt8) (here : pkt.incoming = some incoming)
    (field : off + bytes.length ≤ 16) (inside : incoming.buf.toNat + 16 ≤ n) (mem : Block UInt8 n) :
    ∃ mem', pkt.poke mem off bytes = some (pkt, mem') ∧ SameButHeader incoming.buf.toNat mem mem' := by
  have room : incoming.buf.toNat + off + bytes.length ≤ n := by omega
  obtain ⟨mem', stored, -⟩ := mem.store_eq_some room
  refine ⟨mem', by simp [poke, here, stored], ?_, ?_⟩
  · exact Block.store_take stored (by omega)
  · exact Block.store_drop stored (by omega)

/-- A setter called on an incoming packet stays inside the header of that packet. -/
theorem HeaderOp.exec_incoming (op : HeaderOp) (here : pkt.incoming = some incoming)
    (inside : incoming.buf.toNat + 16 ≤ n) (mem : Block UInt8 n) :
    ∃ pkt' mem', op.exec pkt mem = some (pkt', mem') ∧ pkt'.incoming = some incoming ∧
      SameButHeader incoming.buf.toNat mem mem' := by
  cases op with
  | setVersion version =>
    obtain ⟨mem', run, same⟩ := poke_incoming 4 (BigEndian.toBytes 2 version.toBitVec) here (by simp) inside mem
    exact ⟨{ pkt with header := { pkt.header with version } }, mem', by simp [exec, PktBase.setVersion, run], here, same⟩
  | setFlag flag =>
    obtain ⟨mem', run, same⟩ := poke_incoming 6 (BigEndian.toBytes 2 flag.toBitVec) here (by simp) inside mem
    exact ⟨{ pkt with header := { pkt.header with flag } }, mem', by simp [exec, PktBase.setFlag, run], here, same⟩
  | setSeqNo seqNo =>
    obtain ⟨mem', run, same⟩ := poke_incoming 12 (BigEndian.toBytes 4 seqNo.toBitVec) here (by simp) inside mem
    exact ⟨{ pkt with header := { pkt.header with seqNo } }, mem', by simp [exec, PktBase.setSeqNo, run], here, same⟩
  | writeHeader =>
    obtain ⟨mem₁, run₁, same₁⟩ :=
      poke_incoming 0 (BigEndian.toBytesSigned 4 pkt.getLength.toBitVec) here
        (by simp [BigEndian.toBytesSigned_eq]) inside mem
    obtain ⟨mem₂, run₂, same₂⟩ :=
      poke_incoming 4 (BigEndian.toBytes 2 pkt.header.version.toBitVec) here (by simp) inside mem₁
    obtain ⟨mem₃, run₃, same₃⟩ :=
      poke_incoming 6 (BigEndian.toBytes 2 pkt.header.flag.toBitVec) here (by simp) inside mem₂
    obtain ⟨mem₄, run₄, same₄⟩ :=
      poke_incoming 8 (BigEndian.toBytes 4 pkt.header.pktId.toBitVec) here (by simp) inside mem₃
    obtain ⟨mem₅, run₅, same₅⟩ :=
      poke_incoming 12 (BigEndian.toBytes 4 pkt.header.seqNo.toBitVec) here (by simp) inside mem₄
    refine ⟨pkt, mem₅, ?_, here, (((same₁.trans same₂).trans same₃).trans same₄).trans same₅⟩
    simp [exec, PktBase.writeHeader, run₁, run₂, run₃, run₄, run₅]

end Incoming

/-! ## Reading -/

/-- The reads of `ReadPktHeader`, in its order. -/
def readHeaderFields : StreamM PktHeader := do
  let length ← getUint32
  let version ← getUint16
  let flag ← getUint16
  let pktId ← getUint32
  let seqNo ← getUint32
  return { length, version, flag, pktId, seqNo }

/-- `ReadPktHeader` on the memory from `buf` on; `none` is the result -1. -/
def readPktHeader (buf : List UInt8) (len : UInt32) : Except Stop (Option PktHeader) :=
  if len ≥ pktHeaderLen then
    match readHeaderFields.run (ofRaw (⟨buf.take len.toNat, rfl⟩ : Block UInt8 _) len) with
    | .ok header _ => .ok (some header)
    | .error stop _ => .error stop
  else .ok none

/-- `PktHeartBeat(buf, len)`. -/
def pktHeartBeat (buf : List UInt8) (len : UInt32) : Except Stop PktBase := do
  -- READ_PKT_HEADER
  let header ← readPktHeader buf pktHeaderLen
  let is := ofRaw (⟨buf.drop pktHeaderLen.toNat, rfl⟩ : Block UInt8 _) (len - pktHeaderLen)
  -- PARSE_PACKET_ASSERT
  if is.pos ≠ len - pktHeaderLen then
    throw (.throws ⟨.parseFailed, "parse pkt failed"⟩)
  return { PktBase.init with header := header.getD .init }

/-- `IsPktAvailable`: the length field of a packet that is there in full. -/
def isPktAvailable (buf : List UInt8) (len : UInt32) : Except Stop (Option UInt32) := do
  if len < pktHeaderLen then
    return none
  let pktLen ← Stop.ofOption (readUint32 buf)
  if pktLen < pktHeaderLen then
    throw (.throws ⟨.wrongPktLen, "wrong pkt length"⟩)
  if pktLen > len then
    return none
  return some pktLen

/-- `ReadPacket` with the pointer `buf` into `mem`; `none` is the null pointer. -/
def readPacket (mem : List UInt8) (buf len : UInt32) : Except Stop (Option PktBase) := do
  match ← isPktAvailable (mem.drop buf.toNat) len with
  | none => return none
  | some pktLen =>
    let pktId ← Stop.ofOption (readUint32 ((mem.drop buf.toNat).drop 8))
    if pktId = pktIdHeartbeat then
      let pkt ← pktHeartBeat (mem.drop buf.toNat) pktLen
      return some { pkt with incoming := some ⟨buf, pktLen⟩ }
    else
      throw (.throws ⟨.unknownPktId, "unknown pkt_id"⟩)

/-! ## What the front of a stream is -/

/-- The front of a byte stream: not complete yet, not acceptable, or a packet of a given length. -/
inductive Frame where
  | incomplete
  | malformed (ex : PktException)
  | packet (len : UInt32)
  deriving DecidableEq

/-- The four bytes at `off` as a number. -/
def wordAt (data : List UInt8) (off : Nat) : UInt32 := lengthAt data off

/-- The greedy reading of a byte stream: the length is judged as soon as the header is there,
the rest of the packet once it is complete. -/
def frameAt (data : List UInt8) : Frame :=
  if data.length < 16 then .incomplete
  else if wordAt data 0 < 16 then .malformed ⟨.wrongPktLen, "wrong pkt length"⟩
  else if data.length < (wordAt data 0).toNat then .incomplete
  else if wordAt data 8 ≠ pktIdHeartbeat then .malformed ⟨.unknownPktId, "unknown pkt_id"⟩
  else if wordAt data 0 ≠ 16 then .malformed ⟨.parseFailed, "parse pkt failed"⟩
  else .packet (wordAt data 0)

/-- The header in the first 16 bytes. -/
def headerAt (data : List UInt8) : PktHeader where
  length := wordAt data 0
  version := UInt16.ofBitVec (BigEndian.ofBytes ((data.drop 4).take 2))
  flag := UInt16.ofBitVec (BigEndian.ofBytes ((data.drop 6).take 2))
  pktId := wordAt data 8
  seqNo := wordAt data 12

/-- Bytes behind the first `k` do not change a field inside them. -/
theorem drop_take_append {data more : List UInt8} {off k : Nat} (inside : off + k ≤ data.length) :
    ((data ++ more).drop off).take k = (data.drop off).take k := by
  rw [List.drop_append_of_le_length (by omega), List.take_append_of_le_length (by simp; omega)]

theorem wordAt_append {data more : List UInt8} {off : Nat} (inside : off + 4 ≤ data.length) :
    wordAt (data ++ more) off = wordAt data off := by
  simp only [wordAt, lengthAt, drop_take_append inside]

/-- What is not incomplete stays what it is when more bytes arrive. -/
theorem frameAt_append {data : List UInt8} (more : List UInt8) (complete : frameAt data ≠ .incomplete) :
    frameAt (data ++ more) = frameAt data := by
  have header : 16 ≤ data.length := by
    by_contra short
    exact complete (if_pos (by omega))
  have longer : ¬ data.length + more.length < 16 := by omega
  unfold frameAt at complete ⊢
  rw [wordAt_append (by omega), wordAt_append (by omega), List.length_append, if_neg longer,
    if_neg (Nat.not_lt_of_le header)]
  by_cases reject : wordAt data 0 < 16
  · rw [if_pos reject, if_pos reject]
  · rw [if_neg (Nat.not_lt_of_le header), if_neg reject] at complete
    have whole : ¬ data.length < (wordAt data 0).toNat := by
      intro short
      exact complete (if_pos short)
    have longer : ¬ data.length + more.length < (wordAt data 0).toNat := by omega
    rw [if_neg reject, if_neg reject, if_neg whole, if_neg longer]

/-- A packet has a header and is complete. -/
theorem le_of_frameAt {data : List UInt8} {len : UInt32} (frame : frameAt data = .packet len) :
    16 ≤ len.toNat ∧ len.toNat ≤ data.length ∧ len = wordAt data 0 := by
  unfold frameAt at frame
  split at frame
  · cases frame
  split at frame
  · cases frame
  rename_i long
  split at frame
  · cases frame
  rename_i whole
  split at frame
  · cases frame
  split at frame
  · cases frame
  · cases frame
    rw [UInt32.lt_iff_toNat_lt] at long
    exact ⟨Nat.le_of_not_lt long, Nat.le_of_not_lt whole, rfl⟩

/-- A packet is refused only when its header is there. -/
theorem le_of_malformed {data : List UInt8} {ex : PktException} (frame : frameAt data = .malformed ex) :
    16 ≤ data.length := by
  by_contra short
  rw [frameAt, if_pos (by omega)] at frame
  cases frame

/-! ## `ReadPacket` computes it -/

theorem getUint16_fits {len pos : UInt32} (mem : Block UInt8 len.toNat) (fits : pos.toNat + 2 ≤ len.toNat) :
    getUint16.run (rawAt mem pos) =
      .ok (UInt16.ofBitVec (BigEndian.ofBytes ((mem.cells.drop pos.toNat).take 2))) (rawAt mem (pos + 2)) := by
  have read := getWord_fits mem (by decide : 2 < 2 ^ 32) fits
  simp only [getUint16, bind_pure_comp, run_map, read]
  rfl

theorem readHeaderFields_run {len : UInt32} (mem : Block UInt8 len.toNat) (fits : 16 ≤ len.toNat) :
    readHeaderFields.run (rawAt mem 0) = .ok (headerAt mem.cells) (rawAt mem 16) := by
  have length : getUint32.run (rawAt mem 0) = _ := getUint32_fits mem (by show 0 + 4 ≤ _; omega)
  have version : getUint16.run (rawAt mem (0 + 4)) = _ := getUint16_fits mem (by show 4 + 2 ≤ _; omega)
  have flag : getUint16.run (rawAt mem (0 + 4 + 2)) = _ := getUint16_fits mem (by show 6 + 2 ≤ _; omega)
  have pktId : getUint32.run (rawAt mem (0 + 4 + 2 + 2)) = _ := getUint32_fits mem (by show 8 + 4 ≤ _; omega)
  have seqNo : getUint32.run (rawAt mem (0 + 4 + 2 + 2 + 4)) = _ :=
    getUint32_fits mem (by show 12 + 4 ≤ _; omega)
  simp only [readHeaderFields, bind_pure_comp, EStateM.run_bind, run_map, length, version, flag, pktId, seqNo]
  rfl

/-- A header that is there is read without an exception. -/
theorem readPktHeader_run {buf : List UInt8} {len : UInt32} (header : 16 ≤ len.toNat)
    (inside : len.toNat ≤ buf.length) :
    readPktHeader buf len = .ok (some (headerAt (buf.take len.toNat))) := by
  have size : (buf.take len.toNat).length = len.toNat := by rw [List.length_take]; omega
  have enough : len ≥ pktHeaderLen := UInt32.le_iff_toNat_le.mpr header
  rw [readPktHeader, if_pos enough, ofRaw_eq_rawAt size, readHeaderFields_run _ header]

theorem readUint32_run {buf : List UInt8} (inside : 4 ≤ buf.length) :
    readUint32 buf = some (wordAt buf 0) := by
  rw [readUint32, load_zero inside]
  rfl

theorem wordAt_take {data : List UInt8} {off k : Nat} (inside : off + 4 ≤ k) :
    wordAt (data.take k) off = wordAt data off := by
  rw [wordAt, wordAt, lengthAt, lengthAt, List.drop_take, List.take_take, Nat.min_eq_left (by omega)]

theorem wordAt_drop (data : List UInt8) (off k : Nat) : wordAt (data.drop k) off = wordAt data (k + off) := by
  rw [wordAt, wordAt, lengthAt, lengthAt, List.drop_drop]

/-- `IsPktAvailable`, when a header is there. -/
theorem isPktAvailable_run {buf : List UInt8} {len : UInt32} (header : 16 ≤ len.toNat → 16 ≤ buf.length) :
    isPktAvailable buf len =
      if len.toNat < 16 then .ok none
      else if wordAt buf 0 < 16 then .error (.throws ⟨.wrongPktLen, "wrong pkt length"⟩)
      else if len.toNat < (wordAt buf 0).toNat then .ok none
      else .ok (some (wordAt buf 0)) := by
  unfold isPktAvailable
  by_cases short : len.toNat < 16
  · have check : len < pktHeaderLen := UInt32.lt_iff_toNat_lt.mpr short
    rw [if_pos short, if_pos check]
    rfl
  · have check : ¬ len < pktHeaderLen := fun h => short (UInt32.lt_iff_toNat_lt.mp h)
    rw [if_neg short, if_neg check, readUint32_run (by omega)]
    by_cases reject : wordAt buf 0 < 16
    · rw [if_pos reject]
      simp [Stop.ofOption, pktHeaderLen, reject, bind, Except.bind, throw, throwThe, MonadExceptOf.throw]
    · rw [if_neg reject]
      simp only [Stop.ofOption, pktHeaderLen, reject, bind, Except.bind, pure, Except.pure, gt_iff_lt,
        UInt32.lt_iff_toNat_lt, if_false]

/-- The heartbeat packet is its header and nothing else. -/
theorem pktHeartBeat_run {buf : List UInt8} {len : UInt32} (header : 16 ≤ buf.length)
    (long : 16 ≤ len.toNat) : pktHeartBeat buf len =
      if len = 16 then .ok { PktBase.init with header := headerAt (buf.take 16) }
      else .error (.throws ⟨.parseFailed, "parse pkt failed"⟩) := by
  have fields : readPktHeader buf pktHeaderLen = _ := readPktHeader_run (by decide) header
  have least : (16 : UInt32) ≤ len := UInt32.le_iff_toNat_le.mpr long
  have empty : (0 : UInt32) ≠ len - 16 ↔ ¬ len = 16 := by
    rw [not_iff_not, eq_comm, ← UInt32.toNat_inj, ← UInt32.toNat_inj, UInt32.toNat_sub_of_le _ _ least]
    show len.toNat - 16 = 0 ↔ len.toNat = 16
    omega
  unfold pktHeartBeat
  rw [fields]
  by_cases exact : len = 16
  · subst exact
    rfl
  · rw [if_neg exact]
    simp only [bind, Except.bind, ofRaw, pktHeaderLen, empty, exact, not_false_eq_true, if_true]
    rfl

/-- `ReadPacket` looks at the header only, whatever length it is told. -/
theorem readPacket_run {mem : List UInt8} {buf len : UInt32} (header : 16 ≤ len.toNat → 16 ≤ (mem.drop buf.toNat).length) :
    readPacket mem buf len =
      if len.toNat < 16 then .ok none
      else if wordAt (mem.drop buf.toNat) 0 < 16 then .error (.throws ⟨.wrongPktLen, "wrong pkt length"⟩)
      else if len.toNat < (wordAt (mem.drop buf.toNat) 0).toNat then .ok none
      else if wordAt (mem.drop buf.toNat) 8 ≠ pktIdHeartbeat then .error (.throws ⟨.unknownPktId, "unknown pkt_id"⟩)
      else if wordAt (mem.drop buf.toNat) 0 ≠ 16 then .error (.throws ⟨.parseFailed, "parse pkt failed"⟩)
      else .ok (some ⟨.init, some ⟨buf, 16⟩, headerAt ((mem.drop buf.toNat).take 16)⟩) := by
  unfold readPacket
  generalize mem.drop buf.toNat = data at header
  rw [isPktAvailable_run header]
  by_cases short : len.toNat < 16
  · rw [if_pos short, if_pos short]
    rfl
  have size : 16 ≤ data.length := header (by omega)
  rw [if_neg short, if_neg short]
  by_cases reject : wordAt data 0 < 16
  · rw [if_pos reject, if_pos reject]
    rfl
  rw [if_neg reject, if_neg reject]
  by_cases partly : len.toNat < (wordAt data 0).toNat
  · rw [if_pos partly, if_pos partly]
    rfl
  rw [if_neg partly, if_neg partly]
  have long : 16 ≤ (wordAt data 0).toNat := by
    rw [UInt32.lt_iff_toNat_lt] at reject
    exact Nat.le_of_not_lt reject
  have id : readUint32 (data.drop 8) = _ := readUint32_run (by rw [List.length_drop]; omega)
  rw [wordAt_drop, Nat.add_zero] at id
  simp only [bind, Except.bind, id, Stop.ofOption]
  by_cases known : wordAt data 8 = pktIdHeartbeat
  · rw [if_pos known, if_neg (not_not.mpr known), pktHeartBeat_run size long]
    by_cases exact : wordAt data 0 = 16
    · rw [if_pos exact, if_neg (not_not.mpr exact), exact]
      rfl
    · rw [if_neg exact, if_pos exact]
  · rw [if_neg known, if_pos known]
    rfl

/-- **`ReadPacket` is the greedy reading** of the `len` bytes from its pointer on. -/
theorem readPacket_eq {mem : List UInt8} {buf len : UInt32} (inside : buf.toNat + len.toNat ≤ mem.length) :
    readPacket mem buf len = match frameAt ((mem.drop buf.toNat).take len.toNat) with
      | .incomplete => .ok none
      | .malformed ex => .error (.throws ex)
      | .packet k => .ok (some ⟨.init, some ⟨buf, k⟩, headerAt ((mem.drop buf.toNat).take k.toNat)⟩) := by
  have size : len.toNat ≤ (mem.drop buf.toNat).length := by rw [List.length_drop]; omega
  rw [readPacket_run fun header => Nat.le_trans header size]
  generalize mem.drop buf.toNat = data at size
  have count : (data.take len.toNat).length = len.toNat := by rw [List.length_take]; omega
  rw [frameAt, count]
  by_cases short : len.toNat < 16
  · rw [if_pos short, if_pos short]
  rw [if_neg short, if_neg short, wordAt_take (by omega), wordAt_take (by omega)]
  by_cases reject : wordAt data 0 < 16
  · rw [if_pos reject, if_pos reject]
  rw [if_neg reject, if_neg reject]
  by_cases partly : len.toNat < (wordAt data 0).toNat
  · rw [if_pos partly, if_pos partly]
  rw [if_neg partly, if_neg partly]
  by_cases known : wordAt data 8 = pktIdHeartbeat
  · rw [if_neg (not_not.mpr known), if_neg (not_not.mpr known)]
    by_cases exact : wordAt data 0 = 16
    · rw [if_neg (not_not.mpr exact), if_neg (not_not.mpr exact), exact]
      rfl
    · rw [if_pos exact, if_pos exact]
  · rw [if_pos known, if_pos known]

end PktBase

end Netter
