import Netter.Lib.Run
import Netter.ByteStream.RoundTrip
import Netter.SimpleBuffer.Capacity
import Netter.Pkt

/-!
# One layout for the header

The setters store at fixed offsets, `ReadPktHeader` reads the fields in a row, and the getters look at
`m_pkt_header`. `Agrees` says that the 16 bytes that `GetBuffer()` points to are the fields of
`m_pkt_header` with the length of the packet; every setter keeps that, for a packet with bytes of its own as well as for
one that points into a receive buffer.
-/

namespace Netter.PktBase

open Lib CByteStream

/-! ## The bytes of a header -/

def headerBytes (h : PktHeader) : List UInt8 :=
  BigEndian.toBytes 4 h.length.toBitVec ++ BigEndian.toBytes 2 h.version.toBitVec ++
    BigEndian.toBytes 2 h.flag.toBitVec ++ BigEndian.toBytes 4 h.pktId.toBitVec ++
    BigEndian.toBytes 4 h.seqNo.toBitVec

variable {n : Nat} {pkt pkt' : PktBase} {mem mem' : Block UInt8 n} {h : PktHeader} {before rest pre old post : List UInt8}

@[simp] theorem length_headerBytes (h : PktHeader) : (headerBytes h).length = 16 := by
  simp [headerBytes]

theorem word_at (off : Nat) (v : UInt32) (front back : List UInt8) (start : front.length = off) :
    wordAt (front ++ (BigEndian.toBytes 4 v.toBitVec ++ back)) off = v := by
  have bytes : ((front ++ (BigEndian.toBytes 4 v.toBitVec ++ back)).drop off).take 4 = BigEndian.toBytes 4 v.toBitVec := by
    rw [← start, List.drop_left]
    exact List.take_left' (BigEndian.length_toBytes 4 _)
  rw [wordAt, lengthAt, bytes, BigEndian.ofBytes_toBytes 4 v.toBitVec rfl]

theorem half_at (off : Nat) (v : UInt16) (front back : List UInt8) (start : front.length = off) :
    UInt16.ofBitVec (BigEndian.ofBytes
      (((front ++ (BigEndian.toBytes 2 v.toBitVec ++ back)).drop off).take 2)) = v := by
  have bytes : ((front ++ (BigEndian.toBytes 2 v.toBitVec ++ back)).drop off).take 2 = BigEndian.toBytes 2 v.toBitVec := by
    rw [← start, List.drop_left]
    exact List.take_left' (BigEndian.length_toBytes 2 _)
  rw [bytes, BigEndian.ofBytes_toBytes 2 v.toBitVec rfl]

/-- `ReadPktHeader` reads what the setters store. -/
theorem headerAt_headerBytes (h : PktHeader) (rest : List UInt8) : headerAt (headerBytes h ++ rest) = h := by
  have length := word_at 0 h.length [] (BigEndian.toBytes 2 h.version.toBitVec ++ (BigEndian.toBytes 2 h.flag.toBitVec ++
    (BigEndian.toBytes 4 h.pktId.toBitVec ++ (BigEndian.toBytes 4 h.seqNo.toBitVec ++ rest)))) rfl
  have version := half_at 4 h.version (BigEndian.toBytes 4 h.length.toBitVec) (BigEndian.toBytes 2 h.flag.toBitVec ++
    (BigEndian.toBytes 4 h.pktId.toBitVec ++ (BigEndian.toBytes 4 h.seqNo.toBitVec ++ rest))) (by simp)
  have flag := half_at 6 h.flag (BigEndian.toBytes 4 h.length.toBitVec ++ BigEndian.toBytes 2 h.version.toBitVec)
    (BigEndian.toBytes 4 h.pktId.toBitVec ++ (BigEndian.toBytes 4 h.seqNo.toBitVec ++ rest)) (by simp)
  have pktId := word_at 8 h.pktId (BigEndian.toBytes 4 h.length.toBitVec ++ BigEndian.toBytes 2 h.version.toBitVec ++
    BigEndian.toBytes 2 h.flag.toBitVec) (BigEndian.toBytes 4 h.seqNo.toBitVec ++ rest) (by simp)
  have seqNo := word_at 12 h.seqNo (BigEndian.toBytes 4 h.length.toBitVec ++ BigEndian.toBytes 2 h.version.toBitVec ++
    BigEndian.toBytes 2 h.flag.toBitVec ++ BigEndian.toBytes 4 h.pktId.toBitVec) rest (by simp)
  simp only [List.append_assoc, List.nil_append] at length version flag pktId seqNo
  unfold headerAt headerBytes
  simp only [List.append_assoc, length, version, flag, pktId, seqNo]

/-! ## Where a packet's header is -/

/-- The memory that `GetBuffer()` points into. -/
def memory (pkt : PktBase) (mem : Block UInt8 n) : List UInt8 :=
  match pkt.incoming with
  | some _ => mem.cells
  | none => pkt.buf.buffer.cells

/-- Where it points to. -/
def base (pkt : PktBase) : Nat :=
  match pkt.incoming with
  | some incoming => incoming.buf.toNat
  | none => 0

theorem getBuffer_eq (pkt : PktBase) (mem : Block UInt8 n) :
    pkt.getBuffer mem.cells = (pkt.memory mem).drop pkt.base := by
  unfold getBuffer memory base
  cases pkt.incoming <;> rfl

/-- A store through `GetBuffer()` leaves the fields of the packet as they are. -/
structure SamePkt (pkt pkt' : PktBase) : Prop where
  header : pkt'.header = pkt.header
  incoming : pkt'.incoming = pkt.incoming
  length : pkt'.getLength = pkt.getLength

theorem SamePkt.trans {pkt'' : PktBase} (first : SamePkt pkt pkt') (second : SamePkt pkt' pkt'') : SamePkt pkt pkt'' :=
  ⟨second.header.trans first.header, second.incoming.trans first.incoming, second.length.trans first.length⟩

theorem SamePkt.base (same : SamePkt pkt pkt') : pkt'.base = pkt.base := by
  unfold PktBase.base
  rw [same.incoming]

theorem poke_spec (off : Nat) (xs : List UInt8) (cells : pkt.memory mem = pre ++ old ++ post) (start : pkt.base + off = pre.length)
    (same : xs.length = old.length) :
    ∃ pkt' mem', pkt.poke mem off xs = some (pkt', mem') ∧ pkt'.memory mem' = pre ++ xs ++ post ∧ SamePkt pkt pkt' := by
  unfold memory at cells
  unfold PktBase.base at start
  cases incoming : pkt.incoming with
  | some incoming =>
    rw [incoming] at cells start
    obtain ⟨mem', stored, is⟩ := Block.store_middle cells start same
    refine ⟨pkt, mem', by simp [poke, incoming, stored], ?_, rfl, rfl, rfl⟩
    simpa [memory, incoming] using is
  | none =>
    rw [incoming] at cells start
    rw [Nat.zero_add] at start
    obtain ⟨buffer, stored, is⟩ := Block.store_middle cells start same
    refine ⟨{ pkt with buf := { pkt.buf with buffer } }, mem, by simp [poke, incoming, stored], ?_, rfl, rfl, ?_⟩
    · simpa [memory, incoming] using is
    · simp [getLength, incoming]

/-- The bytes of the header are the fields of `m_pkt_header`, with the length of the packet. -/
structure Agrees (pkt : PktBase) (mem : Block UInt8 n) (before rest : List UInt8) : Prop where
  base : pkt.base = before.length
  memory : pkt.memory mem = before ++ headerBytes { pkt.header with length := pkt.getLength } ++ rest

/-- What a call does to `m_pkt_header`. -/
def HeaderOp.apply (h : PktHeader) : HeaderOp → PktHeader
  | .setVersion version => { h with version }
  | .setFlag flag => { h with flag }
  | .setSeqNo seqNo => { h with seqNo }
  | .writeHeader => h

/-- The fields of 16 bytes. -/
theorem exists_fields (width : old.length = 16) : ∃ a b c d e, old = a ++ b ++ c ++ d ++ e ∧
    a.length = 4 ∧ b.length = 2 ∧ c.length = 2 ∧ d.length = 4 ∧ e.length = 4 := by
  have rejoin (k j : Nat) : (old.drop k).take j ++ old.drop (k + j) = old.drop k := by
    rw [← List.drop_drop, List.take_append_drop]
  refine ⟨old.take 4, (old.drop 4).take 2, (old.drop 6).take 2, (old.drop 8).take 4, old.drop 12, ?_, ?_⟩
  · simp only [List.append_assoc]
    rw [rejoin 8 4, rejoin 6 2, rejoin 4 2, List.take_append_drop]
  · simp only [List.length_take, List.length_drop, width]
    decide

/-- `WriteHeader` makes the 16 bytes agree, whatever they have been. -/
theorem writeHeader_spec (cells : pkt.memory mem = before ++ old ++ rest) (base : pkt.base = before.length)
    (width : old.length = 16) : ∃ pkt' mem', pkt.writeHeader mem = some (pkt', mem') ∧ SamePkt pkt pkt' ∧
      Agrees pkt' mem' before rest := by
  obtain ⟨a, b, c, d, e, rfl, wa, wb, wc, wd, we⟩ := exists_fields width
  have signed := BigEndian.toBytesSigned_eq 4 pkt.getLength.toBitVec (Nat.le_refl _)
  have cells₀ : pkt.memory mem = before ++ a ++ (b ++ (c ++ (d ++ (e ++ rest)))) := by
    rw [cells]
    simp only [List.append_assoc]
  obtain ⟨pkt₁, mem₁, run₁, cells₁, same₁⟩ :=
    poke_spec 0 (BigEndian.toBytesSigned 4 pkt.getLength.toBitVec) cells₀ base (by rw [signed, wa]; simp)
  rw [← List.append_assoc _ b, signed] at cells₁
  obtain ⟨pkt₂, mem₂, run₂, cells₂, same₂⟩ := poke_spec 4 (BigEndian.toBytes 2 pkt₁.header.version.toBitVec)
    cells₁ (by rw [same₁.base, base]; simp) (by rw [wb]; simp)
  rw [← List.append_assoc _ c] at cells₂
  obtain ⟨pkt₃, mem₃, run₃, cells₃, same₃⟩ := poke_spec 6 (BigEndian.toBytes 2 pkt₂.header.flag.toBitVec)
    cells₂
    (by rw [(same₁.trans same₂).base, base]; simp) (by rw [wc]; simp)
  rw [← List.append_assoc _ d] at cells₃
  obtain ⟨pkt₄, mem₄, run₄, cells₄, same₄⟩ := poke_spec 8 (BigEndian.toBytes 4 pkt₃.header.pktId.toBitVec)
    cells₃
    (by rw [((same₁.trans same₂).trans same₃).base, base]; simp) (by rw [wd]; simp)
  rw [← List.append_assoc _ e] at cells₄
  obtain ⟨pkt₅, mem₅, run₅, cells₅, same₅⟩ := poke_spec 12 (BigEndian.toBytes 4 pkt₄.header.seqNo.toBitVec)
    cells₄
    (by rw [(((same₁.trans same₂).trans same₃).trans same₄).base, base]; simp) (by rw [we]; simp)
  have same := (((same₁.trans same₂).trans same₃).trans same₄).trans same₅
  refine ⟨pkt₅, mem₅, by simp [writeHeader, run₁, run₂, run₃, run₄, run₅], same, same.base.trans base, ?_⟩
  rw [cells₅, same.header, same.length, (((same₁.trans same₂).trans same₃).trans same₄).header,
    ((same₁.trans same₂).trans same₃).header, (same₁.trans same₂).header, same₁.header]
  simp only [headerBytes, List.append_assoc]

/-- What a call leaves of a packet whose bytes agree with its fields. -/
structure Applied (op : HeaderOp) (before rest : List UInt8) (pkt pkt' : PktBase) (mem' : Block UInt8 n) : Prop where
  agrees : Agrees pkt' mem' before rest
  header : pkt'.header = op.apply pkt.header
  incoming : pkt'.incoming = pkt.incoming
  length : pkt'.getLength = pkt.getLength

/-- Every call keeps the agreement. -/
theorem HeaderOp.exec_agrees (agrees : Agrees pkt mem before rest) (op : HeaderOp) :
    ∃ pkt' mem', op.exec pkt mem = some (pkt', mem') ∧ Applied op before rest pkt pkt' mem' := by
  obtain ⟨base, memory⟩ := agrees
  simp only [headerBytes, List.append_assoc] at memory
  -- a setter stores one field and then sets it
  have field (header : PktHeader) (is : header = op.apply pkt.header) (mem' : Block UInt8 n) (pkt₁ : PktBase)
      (same : SamePkt pkt pkt₁) (cells : pkt₁.memory mem' = before ++ headerBytes { header with length := pkt.getLength } ++ rest) :
      Applied op before rest pkt { pkt₁ with header } mem' := by
    refine ⟨⟨same.base.trans base, ?_⟩, is, same.incoming, same.length⟩
    show pkt₁.memory mem' = before ++ headerBytes { header with length := pkt₁.getLength } ++ rest
    rw [same.length]
    exact cells
  cases op with
  | setVersion version =>
    rw [← List.append_assoc before] at memory
    rw [← List.append_assoc (before ++ _)] at memory
    obtain ⟨pkt₁, mem₁, run, cells, same⟩ :=
      poke_spec 4 (BigEndian.toBytes 2 version.toBitVec) memory (by rw [base]; simp) (by simp)
    refine ⟨{ pkt₁ with header := { pkt₁.header with version } }, mem₁, by simp [exec, PktBase.setVersion, run], ?_⟩
    apply field _ (by rw [same.header]; rfl) mem₁ pkt₁ same
    rw [cells, same.header]
    simp only [headerBytes, List.append_assoc]
  | setFlag flag =>
    rw [← List.append_assoc before, ← List.append_assoc (before ++ _)] at memory
    rw [← List.append_assoc (before ++ _ ++ _)] at memory
    obtain ⟨pkt₁, mem₁, run, cells, same⟩ :=
      poke_spec 6 (BigEndian.toBytes 2 flag.toBitVec) memory (by rw [base]; simp) (by simp)
    refine ⟨{ pkt₁ with header := { pkt₁.header with flag } }, mem₁, by simp [exec, PktBase.setFlag, run], ?_⟩
    apply field _ (by rw [same.header]; rfl) mem₁ pkt₁ same
    rw [cells, same.header]
    simp only [headerBytes, List.append_assoc]
  | setSeqNo seqNo =>
    rw [← List.append_assoc before, ← List.append_assoc (before ++ _), ← List.append_assoc (before ++ _ ++ _),
      ← List.append_assoc (before ++ _ ++ _ ++ _)] at memory
    rw [← List.append_assoc (before ++ _ ++ _ ++ _ ++ _)] at memory
    obtain ⟨pkt₁, mem₁, run, cells, same⟩ :=
      poke_spec 12 (BigEndian.toBytes 4 seqNo.toBitVec) memory (by rw [base]; simp) (by simp)
    refine ⟨{ pkt₁ with header := { pkt₁.header with seqNo } }, mem₁, by simp [exec, PktBase.setSeqNo, run], ?_⟩
    apply field _ (by rw [same.header]; rfl) mem₁ pkt₁ same
    rw [cells, same.header]
    simp only [headerBytes, List.append_assoc]
  | writeHeader =>
    have whole : pkt.memory mem = before ++ headerBytes { pkt.header with length := pkt.getLength } ++ rest := by
      rw [memory]
      simp only [headerBytes, List.append_assoc]
    obtain ⟨pkt', mem', run, same, agrees⟩ := writeHeader_spec whole base (length_headerBytes _)
    exact ⟨pkt', mem', run, agrees, same.header, same.incoming, same.length⟩

/-- Calls in a row. -/
def execAll (pkt : PktBase) (mem : Block UInt8 n) (ops : List HeaderOp) : Option (PktBase × Block UInt8 n) :=
  runPartial (fun s op => op.exec s.1 s.2) (pkt, mem) ops

theorem execAll_agrees (agrees : Agrees pkt mem before rest) (ops : List HeaderOp) :
    ∃ pkt' mem', execAll pkt mem ops = some (pkt', mem') ∧ Agrees pkt' mem' before rest ∧
      pkt'.header = ops.foldl HeaderOp.apply pkt.header ∧ pkt'.incoming = pkt.incoming ∧
      pkt'.getLength = pkt.getLength := by
  induction ops generalizing pkt mem with
  | nil => exact ⟨pkt, mem, rfl, agrees, rfl, rfl, rfl⟩
  | cons op ops ih =>
    obtain ⟨pkt₁, mem₁, run, applied⟩ := op.exec_agrees agrees
    obtain ⟨pkt₂, mem₂, rest, agrees, header, incoming, length⟩ := ih applied.agrees
    refine ⟨pkt₂, mem₂, ?_, agrees, ?_, incoming.trans applied.incoming, length.trans applied.length⟩
    · rw [execAll, runPartial, run]
      exact rest
    · rw [header, applied.header]
      rfl

/-! ## Building a packet -/

/-- `SETUP_PKT_HEADER(id)`, and the payload written through `os`. -/
def setup (pktId : UInt32) (payload : List Field) : Option PktBase := do
  let buf ← SimpleBuffer.init.write none pktHeaderLen
  match (writeAll payload).run (ofSimple buf pktHeaderLen) with
  | .ok _ os =>
    match os.backing with
    | .simple buf => some ⟨buf, none, { PktHeader.init with pktId }⟩
    | .raw _ => none
  | .error _ _ => none

/-- The bytes of a packet. -/
def bytes (pkt : PktBase) (mem : Block UInt8 n) : List UInt8 := (pkt.getBuffer mem.cells).take pkt.getLength.toNat

/-- Writing to a `SimpleBuffer` as far as it stays inside the allocation. -/
theorem writePieces_of_ok {pieces : List (List UInt8)} {s t : CByteStream} {sb : SimpleBuffer} (wf : sb.WF)
    (backing : s.backing = .simple sb) (ran : (writePieces pieces).run s = .ok () t) :
    ∃ sb', t.backing = .simple sb' ∧ sb'.WF ∧ sb.writeOffset.toNat ≤ sb'.writeOffset.toNat := by
  induction pieces generalizing s sb with
  | nil =>
    cases ran
    exact ⟨sb, backing, wf, Nat.le_refl _⟩
  | cons p ps ih =>
    cases written : sb.write (some p) (UInt32.ofNat p.length) with
    | none =>
      simp [writePieces, writeByte, backing, written] at ran
    | some mid =>
      have enough : (UInt32.ofNat p.length).toNat ≤ p.length := by
        rw [UInt32.toNat_ofNat']
        exact Nat.mod_le _ _
      obtain ⟨wf', -, -, write⟩ := SimpleBuffer.write_of_some wf written enough
      simp [writePieces, writeByte, backing, written] at ran
      obtain ⟨sb', there, wf'', more⟩ := ih wf' rfl ran
      exact ⟨sb', there, wf'', by omega⟩

/-- A packet with its payload, before `WriteHeader`. -/
structure Setup (pktId : UInt32) (pkt : PktBase) : Prop where
  own : pkt.incoming = none
  header : pkt.header = { PktHeader.init with pktId }
  wf : pkt.buf.WF
  space : 16 ≤ pkt.buf.writeOffset.toNat

theorem setup_spec {pktId : UInt32} {payload : List Field} (built : setup pktId payload = some pkt) : Setup pktId pkt := by
  have wf : ({ SimpleBuffer.init.reserve pktHeaderLen with writeOffset := 16 } : SimpleBuffer).WF := by
    constructor <;> decide
  have space : SimpleBuffer.init.write none pktHeaderLen =
    some { SimpleBuffer.init.reserve pktHeaderLen with writeOffset := 16 } := rfl
  simp only [setup, space, Option.bind_eq_bind, Option.bind_some, writeAll_eq] at built
  split at built
  next os ran =>
    obtain ⟨sb, backing, wf', more⟩ := writePieces_of_ok wf rfl ran
    rw [backing] at built
    cases built
    exact ⟨rfl, rfl, wf', more⟩
  next => cases built

/-! ## A packet that is sent -/

/-- What `ReadPktHeader` and the getters say after the calls `ops` on a packet with `pktId`. -/
structure Described (pktId : UInt32) (ops : List HeaderOp) (pkt built : PktBase) (mem : Block UInt8 n) : Prop where
  read : readPktHeader (built.getBuffer mem.cells) built.getLength =
    .ok (some { ops.foldl HeaderOp.apply { PktHeader.init with pktId } with length := built.getLength })
  getters : built.header = ops.foldl HeaderOp.apply { PktHeader.init with pktId }
  pktId : built.header.pktId = pktId
  length : built.getLength = pkt.getLength
  payload : (built.bytes mem).drop 16 = (pkt.bytes mem).drop 16

theorem HeaderOp.apply_pktId (ops : List HeaderOp) (h : PktHeader) :
    (ops.foldl HeaderOp.apply h).pktId = h.pktId ∧ (ops.foldl HeaderOp.apply h).length = h.length := by
  induction ops generalizing h with
  | nil => exact ⟨rfl, rfl⟩
  | cons op ops ih =>
    obtain ⟨pktId, length⟩ := ih (op.apply h)
    rw [List.foldl_cons, pktId, length]
    cases op <;> exact ⟨rfl, rfl⟩

/-- A packet with bytes of its own has them from the start of its buffer on. -/
theorem Agrees.own (agrees : Agrees pkt mem before rest) (own : pkt.incoming = none) :
    before = [] ∧ pkt.getBuffer mem.cells = headerBytes { pkt.header with length := pkt.getLength } ++ rest := by
  obtain ⟨base, memory⟩ := agrees
  have start : pkt.base = 0 := by
    unfold PktBase.base
    rw [own]
  rw [start] at base
  obtain rfl := List.eq_nil_of_length_eq_zero base.symm
  refine ⟨rfl, ?_⟩
  rw [getBuffer_eq, memory, start]
  rfl

/-- `WriteHeader` and other calls on a packet with its payload. -/
theorem Setup.described {pktId : UInt32} (made : Setup pktId pkt) (mem : Block UInt8 n) (ops : List HeaderOp) :
    ∃ built mem', execAll pkt mem (.writeHeader :: ops) = some (built, mem') ∧ built.incoming = none ∧
      Agrees built mem' [] (pkt.buf.buffer.cells.drop 16) ∧ Described pktId ops pkt built mem' := by
  obtain ⟨own, header, wf, space⟩ := made
  have inside := wf.write_le
  have size := pkt.buf.buffer.size
  have length : pkt.getLength = pkt.buf.writeOffset := by
    unfold getLength
    rw [own]
  have start : pkt.base = ([] : List UInt8).length := by
    unfold PktBase.base
    rw [own]
    rfl
  have cells : pkt.memory mem = [] ++ pkt.buf.buffer.cells.take 16 ++ pkt.buf.buffer.cells.drop 16 := by
    unfold memory
    rw [own, List.nil_append, List.take_append_drop]
  obtain ⟨pkt₁, mem₁, first, same, agrees₁⟩ := writeHeader_spec cells start (by rw [List.length_take]; omega)
  obtain ⟨built, mem', rest, agrees, header', incoming, length'⟩ := execAll_agrees agrees₁ ops
  rw [same.header, header] at header'
  rw [same.length] at length'
  have own' : built.incoming = none := incoming.trans (same.incoming.trans own)
  have front := (agrees.own own').2
  have whole (cells : List UInt8) : pkt.getBuffer cells = pkt.buf.buffer.cells := by
    unfold getBuffer
    rw [own]
  refine ⟨built, mem', ?_, own', agrees, ⟨?_, header', ?_, length', ?_⟩⟩
  · rw [execAll, runPartial]
    show (pkt.writeHeader mem).bind _ = _
    rw [first]
    exact rest
  · rw [front, readPktHeader_run (by rw [length', length]; exact space), List.take_append, length_headerBytes,
      List.take_of_length_le, headerAt_headerBytes, header']
    · rw [length_headerBytes, length', length]
      exact space
    · rw [List.length_append, length_headerBytes, List.length_drop, length', length]
      omega
  · rw [header']
    exact (HeaderOp.apply_pktId ops _).1
  · unfold bytes
    rw [front, whole, List.drop_take, List.drop_take, List.drop_left' (length_headerBytes _), length']

/-! ## A heartbeat that is received -/

/-- `ReadPacket` on a heartbeat with other bytes around it. -/
theorem readPacket_heartbeat {buf len : UInt32} {extra : List UInt8} (cells : mem.cells = before ++ headerBytes h ++ extra)
    (start : buf.toNat = before.length) (count : len.toNat = 16 + extra.length) (width : h.length = 16)
    (id : h.pktId = pktIdHeartbeat) :
    readPacket mem.cells buf len = .ok (some ⟨.init, some ⟨buf, 16⟩, h⟩) := by
  have data : mem.cells.drop buf.toNat = headerBytes h ++ extra := by
    rw [cells, start, List.append_assoc, List.drop_left]
  have total : (headerBytes h ++ extra).length = len.toNat := by
    rw [List.length_append, length_headerBytes, count]
  have fields := headerAt_headerBytes h extra
  have lengthAt : wordAt (headerBytes h ++ extra) 0 = 16 := (congrArg PktHeader.length fields).trans width
  have pktIdAt : wordAt (headerBytes h ++ extra) 8 = pktIdHeartbeat := (congrArg PktHeader.pktId fields).trans id
  have frame : frameAt (headerBytes h ++ extra) = .packet 16 := by
    have short : ¬ (headerBytes h ++ extra).length < 16 := by omega
    have part : ¬ (headerBytes h ++ extra).length < (16 : UInt32).toNat := short
    unfold frameAt
    rw [lengthAt, pktIdAt, if_neg short, if_neg (by decide), if_neg part, if_neg (not_not.mpr rfl),
      if_neg (not_not.mpr rfl)]
  have inside : buf.toNat + len.toNat ≤ mem.cells.length := by
    rw [cells, start, ← total]
    simp only [List.length_append]
    omega
  rw [readPacket_eq inside, data, List.take_of_length_le (Nat.le_of_eq total), frame]
  have front : (headerBytes h ++ extra).take (16 : UInt32).toNat = headerBytes h ++ [] := by
    rw [List.append_nil]
    exact List.take_left' (length_headerBytes h)
  simp only [front, headerAt_headerBytes]

/-- Outside of the fields for version, flag and sequence number the memories are the same. -/
def SameOutside (off : Nat) (mem mem' : Block UInt8 n) : Prop :=
  ∀ i, i < off + 4 ∨ off + 8 ≤ i ∧ i < off + 12 ∨ off + 16 ≤ i → mem'.cells[i]? = mem.cells[i]?

theorem sameOutside_of_header {h' : PktHeader} {extra : List UInt8} (cells : mem.cells = before ++ headerBytes h ++ extra)
    (cells' : mem'.cells = before ++ headerBytes h' ++ extra) (length : h'.length = h.length) (id : h'.pktId = h.pktId) :
    SameOutside before.length mem mem' := by
  intro i outside
  rw [cells, cells']
  simp only [headerBytes, length, id, List.getElem?_append, List.length_append, BigEndian.length_toBytes]
  split_ifs <;> first | rfl | omega

/-- What is left of a heartbeat in a receive buffer after calls on it. -/
structure Updated (ops : List HeaderOp) (buf len : UInt32) (incoming pkt : PktBase) (mem mem' : Block UInt8 n) : Prop where
  getters : pkt.header = ops.foldl HeaderOp.apply incoming.header
  outside : SameOutside buf.toNat mem mem'
  again : ∃ parsed, readPacket mem'.cells buf len = .ok (some parsed) ∧ parsed.getLength = 16 ∧
    parsed.header = ops.foldl HeaderOp.apply incoming.header ∧ parsed.header.length = incoming.header.length ∧
    parsed.header.pktId = incoming.header.pktId

/-- What `ReadPacket` gives for the bytes of a heartbeat `built` with other bytes around them. -/
structure Parsed (buf len : UInt32) (built incoming : PktBase) (mem : Block UInt8 n) : Prop where
  read : readPacket mem.cells buf len = .ok (some incoming)
  getters : incoming.header = { built.header with length := 16 }
  length : incoming.getLength = 16
  updates : ∀ ops, ∃ pkt mem', execAll incoming mem ops = some (pkt, mem') ∧ Updated ops buf len incoming pkt mem mem'

theorem parsed_of_header {buf len : UInt32} {built : PktBase} {extra : List UInt8}
    (cells : mem.cells = before ++ headerBytes { built.header with length := 16 } ++ extra) (start : buf.toNat = before.length)
    (count : len.toNat = 16 + extra.length) (id : built.header.pktId = pktIdHeartbeat) :
    ∃ incoming, Parsed buf len built incoming mem := by
  have read := readPacket_heartbeat cells start count rfl id
  refine ⟨_, read, rfl, rfl, fun ops => ?_⟩
  have agrees : Agrees ⟨.init, some ⟨buf, 16⟩, { built.header with length := 16 }⟩ mem before extra := ⟨start, cells⟩
  obtain ⟨pkt, mem', ran, agrees', header, incoming, length⟩ := execAll_agrees agrees ops
  obtain ⟨id', length'⟩ := HeaderOp.apply_pktId ops { built.header with length := 16 }
  have width : pkt.header.length = 16 := by
    rw [header, length']
  have here : mem'.cells = pkt.memory mem' := by
    unfold memory
    rw [incoming]
  have sixteen : pkt.getLength = 16 := length
  have cells' : mem'.cells = before ++ headerBytes pkt.header ++ extra := by
    rw [here, agrees'.memory, sixteen, ← width]
  refine ⟨pkt, mem', ran, header, ?_, _, readPacket_heartbeat cells' start count width ?_, rfl, header, ?_, ?_⟩
  · rw [start]
    exact sameOutside_of_header cells cells' width (by rw [header, id'])
  · rw [header, id']
    exact id
  · exact width
  · rw [header, id']

/-- **The header and its setters describe one layout**, for a packet that is sent and for a heartbeat that is received. -/
theorem header_layout :
    (∀ pktId payload pkt, setup pktId payload = some pkt → ∀ ops, ∃ built mem',
      execAll pkt Block.empty (.writeHeader :: ops) = some (built, mem') ∧ Described pktId ops pkt built mem') ∧
    ∀ ops, ∃ pkt built mem', setup pktIdHeartbeat [] = some pkt ∧
      execAll pkt Block.empty (.writeHeader :: ops) = some (built, mem') ∧
      ∀ {n : Nat} (mem : Block UInt8 n) (before extra : List UInt8) (buf len : UInt32),
        mem.cells = before ++ built.bytes mem' ++ extra → buf.toNat = before.length → len.toNat = 16 + extra.length →
        ∃ incoming, Parsed buf len built incoming mem := by
  constructor
  · intro pktId payload pkt made ops
    obtain ⟨built, mem', ran, -, -, described⟩ := (setup_spec made).described Block.empty ops
    exact ⟨built, mem', ran, described⟩
  · intro ops
    obtain ⟨pkt, made⟩ : ∃ pkt, setup pktIdHeartbeat [] = some pkt := ⟨_, rfl⟩
    obtain ⟨built, mem', ran, own, agrees, described⟩ := (setup_spec made).described Block.empty ops
    refine ⟨pkt, built, mem', made, ran, fun mem before extra buf len cells start count => ?_⟩
    have width : built.getLength = 16 := by
      rw [described.length]
      cases made
      rfl
    have front : built.bytes mem' = headerBytes { built.header with length := 16 } := by
      unfold bytes
      rw [(agrees.own own).2, width]
      exact List.take_left' (length_headerBytes _)
    rw [front] at cells
    exact parsed_of_header cells start count described.pktId

end Netter.PktBase
