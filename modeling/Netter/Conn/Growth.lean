import Netter.Conn.Release
import Netter.Conn.Room
import Netter.SimpleBuffer.Capacity

/-!
# The receive buffer of a run

`Extend` computes the new size of `m_in_buf` modulo `2 ^ 32`. As long as the exact sizes of a run stay below that,
an `OnRead` feeds the greedy decoder, whatever the sizes are; the first one that does not leaves the write offset
behind the end of the block for good, and the next byte that arrives is stored there.
-/

namespace Netter.BaseConn

open Lib Framing PktBase SimpleBuffer

/-- The size of the block when there is room for `kReadBufSize` bytes behind `write`. -/
def roomFor (alloc write : Nat) : Nat :=
  if alloc - write < 2048 then write + 2048 + (write + 2048) / 4 else alloc

/-- The size of the block when `_RecvData` returns. -/
def grown : List Chunk → Nat → Nat → Nat
  | [], alloc, write => roomFor alloc write
  | chunk :: chunks, alloc, write => grown chunks (roomFor alloc write) (write + chunk.bytes.length)

/-- The size of the block after some `OnRead`, when the decoding of what came before has stopped or waits. -/
def capacity (handlePkt : List Received → List HandlerAct) :
    List (List Chunk) → Nat → Outcome (List Received × Bool) UInt8 → Nat
  | [], alloc, _ => alloc
  | _ :: _, alloc, .stopped _ => alloc
  | recvs :: events, alloc, .waiting st rest =>
    capacity handlePkt events (grown recvs alloc rest.length)
      ((greedy handlePkt).feed (.waiting st rest) (chunkBytes recvs))

variable {b after : SimpleBuffer} {chunks : List Chunk} {s t : ConnState}

/-! ## `_RecvData` -/

theorem le_roomFor (alloc write : Nat) : alloc ≤ roomFor alloc write ∧ write + 2048 ≤ roomFor alloc write := by
  unfold roomFor
  split <;> omega

theorem le_grown (chunks : List Chunk) (alloc write : Nat) : roomFor alloc write ≤ grown chunks alloc write := by
  induction chunks generalizing alloc write with
  | nil => exact Nat.le_refl _
  | cons chunk chunks ih => exact Nat.le_trans (le_roomFor _ _).1 (ih _ _)

theorem toNat_extend (b : SimpleBuffer) (len : UInt32) : (b.extend len).allocSize.toNat =
    ((b.writeOffset.toNat + len.toNat) % 2 ^ 32 + (b.writeOffset.toNat + len.toNat) % 2 ^ 32 / 4) % 2 ^ 32 := by
  simp [extend, UInt32.toNat_add, UInt32.toNat_shiftRight, Nat.shiftRight_eq_div_pow]

/-- The write offset is behind the end of the block. -/
def Spoiled (b : SimpleBuffer) : Prop := b.allocSize.toNat < b.writeOffset.toNat

/-- A size that is not exact is too small by far. -/
theorem spoiled_extend (wraps : 2 ^ 32 ≤ b.writeOffset.toNat + 2048 + (b.writeOffset.toNat + 2048) / 4) :
    Spoiled (b.extend kReadBufSize) := by
  have size := toNat_extend b kReadBufSize
  have width : kReadBufSize.toNat = 2048 := rfl
  have bound := b.writeOffset.toNat_lt
  rw [width] at size
  show (b.extend kReadBufSize).allocSize.toNat < b.writeOffset.toNat
  by_cases sum : b.writeOffset.toNat + 2048 < 2 ^ 32
  · rw [Nat.mod_eq_of_lt sum] at size
    omega
  · have low : (b.writeOffset.toNat + 2048) % 2 ^ 32 = b.writeOffset.toNat + 2048 - 2 ^ 32 := by omega
    rw [low, Nat.mod_eq_of_lt (by omega)] at size
    omega

theorem makeRoom_size (wf : b.WF) :
    roomFor b.allocSize.toNat b.writeOffset.toNat < 2 ^ 32 ∧
        (makeRoom b).allocSize.toNat = roomFor b.allocSize.toNat b.writeOffset.toNat ∨
      2 ^ 32 ≤ roomFor b.allocSize.toNat b.writeOffset.toNat ∧ Spoiled (makeRoom b) := by
  have bound := b.allocSize.toNat_lt
  have test : b.getWritableLen < kReadBufSize ↔ b.allocSize.toNat - b.writeOffset.toNat < 2048 := by
    rw [UInt32.lt_iff_toNat_lt, wf.toNat_getWritableLen]
    rfl
  unfold makeRoom roomFor
  by_cases short : b.allocSize.toNat - b.writeOffset.toNat < 2048
  · rw [if_pos short, if_pos (test.mpr short)]
    by_cases wraps : 2 ^ 32 ≤ b.writeOffset.toNat + 2048 + (b.writeOffset.toNat + 2048) / 4
    · exact .inr ⟨wraps, spoiled_extend wraps⟩
    · exact .inl ⟨by omega, toNat_allocSize_extend (by exact Nat.lt_of_not_le wraps)⟩
  · rw [if_neg short, if_neg (mt test.mp short)]
    exact .inl ⟨bound, rfl⟩

/-- Nothing is stored in a spoiled buffer. -/
theorem Spoiled.fill {bytes : List UInt8} (spoiled : Spoiled b) : b.fill bytes = none := by
  have beyond : ¬ b.writeOffset.toNat + bytes.length ≤ b.allocSize.toNat := by
    have behind : b.allocSize.toNat < b.writeOffset.toNat := spoiled
    omega
  simp only [SimpleBuffer.fill, Block.store, beyond, dite_false, Option.bind_eq_bind, Option.bind_none]

theorem Spoiled.makeRoom (spoiled : Spoiled b) : Spoiled (makeRoom b) := by
  have behind : b.allocSize.toNat < b.writeOffset.toNat := spoiled
  unfold BaseConn.makeRoom
  split
  next short =>
    rw [UInt32.lt_iff_toNat_lt, getWritableLen, UInt32.toNat_sub] at short
    have width : kReadBufSize.toNat = 2048 := rfl
    have bound := b.writeOffset.toNat_lt
    exact spoiled_extend (by omega)
  next => exact spoiled

theorem receive_size (chunks : List Chunk) (wf : b.WF) :
    grown chunks b.allocSize.toNat b.writeOffset.toNat < 2 ^ 32 ∧ (∃ calls after,
        receive chunks b = some (calls, after) ∧ after.writeOffset.toNat ≤ after.allocSize.toNat ∧
          after.allocSize.toNat = grown chunks b.allocSize.toNat b.writeOffset.toNat) ∨
      2 ^ 32 ≤ grown chunks b.allocSize.toNat b.writeOffset.toNat ∧
        ∀ calls after, receive chunks b = some (calls, after) → Spoiled after := by
  induction chunks generalizing b with
  | nil =>
    refine (makeRoom_size wf).imp ?_ ?_
    · rintro ⟨exact_, size⟩
      have room := (le_roomFor b.allocSize.toNat b.writeOffset.toNat).2
      refine ⟨exact_, [makeRoom b], makeRoom b, rfl, ?_, size⟩
      rw [makeRoom_writeOffset, size]
      omega
    · rintro ⟨wraps, spoiled⟩
      refine ⟨wraps, fun calls after received => ?_⟩
      cases received
      exact spoiled
  | cons chunk rest ih =>
    rcases makeRoom_size wf with ⟨exact_, size⟩ | ⟨wraps, spoiled⟩
    · have room := (le_roomFor b.allocSize.toNat b.writeOffset.toNat).2
      have width := chunk.le
      have buffer : kReadBufSize.toNat = 2048 := rfl
      have count : (UInt32.ofNat chunk.bytes.length).toNat = chunk.bytes.length :=
        UInt32.toNat_ofNat_of_lt' (show chunk.bytes.length < 2 ^ 32 by omega)
      obtain ⟨wf', -⟩ := makeRoom_of_le wf (by omega)
      obtain ⟨m, filled, moved, -, -, last, same⟩ := fill_spec wf' count (by rw [makeRoom_writeOffset]; omega)
      have later := ih moved
      rw [last, makeRoom_writeOffset, show (m.incWriteOffset _).allocSize = m.allocSize from rfl, same, size] at later
      simp only [receive, filled, Option.bind_eq_bind, Option.bind_some, Option.bind_eq_some_iff]
      refine later.imp ?_ ?_
      · rintro ⟨exact_, calls, after, received, rest⟩
        exact ⟨exact_, makeRoom b :: calls, after, ⟨(calls, after), received, rfl⟩, rest⟩
      · rintro ⟨wraps, spoils⟩
        refine ⟨wraps, ?_⟩
        rintro calls after ⟨⟨calls', after'⟩, received, same⟩
        cases same
        exact spoils calls' _ received
    · refine .inr ⟨Nat.le_trans wraps (le_grown (chunk :: rest) _ _), fun calls after received => ?_⟩
      rw [receive, spoiled.fill] at received
      cases received

/-- A `_RecvData` on a spoiled buffer ends at once, or leaves the block. -/
theorem receive_spoiled {calls : List SimpleBuffer} (spoiled : Spoiled b) (received : receive chunks b = some (calls, after)) :
    Spoiled after := by
  cases chunks with
  | nil =>
    cases received
    exact spoiled.makeRoom
  | cons chunk rest =>
    rw [receive, spoiled.makeRoom.fill] at received
    cases received

theorem receive_readOffset {calls : List SimpleBuffer} (received : receive chunks b = some (calls, after)) :
    after.readOffset = b.readOffset := by
  have room (b : SimpleBuffer) : (makeRoom b).readOffset = b.readOffset := by
    unfold makeRoom
    split <;> rfl
  induction chunks generalizing b calls with
  | nil =>
    cases received
    exact room b
  | cons chunk rest ih =>
    simp only [receive, fill, Option.bind_eq_bind, Option.bind_eq_some_iff] at received
    obtain ⟨m, ⟨cells, -, is⟩, ⟨calls', last⟩, received, same⟩ := received
    cases is
    cases same
    exact (ih received).trans (room b)

/-- `_RecvData` touches the buffer and the socket only. -/
theorem recvData_frame (fuel : Nat) :
    wp (recvData fuel) (fun _ t => t.conn.handle = s.conn.handle ∧ t.trace = s.trace) (fun _ _ => True) s := by
  induction fuel generalizing s with
  | zero => exact trivial
  | succ fuel ih =>
    simp only [recvData, wp_bind, wp_get, BaseSocket.recv]
    cases s.socket.recvs with
    | nil => exact ⟨rfl, rfl⟩
    | cons chunk rest =>
      cases filled : (makeRoom s.conn.inBuf).fill chunk.bytes with
      | none =>
        simp only [filled]
        exact trivial
      | some m =>
        simp only [filled, orUndefined, Stop.ofOption, wp_ofExcept_ok, wp_set, wp_bind]
        exact ih

/-! ## `_ParsePkt` -/

/-- Where the offsets are and how large the block is. -/
structure SameSizes (b b' : SimpleBuffer) : Prop where
  alloc : b'.allocSize = b.allocSize
  write : b'.writeOffset = b.writeOffset

theorem SameSizes.refl (b : SimpleBuffer) : SameSizes b b := ⟨rfl, rfl⟩

/-- The calls of a `HandlePkt` write into the block. -/
theorem runActs_sizes (acts : List HandlerAct) (pkt : PktBase) :
    wp (runActs acts pkt) (fun _ t => SameSizes s.conn.inBuf t.conn.inBuf ∧
      t.conn.inBuf.readOffset = s.conn.inBuf.readOffset) (fun stop _ => stop = .undefined) s := by
  induction acts generalizing pkt s with
  | nil => exact ⟨.refl _, rfl⟩
  | cons act acts ih =>
    cases act with
    | header op =>
      simp only [runActs, wp_bind, wp_get]
      cases ran : op.exec pkt s.conn.inBuf.buffer with
      | none => exact rfl
      | some result =>
        simp only [orUndefined, Stop.ofOption, wp_ofExcept_ok, wp_set]
        exact (ih result.1).mono (fun _ _ same => ⟨⟨same.1.alloc, same.1.write⟩, same.2⟩) fun _ _ is => is
    | close =>
      simp only [runActs, wp_bind]
      by_cases closed : s.conn.handle = invalidHandle
      · refine (close_wp_closed closed).call fun _ t is => ?_
        subst is
        exact ih pkt
      · refine (close_wp closed).call fun _ t closes => ?_
        rw [← closes.1]
        exact ih pkt

/-- A packet that has been read points to where it was read. -/
theorem readPacket_incoming {mem : List UInt8} {buf len : UInt32} {pkt : PktBase}
    (read : readPacket mem buf len = .ok (some pkt)) : ∃ pktLen, pkt.incoming = some ⟨buf, pktLen⟩ := by
  simp only [readPacket, bind, Except.bind] at read
  split at read
  next => cases read
  next available =>
  split at read
  next => cases read
  next pktLen =>
  split at read
  next => cases read
  next pktId =>
  split at read
  next =>
    split at read
    next => cases read
    next made =>
      cases read
      exact ⟨pktLen, rfl⟩
  next => cases read

variable {handlePkt : HandlePkt}

theorem callHandlePkt_sizes {pkt : PktBase} {len : UInt32} (here : pkt.incoming = some ⟨s.conn.inBuf.readOffset, len⟩)
    (inside : s.conn.inBuf.readOffset.toNat ≤ s.conn.inBuf.allocSize.toNat) :
    wp (callHandlePkt handlePkt pkt)
      (fun _ t => (SameSizes s.conn.inBuf t.conn.inBuf ∧ t.conn.inBuf.readOffset = s.conn.inBuf.readOffset) ∧
        s.conn.inBuf.readOffset.toNat + len.toNat ≤ s.conn.inBuf.allocSize.toNat)
      (fun stop t => stop = .undefined ∨ SameSizes s.conn.inBuf t.conn.inBuf ∧
        t.conn.inBuf.readOffset = s.conn.inBuf.readOffset) s := by
  simp only [callHandlePkt, wp_bind, wp_get, getBuffer, getLength, here]
  by_cases fits : 0 + len.toNat ≤ (s.conn.inBuf.buffer.cells.drop s.conn.inBuf.readOffset.toNat).length
  · rw [load_eq_some fits]
    rw [List.length_drop, s.conn.inBuf.buffer.size] at fits
    simp only [orUndefined, Stop.ofOption, wp_ofExcept_ok, record, wp_modify]
    refine (runActs_sizes _ pkt).mono (fun _ t same => ?_) fun _ _ is => .inl is
    split
    · exact .inr same
    · exact ⟨same, by omega⟩
  · rw [load_eq_none (by omega)]
    exact .inl rfl

/-- The parse loop moves the read offset, and stays inside the block with it. -/
structure Parses (b b' : SimpleBuffer) : Prop extends SameSizes b b' where
  inside : b'.readOffset.toNat ≤ b'.allocSize.toNat

theorem parseLoop_sizes {fuel : Nat} (inside : s.conn.inBuf.readOffset.toNat ≤ s.conn.inBuf.allocSize.toNat) :
    wp (parseLoop handlePkt fuel) (fun _ t => Parses s.conn.inBuf t.conn.inBuf)
      (fun stop t => stop = .undefined ∨ Parses s.conn.inBuf t.conn.inBuf) s := by
  induction fuel generalizing s with
  | zero => exact .inl rfl
  | succ fuel ih =>
    have here : Parses s.conn.inBuf s.conn.inBuf := ⟨.refl _, inside⟩
    simp only [parseLoop, wp_bind, wp_get]
    cases next : readPacket s.conn.inBuf.buffer.cells s.conn.inBuf.readOffset s.conn.inBuf.getReadableLen with
    | error stop => exact .inr here
    | ok result =>
      cases result with
      | none => exact here
      | some pkt =>
        obtain ⟨len, incoming⟩ := readPacket_incoming next
        simp only [wp_ofExcept_ok, wp_bind, getLength, incoming]
        refine (callHandlePkt_sizes incoming inside).mono ?_ ?_
        · rintro - t ⟨⟨⟨alloc, write⟩, front⟩, room⟩
          simp only [wp_modify, record, wp_get, wp_ite, wp_pure]
          have taken : (t.conn.inBuf.readLen len).toNat ≤ len.toNat := by
            unfold readLen
            split
            next most => exact Nat.le_of_lt (UInt32.lt_iff_toNat_lt.mp most)
            next => exact Nat.le_refl _
          have moved : (t.conn.inBuf.readNull len).readOffset.toNat ≤ t.conn.inBuf.allocSize.toNat := by
            have bound := t.conn.inBuf.allocSize.toNat_lt
            show (t.conn.inBuf.readOffset + t.conn.inBuf.readLen len).toNat ≤ _
            rw [← alloc, ← front] at room
            rw [UInt32.toNat_add]
            omega
          split
          · exact ⟨⟨alloc, write⟩, moved⟩
          · refine (ih moved).mono ?_ ?_
            · rintro - u ⟨⟨alloc', write'⟩, inside'⟩
              exact ⟨⟨alloc'.trans alloc, write'.trans write⟩, inside'⟩
            · rintro stop u (is | ⟨⟨alloc', write'⟩, inside'⟩)
              · exact .inl is
              · exact .inr ⟨⟨alloc'.trans alloc, write'.trans write⟩, inside'⟩
        · rintro stop t (is | ⟨same, front⟩)
          · exact .inl is
          · exact .inr ⟨same, by rw [front, same.alloc]; exact inside⟩

theorem catchPkt_frame (ex : PktException) :
    wp (catchPkt ex) (fun _ t => t.conn.inBuf = s.conn.inBuf ∧ t.conn.handle = invalidHandle) (fun _ _ => True) s := by
  simp only [catchPkt, wp_bind, record, wp_modify]
  split
  · simp only [wp_bind, wp_get]
    cases readPktHeader (s.conn.inBuf.buffer.cells.drop s.conn.inBuf.readOffset.toNat) pktHeaderLen with
    | error stop => exact trivial
    | ok header => exact onClose_wp.call fun _ _ closes => ⟨closes.1, closes.2.1⟩
  · exact onClose_wp.call fun _ _ closes => ⟨closes.1, closes.2.1⟩

/-- `ResetOffset` moves nothing in a spoiled buffer that is inside its block. -/
theorem resetOffset_spoiled (spoiled : Spoiled b) (inside : b.readOffset.toNat ≤ b.allocSize.toNat)
    (reset : b.resetOffset = some after) : after = b ∧ b.readOffset = 0 := by
  have behind : b.allocSize.toNat < b.writeOffset.toNat := spoiled
  unfold resetOffset at reset
  split at reset
  next zero => exact ⟨(Option.some.inj reset).symm, zero⟩
  next =>
    have unread : b.readOffset < b.writeOffset := UInt32.lt_iff_toNat_lt.mpr (by omega)
    have readable : b.getReadableLen.toNat = b.writeOffset.toNat - b.readOffset.toNat := by
      rw [getReadableLen, UInt32.toNat_sub_of_le]
      exact UInt32.le_of_lt unread
    have beyond : b.buffer.load b.readOffset.toNat b.getReadableLen.toNat = none :=
      load_eq_none (by rw [b.buffer.size]; omega)
    simp only [unread, if_true, Block.move, beyond, Option.bind_none, Option.bind_eq_bind] at reset
    cases reset

theorem resetOffset_allocSize (reset : b.resetOffset = some after) : after.allocSize = b.allocSize := by
  unfold resetOffset at reset
  split at reset
  · cases reset
    rfl
  simp only [Option.bind_eq_bind, Option.bind_some] at reset
  split at reset
  · obtain ⟨buffer, -, is⟩ := Option.bind_eq_some_iff.mp reset
    cases is
    rfl
  · cases reset
    rfl

/-- A spoiled buffer, with all that it holds still in front of another `OnRead`. -/
def Lost (s : ConnState) : Prop :=
  Spoiled s.conn.inBuf ∧ (s.conn.handle ≠ invalidHandle → s.conn.inBuf.readOffset = 0)

theorem parsePkt_sizes (inside : s.conn.inBuf.readOffset.toNat ≤ s.conn.inBuf.allocSize.toNat) :
    wp (parsePkt handlePkt)
      (fun _ t => t.conn.inBuf.allocSize = s.conn.inBuf.allocSize ∧ (Spoiled s.conn.inBuf → Lost t))
      (fun _ _ => True) s := by
  have spoils {t : ConnState} (parsed : Parses s.conn.inBuf t.conn.inBuf) (spoiled : Spoiled s.conn.inBuf) :
      Spoiled t.conn.inBuf := by
    unfold Spoiled
    rw [parsed.alloc, parsed.write]
    exact spoiled
  simp only [parsePkt, wp_tryCatch, wp_bind, wp_get]
  refine (parseLoop_sizes inside).mono ?_ ?_
  · intro _ t parsed
    cases reset : t.conn.inBuf.resetOffset with
    | none => exact trivial
    | some after =>
      refine ⟨(resetOffset_allocSize reset).trans parsed.alloc, fun spoiled => ?_⟩
      obtain ⟨rfl, front⟩ := resetOffset_spoiled (spoils parsed spoiled) parsed.inside reset
      exact ⟨spoils parsed spoiled, fun _ => front⟩
  · rintro stop t (is | parsed)
    · subst is
      exact trivial
    · cases stop with
      | undefined => exact trivial
      | throws ex =>
        refine (catchPkt_frame ex).mono (fun _ u caught => ?_) fun _ _ h => h
        obtain ⟨same, closed⟩ := caught
        rw [same]
        refine ⟨parsed.alloc, fun spoiled => ⟨?_, fun stays => absurd closed stays⟩⟩
        rw [same]
        exact spoils parsed spoiled

/-! ## A run -/

/-- Nothing that happens later puts the write offset back. -/
theorem deliver_lost (events : List (List Chunk)) (lost : Lost s) :
    wp (deliver handlePkt events) (fun _ t => Lost t) (fun _ _ => True) s := by
  induction events generalizing s with
  | nil => exact lost
  | cons recvs events ih =>
    obtain ⟨spoiled, front⟩ := lost
    simp only [deliver, wp_bind, wp_get]
    by_cases stays : s.conn.handle ≠ invalidHandle
    · rw [if_pos stays, wp_bind, wp_modify]
      simp only [onRead, wp_bind, wp_get]
      have received := @recvData_receive (recvs.length + 1) { s with socket := { s.socket with recvs } } (Nat.lt_succ_self _)
      refine received.mono ?_ fun _ _ _ => trivial
      rintro - t ⟨calls, received⟩
      have spoiled' := receive_spoiled spoiled received
      have front' : t.conn.inBuf.readOffset = 0 := (receive_readOffset received).trans (front stays)
      refine (parsePkt_sizes ?_).mono (fun _ u parsed => ih (parsed.2 spoiled')) fun _ _ h => h
      rw [front']
      exact Nat.zero_le _
    · rw [if_neg stays]
      exact ih ⟨spoiled, front⟩

section Run

variable {handlePkt : List Received → List HandlerAct} {o : Outcome (List Received × Bool) UInt8} {alloc : Nat}

theorem le_capacity (events : List (List Chunk)) (alloc : Nat) (o : Outcome (List Received × Bool) UInt8) :
    alloc ≤ capacity handlePkt events alloc o := by
  induction events generalizing alloc o with
  | nil => exact Nat.le_refl _
  | cons recvs events ih =>
    cases o with
    | stopped st => exact Nat.le_refl _
    | waiting st rest =>
      have here := Nat.le_trans (le_roomFor alloc rest.length).1 (le_grown recvs alloc rest.length)
      exact Nat.le_trans here (ih _ _)

/-- `_RecvData` in the words of `receive`. -/
theorem recvData_whole {recvs : List Chunk} (chunks : s.socket.recvs = recvs) :
    wp (recvData (recvs.length + 1)) (fun _ t => (t.conn.handle = s.conn.handle ∧ t.trace = s.trace) ∧
        ∃ calls, receive recvs s.conn.inBuf = some (calls, t.conn.inBuf))
      (fun _ _ => receive recvs s.conn.inBuf = none) s := by
  subst chunks
  refine ((recvData_frame _).and (recvData_receive (Nat.lt_succ_self _))).mono (fun _ _ h => h) ?_
  exact fun _ _ ⟨_, _, fails⟩ => fails

/-- An `OnRead` whose sizes are exact feeds the decoder. -/
theorem onRead_exact {st : List Received × Bool} {rest : List UInt8} {calls : List SimpleBuffer}
    (stands : Matched s (.waiting st rest)) (received : receive s.socket.recvs s.conn.inBuf = some (calls, after))
    (inside : after.writeOffset.toNat ≤ after.allocSize.toNat) :
    wp (onRead (quiet handlePkt)) (fun _ t =>
      Matched t ((greedy handlePkt).feed (.waiting st rest) (chunkBytes s.socket.recvs)) ∧ t.conn.inBuf.WF ∧
        t.conn.inBuf.allocSize = after.allocSize) Never s := by
  obtain ⟨clean, ⟨registered, seen, clean', wf, queue⟩, front⟩ := stands
  obtain ⟨wf', content, start⟩ := receive_of_some wf received inside
  simp only [onRead, wp_bind, wp_get]
  refine (recvData_whole rfl).mono ?_ ?_
  · rintro - t ⟨⟨handle, trace⟩, calls', received'⟩
    cases received.symm.trans received'
    have reads : Open t st.1 (rest ++ chunkBytes s.socket.recvs) :=
      ⟨handle ▸ registered, by rw [trace, seen], by rw [trace, clean'], wf', by rw [content, queue]⟩
    have block : t.conn.inBuf.readOffset.toNat ≤ t.conn.inBuf.allocSize.toNat := Nat.le_trans wf'.read_le wf'.write_le
    have parsed := (parsePkt_wp handlePkt reads).and ((parsePkt_ends _ wf').and (parsePkt_sizes block))
    rw [← clean] at parsed
    refine parsed.mono ?_ fun _ _ never => never.1
    rintro - u ⟨matched, ⟨events, ends⟩, size, -⟩
    exact ⟨matched, ends.wf, size⟩
  · intro _ _ fails
    rw [received] at fails
    cases fails

/-- One whose sizes are not spoils the buffer. -/
theorem onRead_lost {st : List Received × Bool} {rest : List UInt8} (stands : Matched s (.waiting st rest))
    (spoils : ∀ calls after, receive s.socket.recvs s.conn.inBuf = some (calls, after) → Spoiled after) :
    wp (onRead (quiet handlePkt)) (fun _ t => Lost t) (fun _ _ => True) s := by
  obtain ⟨-, -, front⟩ := stands
  simp only [onRead, wp_bind, wp_get]
  refine (recvData_whole rfl).mono ?_ fun _ _ _ => trivial
  rintro - t ⟨-, calls, received⟩
  refine (parsePkt_sizes ?_).mono (fun _ u parsed => parsed.2 (spoils calls _ received)) fun _ _ h => h
  rw [receive_readOffset received, front]
  exact Nat.zero_le _

/-- **A run is the decoding of its stream** as long as its sizes are exact, and loses its buffer otherwise. -/
theorem deliver_size (handlePkt : List Received → List HandlerAct) (events : List (List Chunk)) (stands : Matched s o)
    (wf : s.conn.inBuf.WF) (size : s.conn.inBuf.allocSize.toNat = alloc) :
    capacity handlePkt events alloc o < 2 ^ 32 ∧ wp (deliver (quiet handlePkt) events) (fun _ t =>
        Matched t ((events.map chunkBytes).foldl (greedy handlePkt).feed o) ∧ t.conn.inBuf.WF) Never s ∨
      2 ^ 32 ≤ capacity handlePkt events alloc o ∧
        wp (deliver (quiet handlePkt) events) (fun _ t => Lost t) (fun _ _ => True) s := by
  induction events generalizing s o alloc with
  | nil =>
    subst size
    exact .inl ⟨s.conn.inBuf.allocSize.toNat_lt, stands, wf⟩
  | cons recvs events ih =>
    simp only [deliver, wp_bind, wp_get]
    cases o with
    | stopped st =>
      rw [if_neg (not_not.mpr stands.closed)]
      have skipped : capacity handlePkt events alloc (.stopped st) = alloc := by
        cases events <;> rfl
      have next := ih stands wf size
      rw [skipped] at next
      exact next
    | waiting st rest =>
      rw [if_pos stands.2.1.registered, wp_bind, wp_modify, wp_bind, wp_bind, wp_modify, wp_bind]
      have stands' := stands.socket { s.socket with recvs }
      have write : s.conn.inBuf.writeOffset.toNat = rest.length := by
        rw [← stands.2.1.queue, wf.length_content, stands.2.2]
        rfl
      rcases receive_size recvs wf with ⟨exact_, calls, after, received, inside, is⟩ | ⟨wraps, spoils⟩
      · rw [size, write] at is
        have fed := @onRead_exact _ _ handlePkt _ _ _ stands' received inside
        have next {t : ConnState} := @ih t ((greedy handlePkt).feed (.waiting st rest) (chunkBytes recvs))
          (grown recvs alloc rest.length)
        by_cases fits : capacity handlePkt (recvs :: events) alloc (.waiting st rest) < 2 ^ 32
        · refine .inl ⟨fits, fed.mono (fun _ t ends => ?_) fun _ _ never => never⟩
          obtain ⟨matched, wf', size'⟩ := ends
          exact ((next matched wf' (by rw [size', is])).resolve_right fun wraps => Nat.not_lt_of_le wraps.1 fits).2
        · refine .inr ⟨Nat.le_of_not_lt fits, fed.call fun _ t ends => ?_⟩
          obtain ⟨matched, wf', size'⟩ := ends
          exact ((next matched wf' (by rw [size', is])).resolve_left fun exact_ => fits exact_.1).2
      · rw [size, write] at wraps
        refine .inr ⟨Nat.le_trans wraps (le_capacity _ _ _), ?_⟩
        refine (onRead_lost stands' spoils).mono (fun _ t lost => deliver_lost events lost) fun _ _ h => h

end Run

end Netter.BaseConn
