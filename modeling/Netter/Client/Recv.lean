import Netter.Lib.Wp
import Netter.Client.Model
import Netter.Conn.Receive

/-!
# What `RecvPacket` reads

However `recv` cuts the stream, `block_recv_all` gets the bytes it asks for or the stream ends before them. A
packet is at most a header long (a heartbeat has no body), so `RecvPacket` returns one just when the greedy
reading of the stream finds one at its front; a body that it reads ends in an exception, and that in `NULL`.
-/

namespace Netter.ClientConn

open Lib Framing PktBase

/-! ## `block_recv_all` -/

/-- What a `recv` gives: a piece from the front of the stream, which is empty at the end of it only. -/
theorem recv_spec {socket : BlockSocket} {len : Nat} (healthy : none ∉ socket.recvs) (asks : 0 < len) :
    ∃ count recvs, 0 < count ∧ count ≤ len ∧ none ∉ recvs ∧
      socket.recv len = (some (socket.stream.take count), ⟨socket.stream.drop count, recvs⟩) := by
  have later : none ∉ socket.recvs.tail := fun member => healthy (List.mem_of_mem_tail member)
  unfold BlockSocket.recv
  cases recvs : socket.recvs with
  | nil => exact ⟨min (max 1 len) len, [], by omega, by omega, nofun, rfl⟩
  | cons most rest =>
    rw [recvs] at later healthy
    cases most with
    | none => exact absurd List.mem_cons_self healthy
    | some most => exact ⟨min (max 1 most) len, rest, by omega, by omega, later, rfl⟩

variable {s t : ClientState} {off n k fuel : Nat}

/-- What reading leaves alone. -/
structure Same (s t : ClientState) : Prop where
  handle : t.conn.connHandle = s.conn.connHandle
  size : t.conn.allocSize = s.conn.allocSize
  healthy : none ∉ t.socket.recvs

/-- The first `count` bytes of the stream have come in at `start`, and nothing has changed below. -/
structure Taken (start count : Nat) (s t : ClientState) : Prop where
  there : count ≤ s.socket.stream.length
  stream : t.socket.stream = s.socket.stream.drop count
  cells : t.conn.inBuf.cells.take (start + count) = s.conn.inBuf.cells.take start ++ s.socket.stream.take count

/-- A piece has come in, and then what follows it. -/
theorem Taken.cons {m : ClientState} {start count : Nat} {chunk : List UInt8}
    (piece : s.socket.stream.take chunk.length = chunk) (stream : m.socket.stream = s.socket.stream.drop chunk.length)
    (front : m.conn.inBuf.cells.take (start + chunk.length) = s.conn.inBuf.cells.take start ++ chunk)
    (rest : Taken (start + chunk.length) count m t) : Taken start (chunk.length + count) s t := by
  obtain ⟨there, left, cells⟩ := rest
  have inside : chunk.length ≤ s.socket.stream.length := by
    have size := congrArg List.length piece
    rw [List.length_take] at size
    omega
  rw [stream] at there left cells
  rw [List.length_drop] at there
  refine ⟨by omega, ?_, ?_⟩
  · rw [left, List.drop_drop]
  · rw [← Nat.add_assoc, cells, front, List.take_add, piece, List.append_assoc]

/-- `block_recv_all` gets all that it asks for, or the stream ends before that. -/
def RecvAll (start count : Nat) (all : Int) (s : ClientState) (ret : Int) (t : ClientState) : Prop :=
  Same s t ∧ (ret = all ∧ Taken start count s t ∨ ret = 0 ∧ s.socket.stream.length < count)

theorem blockRecvLoop_wp (healthy : none ∉ s.socket.recvs) (inside : off + n ≤ s.conn.allocSize.toNat) (before : k ≤ n)
    (enough : n - k < fuel) : wp (blockRecvLoop off n fuel k) (RecvAll (off + k) (n - k) n s) Never s := by
  induction fuel generalizing s k with
  | zero => omega
  | succ fuel ih =>
    unfold blockRecvLoop
    rw [wp_ite]
    split
    next done =>
      obtain rfl := Int.ofNat.inj done
      refine ⟨⟨rfl, rfl, healthy⟩, .inl ⟨rfl, ?_, ?_, ?_⟩⟩
      · omega
      · rw [Nat.sub_self, List.drop_zero]
      · rw [Nat.sub_self, List.take_zero, List.append_nil, Nat.add_zero]
    next more =>
    have asks : ((n : Int) - k) = ((n - k : Nat) : Int) := by omega
    obtain ⟨count, recvs, some, most, later, gives⟩ := recv_spec healthy (by omega : 0 < n - k)
    simp only [wp_bind, wp_get, wp_set, asks, gives]
    cases piece : s.socket.stream.take count with
    | nil =>
      have ended : s.socket.stream.length = 0 := by
        have size := congrArg List.length piece
        rw [List.length_take, List.length_nil] at size
        omega
      exact ⟨⟨rfl, rfl, later⟩, .inr ⟨rfl, by omega⟩⟩
    | cons byte bytes =>
      have size := congrArg List.length piece
      rw [List.length_take] at size
      have fits : off + (k : Int).toNat + (byte :: bytes).length ≤ s.conn.allocSize.toNat := by
        rw [← size]
        omega
      obtain ⟨inBuf, stored, -⟩ := s.conn.inBuf.store_eq_some fits
      have front := Block.store_take_end stored
      have next : (k : Int) + ((byte :: bytes).length : Int) = ((k + (byte :: bytes).length : Nat) : Int) := rfl
      simp only [wp_bind, stored, Stop.ofOption, wp_ofExcept_ok, wp_set, next]
      have pos : 0 < (byte :: bytes).length := Nat.succ_pos _
      generalize byte :: bytes = chunk at *
      have cut : s.socket.stream.take chunk.length = chunk := by
        rw [← size, ← piece]
        simp
      have left : s.socket.stream.drop count = s.socket.stream.drop chunk.length := by
        rw [← size]
        rcases Nat.le_total count s.socket.stream.length with some | all
        · rw [Nat.min_eq_left some]
        · rw [Nat.min_eq_right all, List.drop_length, List.drop_eq_nil_of_le all]
      refine (ih later (by exact inside) (by omega) (by omega)).mono ?_ fun _ _ never => never
      rintro ret t ⟨⟨handle, size', healthy'⟩, ends⟩
      refine ⟨⟨handle, size', healthy'⟩, ends.imp ?_ ?_⟩
      · rintro ⟨is, rest⟩
        have parts : n - k = chunk.length + (n - (k + chunk.length)) := by omega
        rw [← Nat.add_assoc] at rest
        refine ⟨is, ?_⟩
        rw [parts]
        refine Taken.cons cut ?_ ?_ rest
        · exact left
        · exact front
      · rintro ⟨is, short⟩
        rw [List.length_drop] at short
        exact ⟨is, by omega⟩

theorem blockRecvAll_wp (handle : s.conn.connHandle ≠ invalidHandle) (healthy : none ∉ s.socket.recvs)
    (inside : off + n ≤ s.conn.allocSize.toNat) : wp (blockRecvAll off n) (RecvAll off n n s) Never s := by
  simp only [blockRecvAll, wp_bind, wp_get, handle, if_false]
  exact blockRecvLoop_wp (k := 0) healthy inside (Nat.zero_le n) (Nat.lt_succ_self n)

/-! ## `RecvPacket` -/

/-- A heartbeat in front: the only packet there is. -/
structure HeartbeatAt (data : List UInt8) : Prop where
  header : 16 ≤ data.length
  length : wordAt data 0 = 16
  pktId : wordAt data 8 = pktIdHeartbeat

theorem frameAt_packet_iff {data : List UInt8} {len : UInt32} :
    frameAt data = .packet len ↔ len = 16 ∧ HeartbeatAt data := by
  constructor
  · intro frame
    obtain ⟨header, inside, is⟩ := le_of_frameAt frame
    unfold frameAt at frame
    split at frame
    · cases frame
    split at frame
    · cases frame
    split at frame
    · cases frame
    split at frame
    · cases frame
    next known =>
    split at frame
    · cases frame
    next short =>
    have length := not_not.mp short
    exact ⟨is.trans length, Nat.le_trans header inside, length, not_not.mp known⟩
  · rintro ⟨rfl, header, length, pktId⟩
    have least : ¬ (16 : UInt32) < 16 := by decide
    have complete : ¬ data.length < (16 : UInt32).toNat := Nat.not_lt_of_le header
    rw [frameAt, if_neg (Nat.not_lt_of_le header), length, if_neg least, if_neg complete, if_neg (not_not.mpr pktId),
      if_neg (not_not.mpr rfl)]

/-- `ReadPacket` with the length that the header announces, whether the body is there or not. -/
theorem readPacket_header {mem : List UInt8} (header : 16 ≤ mem.length) :
    (∃ ex, readPacket mem 0 (wordAt mem 0) = .error (.throws ex)) ∧ ¬ HeartbeatAt mem ∨
      readPacket mem 0 (wordAt mem 0) = .ok none ∧ ¬ HeartbeatAt mem ∨
      readPacket mem 0 (wordAt mem 0) = .ok (some ⟨.init, some ⟨0, 16⟩, headerAt (mem.take 16)⟩) ∧ HeartbeatAt mem := by
  have zero : mem.drop (0 : UInt32).toNat = mem := List.drop_zero
  rw [readPacket_run fun _ => by rw [zero]; exact header, zero]
  split
  next short =>
    refine .inr (.inl ⟨rfl, fun heartbeat => ?_⟩)
    rw [heartbeat.length] at short
    exact absurd short (by decide)
  split
  next short =>
    refine .inl ⟨⟨_, rfl⟩, fun heartbeat => ?_⟩
    rw [heartbeat.length] at short
    exact absurd short (by decide)
  rw [if_neg (Nat.lt_irrefl _)]
  split
  next unknown => exact .inl ⟨⟨_, rfl⟩, fun heartbeat => unknown heartbeat.pktId⟩
  next known =>
  split
  next longer => exact .inl ⟨⟨_, rfl⟩, fun heartbeat => longer heartbeat.length⟩
  next exact_ => exact .inr (.inr ⟨rfl, header, not_not.mp exact_, not_not.mp known⟩)

theorem Connected.header_le (connected : Connected s) : 16 ≤ s.conn.inBuf.cells.length := by
  have size := connected.size
  unfold kInitAllocSize at size
  rw [s.conn.inBuf.size]
  omega

/-- A part of `RecvPacket` that may go on leaves the header. -/
def Goes (s : ClientState) (ok : Bool) (t : ClientState) : Prop :=
  Connected t ∧ (ok = true → t.conn.inBuf.cells.take 16 = s.conn.inBuf.cells.take 16)

/-- The body goes behind the header. -/
theorem recvAll_wp (connected : Connected s) (inside : (16 + n : Nat) ≤ s.conn.allocSize) :
    wp (blockRecvAll 16 n) (fun ret t => Goes s (ret = n) t) Never s := by
  have header := connected.header_le
  obtain ⟨handle, size, healthy⟩ := connected
  refine (blockRecvAll_wp handle healthy (by omega : 16 + n ≤ _)).mono ?_ fun _ _ never => never
  rintro ret t ⟨⟨handle', size', healthy'⟩, ends⟩
  refine ⟨⟨handle' ▸ handle, size' ▸ size, healthy'⟩, fun all => ?_⟩
  rcases ends with ⟨-, there, -, cells⟩ | ⟨zero, short⟩
  · have front : (t.conn.inBuf.cells.take (16 + n)).take 16 = t.conn.inBuf.cells.take 16 := by
      rw [List.take_take, Nat.min_eq_left (Nat.le_add_right 16 n)]
    rw [← front, cells]
    exact List.take_left' (by rw [List.length_take]; omega)
  · have none := of_decide_eq_true all
    omega

theorem recvBody_wp (connected : Connected s) (pktLen : Int) :
    wp (recvBody pktLen) (fun ok t => Goes s ok t ∧ (pktLen ≤ 16 → ok = true ∧ t = s)) Never s := by
  unfold recvBody
  rw [wp_ite]
  split
  next body =>
    have body : 16 < pktLen := body
    obtain ⟨n, count⟩ := Int.eq_ofNat_of_zero_le (by omega : 0 ≤ pktLen - 16)
    have asks : pktLen - headerLen = n := count
    simp only [wp_bind, wp_get, asks, wp_ite, wp_pure]
    split
    next longer =>
      have header := connected.header_le
      have size := connected.size
      unfold kInitAllocSize at size
      rw [wp_set]
      have larger : Connected ⟨⟨s.conn.connHandle, pktLen, s.conn.inBuf.realloc 0 pktLen.toNat⟩, s.socket⟩ := by
        refine ⟨connected.handle, ?_, connected.healthy⟩
        show 4096 ≤ pktLen
        omega
      have inside : (16 + n : Nat) ≤ pktLen := by omega
      refine (recvAll_wp larger inside).call fun ret t goes => ?_
      obtain ⟨connected', front⟩ := goes
      refine ⟨⟨connected', fun all => (front all).trans ?_⟩, fun short => absurd body (by omega)⟩
      have enough : 16 ≤ pktLen.toNat := by omega
      exact Block.realloc_take _ _ (by rw [← s.conn.inBuf.size]; exact header) enough
    next fits =>
      refine (recvAll_wp connected (n := n) (by omega)).call fun ret t goes => ?_
      exact ⟨goes, fun short => absurd body (by omega)⟩
  next => exact ⟨⟨connected, fun _ => rfl⟩, fun _ => ⟨rfl, rfl⟩⟩

theorem wordAt_of_take {data other : List UInt8} {off : Nat} (same : data.take 16 = other.take 16) (inside : off + 4 ≤ 16) :
    wordAt data off = wordAt other off := by
  rw [← wordAt_take inside, same, wordAt_take inside]

/-- The header decides. -/
theorem heartbeatAt_congr {data other : List UInt8} (same : data.take 16 = other.take 16) (there : 16 ≤ data.length)
    (there' : 16 ≤ other.length) : HeartbeatAt data ↔ HeartbeatAt other := by
  have length := wordAt_of_take same (by decide : 0 + 4 ≤ 16)
  have pktId := wordAt_of_take same (by decide : 8 + 4 ≤ 16)
  constructor
  · rintro ⟨-, is, known⟩
    exact ⟨there', length ▸ is, pktId ▸ known⟩
  · rintro ⟨-, is, known⟩
    exact ⟨there, length.trans is, pktId.trans known⟩

/-- The packet in the first bytes of `in_buf_`. -/
def heartbeatIn (data : List UInt8) : PktBase := ⟨.init, some ⟨0, 16⟩, headerAt (data.take 16)⟩

theorem ofInt_toInt_toInt32 (n : UInt32) : UInt32.ofInt n.toInt32.toInt = n := by
  have signed : n.toInt32.toInt = n.toBitVec.toInt := rfl
  have bound := n.toNat_lt
  rw [← UInt32.toNat_inj, signed, BitVec.toInt_eq_toNat_cond]
  unfold UInt32.ofInt
  rw [UInt32.toNat_ofNat']
  split <;> simp only [UInt32.toNat_toBitVec] <;> omega

/-- `RecvPacket` gives the heartbeat in front of the stream, or nothing. -/
theorem recvPacket_wp (connected : Connected s) :
    wp recvPacket (fun ret t => HeartbeatAt s.socket.stream ∧ Connected t ∧
        ret = some (heartbeatIn s.socket.stream) ∧ t.conn.inBuf.cells.take 16 = s.socket.stream.take 16 ∧
        t.socket.stream = s.socket.stream.drop 16 ∨
      ¬ HeartbeatAt s.socket.stream ∧ ret = none) Never s := by
  have size := connected.size
  unfold kInitAllocSize at size
  have header : headerLen = (16 : Nat) := rfl
  simp only [recvPacket, wp_bind, wp_get, connected.handle, if_false, header]
  refine (blockRecvAll_wp connected.handle connected.healthy (by omega : 0 + 16 ≤ _)).call ?_
  rintro ret t ⟨⟨handle, size', healthy⟩, ⟨rfl, there, rest, cells⟩ | ⟨rfl, short⟩⟩
  · have connected' : Connected t := ⟨handle ▸ connected.handle, size' ▸ connected.size, healthy⟩
    have there' := connected'.header_le
    have front : t.conn.inBuf.cells.take 16 = s.socket.stream.take 16 := cells
    have length : CByteStream.readUint32 t.conn.inBuf.cells = _ := readUint32_run (Nat.le_trans (by decide) there')
    have known := heartbeatAt_congr front there' there
    simp only [ne_eq, not_true_eq_false, if_false, wp_bind, wp_get, length, Stop.ofOption, wp_ofExcept_ok]
    refine (recvBody_wp connected' _).call fun ok u body => ?_
    obtain ⟨⟨connected'', front'⟩, alone⟩ := body
    have short (heartbeat : HeartbeatAt s.socket.stream) : ok = true ∧ u = t := by
      apply alone
      rw [(known.mpr heartbeat).length]
      decide
    rw [wp_ite]
    split
    next failed => exact .inr ⟨fun heartbeat => failed (short heartbeat).1, rfl⟩
    next goes =>
      have same := front' (not_not.mp goes)
      have there'' := connected''.header_le
      have known' := (heartbeatAt_congr same there'' there').trans known
      rw [ofInt_toInt_toInt32, ← wordAt_of_take same (by decide : 0 + 4 ≤ 16)]
      simp only [wp_tryCatch, wp_bind, wp_get]
      rcases readPacket_header there'' with ⟨⟨ex, read⟩, other⟩ | ⟨read, other⟩ | ⟨read, heartbeat⟩
      · rw [read]
        exact .inr ⟨mt known'.mpr other, rfl⟩
      · rw [read]
        exact .inr ⟨mt known'.mpr other, rfl⟩
      · have here := known'.mp heartbeat
        rw [read]
        refine .inl ⟨here, connected'', ?_, same.trans front, ?_⟩
        · rw [heartbeatIn, ← front, ← same]
        · rw [(short here).2, rest]
  · exact .inr ⟨fun heartbeat => Nat.not_lt_of_le heartbeat.header short, rfl⟩

/-! ## A whole stream -/

section Stream

variable {handlePkt : List Received → List HandlerAct} {data : List UInt8} {seen : List Received}

theorem greedy_heartbeat (stays : ∀ seen, BaseConn.closes (handlePkt seen) = false) (heartbeat : HeartbeatAt data) :
    (BaseConn.greedy handlePkt).run (seen, false) data =
      (BaseConn.greedy handlePkt).run (seen ++ [BaseConn.receivedAt data 16], false) (data.drop 16) := by
  refine Decoder.run_of_frame (k := 16) ?_
  have frame : frameAt data = .packet 16 := frameAt_packet_iff.mpr ⟨rfl, heartbeat⟩
  show BaseConn.greedyStep handlePkt (seen, false) data = _
  rw [BaseConn.greedyStep, frame]
  simp only [stays, Bool.false_eq_true, if_false]
  rfl

/-- Without a heartbeat in front, decoding ends. -/
theorem greedy_other (other : ¬ HeartbeatAt data) :
    ((BaseConn.greedy handlePkt).run (seen, false) data).state.1 = seen := by
  cases frame : frameAt data with
  | incomplete =>
    have verdict : (BaseConn.greedy handlePkt).step (seen, false) data = .more := by
      simp [BaseConn.greedy, BaseConn.greedyStep, frame]
    rw [Decoder.run_of_more verdict]
    rfl
  | malformed ex =>
    have verdict : (BaseConn.greedy handlePkt).step (seen, false) data = .stop (seen, true) := by
      simp [BaseConn.greedy, BaseConn.greedyStep, frame]
    rw [Decoder.run_of_stop verdict]
    rfl
  | packet len => exact absurd (frameAt_packet_iff.mp frame).2 other

/-- The blocking side reads what the greedy decoding of the stream finds. -/
theorem recvPackets_wp (stays : ∀ seen, BaseConn.closes (handlePkt seen) = false) (seen : List Received)
    (connected : Connected s) (enough : s.socket.stream.length < fuel) :
    wp (recvPackets fuel) (fun accepted _ =>
      seen ++ accepted = ((BaseConn.greedy handlePkt).run (seen, false) s.socket.stream).state.1) Never s := by
  induction fuel generalizing s seen with
  | zero => omega
  | succ fuel ih =>
    simp only [recvPackets, wp_bind]
    refine (recvPacket_wp connected).call ?_
    rintro ret t (⟨heartbeat, connected', rfl, cells, rest⟩ | ⟨other, rfl⟩)
    · have size := heartbeat.header
      have there := connected'.header_le
      have bytes : load ((heartbeatIn s.socket.stream).getBuffer t.conn.inBuf.cells) 0
          (heartbeatIn s.socket.stream).getLength.toNat = some (s.socket.stream.take 16) :=
        (load_zero there).trans (congrArg some cells)
      simp only [wp_bind, wp_get, bytes, Stop.ofOption, wp_ofExcept_ok, wp_pure]
      refine (ih (seen ++ [BaseConn.receivedAt s.socket.stream 16]) connected' ?_).mono ?_ fun _ _ never => never
      · rw [rest, List.length_drop]
        omega
      · intro more _ is
        rw [greedy_heartbeat stays heartbeat, ← rest, ← is, List.append_assoc]
        rfl
    · rw [wp_pure, greedy_other other, List.append_nil]

end Stream

end Netter.ClientConn
