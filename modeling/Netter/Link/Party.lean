import Netter.Link.Frames
import Netter.Link.Model

/-!
# One side of the link

What a call leaves alone: the sends do not touch the receive buffer, and what the kernel has accepted only grows. Then an
`OnRead` whose `HandlePkt` answers is one step of `Frames` on the receiving side and one of `Flow` on the sending side.
-/

namespace Netter.BaseConn

open Lib PktBase

/-! ## Calls that send -/

/-- What a call that sends leaves alone. -/
structure Sending (s t : ConnState) : Prop where
  inBuf : t.conn.inBuf = s.conn.inBuf
  handle : t.conn.handle = s.conn.handle
  trace : t.trace = s.trace
  state : t.socket.state = s.socket.state
  fin : t.socket.fin = s.socket.fin
  sent : s.socket.sent <+: t.socket.sent

namespace Sending

variable {s t u : ConnState}

theorem refl (s : ConnState) : Sending s s := ⟨rfl, rfl, rfl, rfl, rfl, List.prefix_rfl⟩

theorem trans (first : Sending s t) (second : Sending t u) : Sending s u where
  inBuf := second.inBuf.trans first.inBuf
  handle := second.handle.trans first.handle
  trace := second.trace.trans first.trace
  state := second.state.trans first.state
  fin := second.fin.trans first.fin
  sent := first.sent.trans second.sent

/-- Only the sending half of the connection has changed. -/
theorem conn {conn : BaseConn} (sending : Sending s t) (inBuf : conn.inBuf = t.conn.inBuf)
    (handle : conn.handle = t.conn.handle) : Sending s { t with conn } :=
  sending.trans ⟨inBuf, handle, rfl, rfl, rfl, List.prefix_rfl⟩

end Sending

variable {s : ConnState}

theorem sending_socketSend (buf : List UInt8) (len : Int) : Keeps (Sending s) (socketSend buf len) := by
  intro t sending
  simp only [socketSend, wp_bind, wp_get]
  cases sent : t.socket.send buf len with
  | none => exact trivial
  | some result =>
    obtain ⟨ret, socket⟩ := result
    simp only [orUndefined, Stop.ofOption, wp_ofExcept_ok, wp_set, wp_pure]
    unfold BaseSocket.send at sent
    split at sent
    · cases sent
    · obtain ⟨bytes, -, taken⟩ := Option.bind_eq_some_iff.mp sent
      cases taken
      exact sending.trans ⟨rfl, rfl, rfl, rfl, rfl, List.prefix_append _ _⟩

theorem sending_sendLoop (data : List UInt8) (fuel : Nat) (offset remain : Int) :
    Keeps (Sending s) (sendLoop data fuel offset remain) := by
  induction fuel generalizing offset remain with
  | zero => exact fun _ _ => trivial
  | succ fuel ih =>
    intro t sending
    rw [sendLoop]
    split
    · refine (sending_socketSend _ _).call sending fun ret u sending => ?_
      split
      · exact sending
      · exact ih _ _ u sending
    · exact sending

theorem sending_writeOut (data : List UInt8) (len : Int) : Keeps (Sending s) (writeOut data len) := by
  intro t sending
  simp only [writeOut, wp_bind, wp_get]
  cases t.conn.outBuf.write (some data) (UInt32.ofInt len) with
  | none => exact trivial
  | some outBuf => exact sending.conn rfl rfl

theorem sending_send (data : List UInt8) (len : Int) : Keeps (Sending s) (send data len) := by
  intro t sending
  simp only [send, wp_bind, wp_get]
  split
  · exact sending
  split
  · exact (sending_writeOut _ _).call sending fun _ u sending => sending
  · refine (sending_sendLoop _ _ _ _).call sending fun result u sending => ?_
    obtain ⟨offset, remain⟩ := result
    dsimp only
    split
    · refine (sending_writeOut _ _).call sending fun _ v sending => ?_
      exact sending.conn rfl rfl
    · exact sending

theorem sending_sendPkt (pkt : PktBase) : Keeps (Sending s) (sendPkt pkt) := by
  intro t sending
  simp only [sendPkt, wp_bind, wp_get]
  exact sending_send _ _ t sending

theorem sending_sendWaiting (pkts : List HeapPkt) : Keeps (Sending s) (sendWaiting pkts) := by
  induction pkts with
  | nil => exact fun _ sending => sending
  | cons pkt pkts ih =>
    intro t sending
    rw [sendWaiting, wp_bind, wp_discard]
    exact (sending_sendPkt _ t sending).mono (fun _ u sending => ih u sending) fun _ _ h => h

theorem sending_onConfirm : Keeps (Sending s) onConfirm := by
  intro t sending
  simp only [onConfirm, wp_bind, wp_modify, wp_get]
  have opened : Sending s { t with conn := { t.conn with isOpen := true } } := sending.conn rfl rfl
  refine (sending_sendWaiting _ _ opened).mono (fun _ u sending => ?_) fun _ _ h => h
  exact sending.conn rfl rfl

theorem sending_drainLoop (fuel : Nat) : Keeps (Sending s) (drainLoop fuel) := by
  induction fuel with
  | zero => exact fun _ _ => trivial
  | succ fuel ih =>
    intro t sending
    simp only [drainLoop, wp_bind, wp_get]
    split
    · refine (sending_socketSend _ _).call sending fun ret u sending => ?_
      split
      · exact sending
      · rw [wp_bind, wp_modify]
        exact ih _ (sending.conn rfl rfl)
    · exact sending

theorem sending_onWrite : Keeps (Sending s) onWrite := by
  intro t sending
  simp only [onWrite, wp_bind, wp_get]
  split
  · exact sending
  · simp only [wp_bind, wp_get]
    refine (sending_drainLoop _ t sending).mono (fun _ u sending => ?_) fun _ _ h => h
    cases u.conn.outBuf.resetOffset with
    | none => exact trivial
    | some outBuf =>
      simp only [orUndefined, Stop.ofOption, wp_ofExcept_ok, wp_set, wp_ite, wp_modify, wp_pure]
      split
      · exact sending.conn rfl rfl
      · exact sending.conn rfl rfl

/-! ## What is owed -/

variable {t : ConnState} {a : Account} {pkts : List HeapPkt}

theorem length_encode_cons (pkt : HeapPkt) (pkts : List HeapPkt) :
    (encode (pkt :: pkts)).length = pkt.bytes.length + (encode pkts).length := by
  rw [encode_cons, List.length_append]

/-- The backlog grows by what has been accepted at the most. -/
theorem Flow.backlog_le {accepted : List UInt8} (flow : Flow s a)
    (flow' : Flow t { a with accepted := a.accepted ++ accepted }) (sending : Sending s t) :
    t.conn.outBuf.content.length ≤ s.conn.outBuf.content.length + accepted.length := by
  have before := congrArg List.length flow.stream
  have after := congrArg List.length flow'.stream
  have grown := sending.sent.length_le
  simp only [List.length_append] at before after
  omega

/-- Packets that fit together fit one after the other. -/
theorem Flow.fitsAll (flow : Flow s a) (isOpen : a.isOpen = true)
    (room : s.conn.outBuf.content.length + (encode pkts).length < 2 ^ 31) : FitsAll pkts s := by
  induction pkts generalizing s a with
  | nil => trivial
  | cons pkt pkts ih =>
    rw [length_encode_cons] at room
    have fits : Fits s pkt.bytes := by
      unfold Fits
      omega
    refine ⟨fits, fun r t ran => ?_⟩
    have sent := (sendPkt_wp flow fits).and (sending_sendPkt pkt.pkt s (Sending.refl s))
    unfold wp at sent
    rw [ran] at sent
    obtain ⟨⟨-, flow'⟩, sending⟩ := sent
    rw [Account.send, if_pos isOpen] at flow'
    have grown := flow.backlog_le flow' sending
    exact ih flow' isOpen (by omega)

/-- Several packets are sent on an open connection. -/
theorem sendWaiting_sends (flow : Flow s a) (isOpen : a.isOpen = true)
    (room : s.conn.outBuf.content.length + (encode pkts).length < 2 ^ 31) :
    wp (sendWaiting pkts) (fun _ t => Flow t { a with accepted := a.accepted ++ encode pkts } ∧ Sending s t) Never s := by
  refine ((sendWaiting_wp flow isOpen (flow.fitsAll isOpen room)).and
    (sending_sendWaiting pkts s (Sending.refl s))).mono (fun _ t post => post) ?_
  exact fun _ _ impossible => impossible.1

/-- The sending side does not look at the receive buffer and the trace. -/
theorem Flow.receiving {inBuf : SimpleBuffer} {trace : List ConnEvent} (flow : Flow s a) :
    Flow { s with conn := { s.conn with inBuf }, trace } a :=
  ⟨flow.handle, flow.isOpen, flow.waiting, flow.wf, flow.front, flow.busy, flow.stream, flow.small⟩

/-! ## Calls that receive -/

/-- What `_RecvData` leaves alone. -/
structure Receiving (s t : ConnState) : Prop where
  outBuf : t.conn.outBuf = s.conn.outBuf
  busy : t.conn.busy = s.conn.busy
  isOpen : t.conn.isOpen = s.conn.isOpen
  waitPktList : t.conn.waitPktList = s.conn.waitPktList
  handle : t.conn.handle = s.conn.handle
  fin : t.socket.fin = s.socket.fin
  state : s.socket.fin = false → t.socket.state = s.socket.state
  sent : t.socket.sent = s.socket.sent

theorem receiving_recvData (fuel : Nat) : Keeps (Receiving s) (recvData fuel) := by
  induction fuel with
  | zero => exact fun _ _ => trivial
  | succ fuel ih =>
    intro t same
    obtain ⟨outBuf, busy, isOpen, waitPktList, handle, fin, state, sent⟩ := same
    simp only [recvData, wp_bind, wp_get, BaseSocket.recv]
    cases recvs : t.socket.recvs with
    | nil =>
      rw [wp_set]
      dsimp only
      split
      · rename_i ends
        exact ⟨outBuf, busy, isOpen, waitPktList, handle, fin, fun open' => absurd (fin.trans open') (by simp [ends]), sent⟩
      · exact ⟨outBuf, busy, isOpen, waitPktList, handle, fin, state, sent⟩
    | cons chunk rest =>
      dsimp only
      cases (makeRoom t.conn.inBuf).fill chunk.bytes with
      | none => exact trivial
      | some inBuf => exact ih _ ⟨outBuf, busy, isOpen, waitPktList, handle, fin, state, sent⟩

theorem Flow.of_receiving (flow : Flow s a) (same : Receiving s t) : Flow t a := by
  obtain ⟨outBuf, busy, isOpen, waitPktList, handle, -, -, sent⟩ := same
  constructor
  · rw [handle, flow.handle]
  · rw [isOpen, flow.isOpen]
  · rw [waitPktList, flow.waiting]
  · rw [outBuf]; exact flow.wf
  · rw [outBuf]; exact flow.front
  · rw [outBuf, busy]; exact flow.busy
  · rw [outBuf, sent]; exact flow.stream
  · rw [outBuf]; exact flow.small

/-! ## `OnRead` -/

/-- What is known between two calls of a side that has received so many packets and a part of the next. -/
structure Reading (s : ConnState) (seen : List Received) (rest : List UInt8) : Prop where
  stands : Open s seen rest
  front : s.conn.inBuf.readOffset = 0
  noFin : s.socket.fin = false

theorem Reading.of_sending {seen : List Received} {rest : List UInt8} (reading : Reading s seen rest) (sending : Sending s t) :
    Reading t seen rest := by
  obtain ⟨⟨registered, seen', clean, wf, queue⟩, front, noFin⟩ := reading
  obtain ⟨inBuf, handle, trace, -, fin, -⟩ := sending
  refine ⟨⟨?_, ?_, ?_, ?_, ?_⟩, ?_, fin.trans noFin⟩
  · rw [handle]; exact registered
  · rw [trace]; exact seen'
  · rw [trace]; exact clean
  · rw [inBuf]; exact wf
  · rw [inBuf]; exact queue
  · rw [inBuf]; exact front

/-- The bytes of the packet in front. -/
theorem load_packet {b : SimpleBuffer} {data : List UInt8} {len : UInt32} (wf : b.WF) (queue : b.content = data)
    (frame : frameAt data = .packet len) :
    load (b.buffer.cells.drop b.readOffset.toNat) 0 len.toNat = some (data.take len.toNat) := by
  obtain ⟨-, short, -⟩ := le_of_frameAt frame
  have size := wf.length_content
  have inside := wf.write_le
  subst queue
  rw [wf.take_content short]
  apply load_zero
  rw [List.length_drop, b.buffer.size]
  omega

section OnRead

variable (reply : Received → List HeapPkt) {seen news : List Received} {data rest : List UInt8} {len : UInt32}

/-- The override has been called with the packet in front, and has sent its answer. -/
theorem answer_wp (stands : Open s seen data) (frame : frameAt data = .packet len) (flow : Flow s a)
    (isOpen : a.isOpen = true)
    (room : s.conn.outBuf.content.length + (encode (reply (receivedAt data len))).length < 2 ^ 31) :
    wp (answer reply ⟨.init, some ⟨s.conn.inBuf.readOffset, len⟩, headerAt (data.take len.toNat)⟩)
      (fun _ t => Flow t { a with accepted := a.accepted ++ encode (reply (receivedAt data len)) } ∧
        Sending { s with trace := s.trace ++ [.handled (receivedAt data len)] } t) Never s := by
  have bytes := load_packet stands.wf stands.queue frame
  simp only [answer, wp_bind, wp_get, getBuffer, getLength, orUndefined, bytes, Stop.ofOption, wp_ofExcept_ok, record,
    wp_modify]
  exact sendWaiting_sends flow.receiving isOpen room

/-- A packet has been handled and is taken out of the receive buffer. -/
theorem Open.next {pkt : Received} (stands : Open s seen data) (len : UInt32) (serial : Nat)
    (sending : Sending { s with trace := s.trace ++ [.handled pkt] } t) :
    Open { t with
      conn := { t.conn with inBuf := t.conn.inBuf.readNull len }
      trace := t.trace ++ [.deleted serial] } (seen ++ [pkt]) (data.drop len.toNat) := by
  obtain ⟨inBuf, handle, trace, -, -, -⟩ := sending
  dsimp only at inBuf handle trace
  obtain ⟨wf, queue, -⟩ := SimpleBuffer.readNull_spec stands.wf len
  rw [stands.queue] at queue
  constructor
  · show t.conn.handle ≠ invalidHandle
    rw [handle]
    exact stands.registered
  · rw [trace, packets_append, packets_append, stands.seen]
    exact List.append_nil _
  · rw [trace, malformed_append, malformed_append, stands.clean]
    rfl
  · show (t.conn.inBuf.readNull len).WF
    rw [inBuf]
    exact wf
  · show (t.conn.inBuf.readNull len).content = _
    rw [inBuf]
    exact queue

/-- The parse loop goes through the packets that are there, and sends the answers. -/
theorem parseLoopWith_wp {fuel : Nat} (frames : Frames data news rest) (stands : Open s seen data) (flow : Flow s a)
    (isOpen : news ≠ [] → a.isOpen = true)
    (room : s.conn.outBuf.content.length + (encode (news.flatMap reply)).length < 2 ^ 31)
    (enough : news.length < fuel) :
    wp (parseLoopWith (answer reply) fuel)
      (fun _ t => Open t (seen ++ news) rest ∧ Flow t { a with accepted := a.accepted ++ encode (news.flatMap reply) } ∧
        s.socket.sent <+: t.socket.sent ∧ t.socket.state = s.socket.state ∧ t.socket.fin = s.socket.fin) Never s := by
  induction frames generalizing s a seen fuel with
  | @done data frame =>
    obtain ⟨fuel, rfl⟩ : ∃ n, fuel = n + 1 := ⟨fuel - 1, by omega⟩
    have next := readPacket_inBuf stands.wf
    rw [stands.queue, frame] at next
    simp only [parseLoopWith, wp_bind, wp_get, next, wp_ofExcept_ok, wp_pure, List.append_nil, List.flatMap_nil, encode_nil]
    exact ⟨stands, flow, List.prefix_rfl, trivial, trivial⟩
  | @packet data rest news len frame others ih =>
    obtain ⟨fuel, rfl⟩ : ∃ n, fuel = n + 1 := ⟨fuel - 1, by omega⟩
    have next := readPacket_inBuf stands.wf
    rw [stands.queue, frame] at next
    have isOpen : a.isOpen = true := isOpen (List.cons_ne_nil _ _)
    rw [List.flatMap_cons, encode_append, List.length_append] at room
    simp only [parseLoopWith, wp_bind, wp_get, next, wp_ofExcept_ok]
    apply wp.call (answer_wp reply stands frame flow isOpen (by omega))
    rintro - t ⟨flow', sending⟩
    have called : Flow { s with trace := s.trace ++ [.handled (receivedAt data len)] } a := flow.receiving
    have grown : t.conn.outBuf.content.length ≤ s.conn.outBuf.content.length + _ := called.backlog_le flow' sending
    have stands' := stands.next len (packets s.trace).length sending
    simp only [wp_modify, record, getLength, wp_ite, wp_pure]
    rw [if_neg stands'.registered]
    refine wp.call (ih stands' flow'.receiving (fun _ => isOpen) ?_ ?_) ?_
    · show t.conn.outBuf.content.length + _ < 2 ^ 31
      omega
    · rw [List.length_cons] at enough
      omega
    · rintro - u ⟨stands', flow'', sent', state', fin'⟩
      refine ⟨?_, ?_, sending.sent.trans sent', state'.trans sending.state, fin'.trans sending.fin⟩
      · rw [List.append_assoc] at stands'
        exact stands'
      · rw [List.flatMap_cons, encode_append, ← List.append_assoc]
        exact flow''

/-- **One `OnRead`.** What has arrived is handled as far as it is complete, and the answers are sent. -/
theorem onReadWith_wp (reading : Reading s seen rest) (flow : Flow s a) (isOpen : news ≠ [] → a.isOpen = true)
    {rest' : List UInt8} (next : Frames (rest ++ chunkBytes s.socket.recvs) news rest')
    (small : rest.length + (chunkBytes s.socket.recvs).length ≤ 2 ^ 31)
    (room : s.conn.outBuf.content.length + (encode (news.flatMap reply)).length < 2 ^ 31) :
    wp (onReadWith (answer reply))
      (fun _ t => Reading t (seen ++ news) rest' ∧
        Flow t { a with accepted := a.accepted ++ encode (news.flatMap reply) } ∧
        s.socket.sent <+: t.socket.sent ∧ t.socket.state = s.socket.state) Never s := by
  obtain ⟨stands, front, noFin⟩ := reading
  have size := stands.wf.length_content
  rw [front, stands.queue] at size
  have start : s.conn.inBuf.writeOffset.toNat + (chunkBytes s.socket.recvs).length ≤ 2 ^ 31 := by
    have zero : (0 : UInt32).toNat = 0 := rfl
    omega
  have received := (recvData_wp (Nat.lt_succ_self _) stands.wf start).and
    (receiving_recvData (s.socket.recvs.length + 1) s ⟨rfl, rfl, rfl, rfl, rfl, rfl, fun _ => rfl, rfl⟩)
  simp only [onReadWith, wp_bind, wp_get]
  refine received.mono ?_ (fun _ _ impossible => impossible.1.elim)
  rintro - t ⟨⟨handle, trace, wf, queue⟩, same⟩
  rw [stands.queue] at queue
  have stands' : Open t seen (rest ++ chunkBytes s.socket.recvs) :=
    ⟨by rw [handle]; exact stands.registered, by rw [trace, stands.seen], by rw [trace, stands.clean], wf, queue⟩
  have fuel : news.length < t.conn.inBuf.getReadableLen.toNat + 1 := by
    have few := next.length_pkts
    rw [wf.toNat_getReadableLen, queue]
    omega
  simp only [parsePktWith, wp_tryCatch, wp_bind, wp_get]
  refine wp.call (parseLoopWith_wp reply next stands' (flow.of_receiving same) isOpen ?_ fuel) ?_
  · rw [same.outBuf]
    exact room
  · rintro - u ⟨⟨registered, seen', clean, wf', queue'⟩, flow', sent, state, fin⟩
    obtain ⟨inBuf, reset, wf'', content, front', -⟩ := SimpleBuffer.resetOffset_spec wf'
    simp only [reset, orUndefined, Stop.ofOption, wp_ofExcept_ok, wp_set]
    rw [same.sent] at sent
    refine ⟨⟨⟨registered, seen', clean, wf'', content.trans queue'⟩, front', ?_⟩, flow'.receiving, sent, ?_⟩
    · exact fin.trans (same.fin.trans noFin)
    · exact state.trans (same.state noFin)

end OnRead

end Netter.BaseConn
