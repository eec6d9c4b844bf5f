import Netter.Lib.Framing
import Netter.Lib.Wp
import Netter.Conn.Model

/-!
# Packet framing

However the kernel cuts the inbound stream into chunks and `OnRead` events, the connection passes
the same packets to `HandlePkt`. `greedy` reads a stream as one buffer; it is a decoder in the
sense of `Lib.Framing`, and what is left to show is that one `OnRead` feeds it. Between events the
connection is `Matched` with where the decoder stands.
-/

namespace Netter.BaseConn

open Lib Framing PktBase

/-- The bytes of the chunks, in order. -/
def chunkBytes (chunks : List Chunk) : List UInt8 := chunks.flatMap Chunk.bytes

/-- The stream that `OnRead` events with these chunks deliver. -/
def streamOf (events : List (List Chunk)) : List UInt8 := events.flatMap chunkBytes

/-- One `OnRead` for each element, with the chunks `recv` gives in it; a connection that has closed
gets no more events. -/
def deliver (handlePkt : HandlePkt) : List (List Chunk) → ConnM Unit
  | [] => return
  | recvs :: events => do
    if (← get).conn.handle ≠ invalidHandle then
      modify fun s => { s with socket := { s.socket with recvs } }
      onRead handlePkt
    deliver handlePkt events

/-- A packet was refused: the only exception, with a handler that throws none. -/
def malformed (trace : List ConnEvent) : Bool :=
  trace.any fun
    | .thrown _ => true
    | _ => false

/-! ## The stream as one buffer -/

def closes (acts : List HandlerAct) : Bool :=
  acts.any fun
    | .close => true
    | .header _ => false

/-- The packet of length `len` at the front. -/
def receivedAt (data : List UInt8) (len : UInt32) : Received :=
  ⟨headerAt (data.take len.toNat), data.take len.toNat⟩

/-- The greedy decoding. Its state is the packets so far and whether one was refused. -/
def greedyStep (handlePkt : List Received → List HandlerAct) (st : List Received × Bool)
    (data : List UInt8) : Verdict (List Received × Bool) :=
  match frameAt data with
  | .incomplete => .more
  | .malformed _ => .stop (st.1, true)
  | .packet len =>
    if closes (handlePkt (st.1 ++ [receivedAt data len])) then .stop (st.1 ++ [receivedAt data len], false)
    else .frame len.toNat (st.1 ++ [receivedAt data len], false)

theorem receivedAt_append {data : List UInt8} {len : UInt32} (more : List UInt8)
    (frame : frameAt data = .packet len) : receivedAt (data ++ more) len = receivedAt data len := by
  obtain ⟨-, inside, -⟩ := le_of_frameAt frame
  rw [receivedAt, receivedAt, List.take_append_of_le_length inside]

theorem greedyStep_append {handlePkt : List Received → List HandlerAct} {st : List Received × Bool}
    {data : List UInt8} (more : List UInt8) (complete : greedyStep handlePkt st data ≠ .more) :
    greedyStep handlePkt st (data ++ more) = greedyStep handlePkt st data := by
  unfold greedyStep at complete ⊢
  cases frame : frameAt data with
  | incomplete =>
    rw [frame] at complete
    exact absurd rfl complete
  | malformed ex =>
    rw [frameAt_append more (by simp [frame]), frame]
  | packet len =>
    rw [frameAt_append more (by simp [frame]), frame]
    simp only [receivedAt_append more frame]

theorem greedyStep_frame {handlePkt : List Received → List HandlerAct} {st st' : List Received × Bool}
    {data : List UInt8} {k : Nat} (step : greedyStep handlePkt st data = .frame k st') :
    0 < k ∧ k ≤ data.length := by
  unfold greedyStep at step
  split at step
  · cases step
  · cases step
  · rename_i len frame
    obtain ⟨header, inside, -⟩ := le_of_frameAt frame
    split at step
    · cases step
    · cases step
      exact ⟨by omega, inside⟩

def greedy (handlePkt : List Received → List HandlerAct) : Decoder (List Received × Bool) UInt8 where
  step := greedyStep handlePkt
  frame_pos step := (greedyStep_frame step).1
  frame_le step := (greedyStep_frame step).2
  frame_append more step := by rw [greedyStep_append more (by simp [step]), step]
  stop_append more step := by rw [greedyStep_append more (by simp [step]), step]

/-! ## Where the connection stands -/

/-- Open, with `data` received and not parsed. -/
structure Open (s : ConnState) (seen : List Received) (data : List UInt8) : Prop where
  registered : s.conn.handle ≠ invalidHandle
  seen : packets s.trace = seen
  clean : malformed s.trace = false
  wf : s.conn.inBuf.WF
  queue : s.conn.inBuf.content = data

/-- Closed, after these packets. -/
structure Closed (s : ConnState) (seen : List Received) (bad : Bool) : Prop where
  closed : s.conn.handle = invalidHandle
  seen : packets s.trace = seen
  bad : malformed s.trace = bad

/-- The connection is where the decoder is. -/
def Matched (s : ConnState) : Outcome (List Received × Bool) UInt8 → Prop
  | .waiting st rest => st.2 = false ∧ Open s st.1 rest ∧ s.conn.inBuf.readOffset = 0
  | .stopped st => Closed s st.1 st.2

theorem Matched.observed {s : ConnState} {o : Outcome (List Received × Bool) UInt8} (stands : Matched s o) :
    packets s.trace = o.state.1 ∧ malformed s.trace = o.state.2 := by
  cases o with
  | waiting st rest =>
    obtain ⟨clean, reading, -⟩ := stands
    exact ⟨reading.seen, reading.clean.trans clean.symm⟩
  | stopped st => exact ⟨stands.seen, stands.bad⟩

/-- The kernel's side may change under it. -/
theorem Matched.socket {s : ConnState} {o : Outcome (List Received × Bool) UInt8} (stands : Matched s o)
    (socket : BaseSocket) : Matched { s with socket } o := by
  cases o with
  | waiting st rest =>
    obtain ⟨clean, ⟨registered, seen, clean', wf, queue⟩, front⟩ := stands
    exact ⟨clean, ⟨registered, seen, clean', wf, queue⟩, front⟩
  | stopped st =>
    obtain ⟨closed, seen, bad⟩ := stands
    exact ⟨closed, seen, bad⟩

/-! ## `_RecvData` -/

theorem makeRoom_spec {b : SimpleBuffer} (wf : b.WF) (grows : b.Grows kReadBufSize) :
    (makeRoom b).WF ∧ (makeRoom b).content = b.content ∧ (makeRoom b).readOffset = b.readOffset ∧
      (makeRoom b).writeOffset = b.writeOffset ∧
      b.writeOffset.toNat + kReadBufSize.toNat ≤ (makeRoom b).allocSize.toNat := by
  unfold makeRoom
  split
  · obtain ⟨wf', same, room⟩ := SimpleBuffer.extend_spec wf grows
    exact ⟨wf', same, rfl, rfl, room⟩
  · rename_i room
    have inside := wf.write_le
    rw [UInt32.lt_iff_toNat_lt, wf.toNat_getWritableLen] at room
    exact ⟨wf, rfl, rfl, rfl, by omega⟩

/-- `bytes` have been received, and nothing else has happened. -/
structure Filled (s t : ConnState) (bytes : List UInt8) : Prop where
  handle : t.conn.handle = s.conn.handle
  trace : t.trace = s.trace
  wf : t.conn.inBuf.WF
  queue : t.conn.inBuf.content = s.conn.inBuf.content ++ bytes

/-- `_RecvData` appends all that `recv` gives. -/
theorem recvData_wp {fuel : Nat} {s : ConnState} (enough : s.socket.recvs.length < fuel)
    (wf : s.conn.inBuf.WF)
    (small : s.conn.inBuf.writeOffset.toNat + (chunkBytes s.socket.recvs).length ≤ 2 ^ 31) :
    wp (recvData fuel) (fun _ t => Filled s t (chunkBytes s.socket.recvs)) Never s := by
  induction fuel generalizing s with
  | zero => omega
  | succ fuel ih =>
    have grows : s.conn.inBuf.Grows kReadBufSize := by
      have width : kReadBufSize.toNat = 2048 := rfl
      unfold SimpleBuffer.Grows
      omega
    obtain ⟨wf', same, -, write, room⟩ := makeRoom_spec wf grows
    cases recvs : s.socket.recvs with
    | nil =>
      simp only [recvData, wp_bind, wp_get, BaseSocket.recv, recvs, wp_set]
      exact ⟨rfl, rfl, wf', by rw [same]; exact (List.append_nil _).symm⟩
    | cons chunk rest =>
      rw [recvs] at enough small
      simp only [chunkBytes, List.flatMap_cons, List.length_append] at small
      have width := chunk.le
      have count : (UInt32.ofNat chunk.bytes.length).toNat = chunk.bytes.length :=
        UInt32.toNat_ofNat_of_lt' (show chunk.bytes.length < 2 ^ 32 by omega)
      obtain ⟨m, filled, moved, queue, -, last, -⟩ :=
        SimpleBuffer.fill_spec wf' count (by rw [write]; omega)
      rw [write] at last
      simp only [recvData, wp_bind, wp_get, BaseSocket.recv, recvs, orUndefined, filled, Stop.ofOption,
        wp_ofExcept_ok, wp_set]
      refine wp.call (ih (by simpa using enough) moved ?_) ?_
      · show (m.incWriteOffset _).writeOffset.toNat + (chunkBytes rest).length ≤ 2 ^ 31
        rw [last, chunkBytes]
        omega
      · rintro - t ⟨handle, trace, wf'', content⟩
        refine ⟨handle, trace, wf'', ?_⟩
        have before : t.conn.inBuf.content = (m.incWriteOffset _).content ++ chunkBytes rest := content
        rw [before, queue, same, List.append_assoc]
        rfl

/-! ## `_ParsePkt` -/

theorem packets_append (trace : List ConnEvent) (event : ConnEvent) :
    packets (trace ++ [event]) = packets trace ++ packets [event] := List.filterMap_append

theorem malformed_append (trace : List ConnEvent) (event : ConnEvent) :
    malformed (trace ++ [event]) = (malformed trace || malformed [event]) := List.any_append

/-- `Close` on a registered connection. -/
theorem close_wp {s : ConnState} (registered : s.conn.handle ≠ invalidHandle) :
    wp close (fun _ t => t.conn.inBuf = s.conn.inBuf ∧ t.conn.handle = invalidHandle ∧
      t.trace = s.trace ++ [.closed]) Never s := by
  simp [close, registered, record]

/-- `Close` on a connection that has closed. -/
theorem close_wp_closed {s : ConnState} (closed : s.conn.handle = invalidHandle) :
    wp close (fun _ t => t = s) Never s := by
  simp only [close, wp_bind, wp_get, closed, if_true, wp_pure]

/-- `OnClose` records a close, unless there has been one. -/
theorem onClose_wp {s : ConnState} :
    wp onClose (fun _ t => t.conn.inBuf = s.conn.inBuf ∧ t.conn.handle = invalidHandle ∧
      ∃ n, t.trace = s.trace ++ List.replicate n .closed) Never s := by
  unfold onClose
  by_cases closed : s.conn.handle = invalidHandle
  · refine (close_wp_closed closed).call fun _ t is => ?_
    subst is
    exact ⟨rfl, closed, 0, (List.append_nil _).symm⟩
  · exact (close_wp closed).call fun _ t ends => ⟨ends.1, ends.2.1, 1, ends.2.2⟩

/-- What the calls in a `HandlePkt` leave of the connection. -/
structure Acted (acts : List HandlerAct) (s t : ConnState) : Prop where
  wf : t.conn.inBuf.WF
  tail : t.conn.inBuf.content.drop 16 = s.conn.inBuf.content.drop 16
  size : t.conn.inBuf.content.length = s.conn.inBuf.content.length
  handle : t.conn.handle = if closes acts then invalidHandle else s.conn.handle
  seen : packets t.trace = packets s.trace
  clean : malformed t.trace = malformed s.trace

/-- What lies behind a header has not changed. -/
theorem Acted.drop {acts : List HandlerAct} {s t : ConnState} {k : Nat} (acted : Acted acts s t) (header : 16 ≤ k) :
    t.conn.inBuf.content.drop k = s.conn.inBuf.content.drop k := by
  have parts : k = 16 + (k - 16) := by omega
  rw [parts, ← List.drop_drop, acted.tail, List.drop_drop]

/-- A store into the header of the packet in front leaves the rest of the queue. -/
theorem content_sameButHeader {b : SimpleBuffer} {buffer : Block UInt8 b.allocSize.toNat}
    (same : SameButHeader b.readOffset.toNat b.buffer buffer) :
    ({ b with buffer } : SimpleBuffer).content.drop 16 = b.content.drop 16 := by
  have behind := same.behind
  simp only [SimpleBuffer.content, List.drop_drop, List.drop_take]
  rw [behind]

theorem runActs_wp {acts : List HandlerAct} {pkt : PktBase} {s : ConnState} {len : UInt32}
    (here : pkt.incoming = some ⟨s.conn.inBuf.readOffset, len⟩) (wf : s.conn.inBuf.WF)
    (header : 16 ≤ s.conn.inBuf.content.length) :
    wp (runActs acts pkt) (fun _ t => Acted acts s t) Never s := by
  induction acts generalizing pkt s with
  | nil =>
    simp only [runActs, wp_pure]
    exact ⟨wf, rfl, rfl, rfl, rfl, rfl⟩
  | cons act acts ih =>
    cases act with
    | header op =>
      have size := wf.length_content
      have inside := wf.write_le
      obtain ⟨pkt', buffer, run, here', same⟩ :=
        op.exec_incoming here (show s.conn.inBuf.readOffset.toNat + 16 ≤ _ by omega) s.conn.inBuf.buffer
      simp only [runActs, wp_bind, wp_get, run, orUndefined, Stop.ofOption, wp_ofExcept_ok, wp_set]
      have wf' : SimpleBuffer.WF { s.conn.inBuf with buffer } := ⟨wf.read_le, wf.write_le⟩
      have size' : ({ s.conn.inBuf with buffer } : SimpleBuffer).content.length = s.conn.inBuf.content.length := by
        rw [wf'.length_content, size]
      refine wp.call (ih here' wf' (by rw [size']; exact header)) ?_
      rintro - t ⟨wf'', tail, size'', handle, seen, clean⟩
      exact ⟨wf'', tail.trans (content_sameButHeader same), size''.trans size', handle, seen, clean⟩
    | close =>
      simp only [runActs, wp_bind]
      by_cases registered : s.conn.handle = invalidHandle
      · apply wp.call (close_wp_closed registered)
        rintro - t rfl
        apply wp.call (ih here wf header)
        rintro - t' ⟨wf', tail, size, handle, seen, clean⟩
        refine ⟨wf', tail, size, ?_, seen, clean⟩
        rw [handle, registered]
        simp [closes]
      · apply wp.call (close_wp registered)
        rintro - t ⟨inBuf, closed, trace⟩
        apply wp.call (ih (by rw [inBuf]; exact here) (by rw [inBuf]; exact wf) (by rw [inBuf]; exact header))
        rintro - t' ⟨wf', tail, size, handle, seen, clean⟩
        refine ⟨wf', by rw [tail, inBuf], by rw [size, inBuf], ?_, ?_, ?_⟩
        · rw [handle, closed]
          simp [closes]
        · rw [seen, trace, packets_append]
          exact List.append_nil _
        · rw [clean, trace, malformed_append]
          exact Bool.or_false _

/-- `ReadPacket` is called on the unread bytes. -/
theorem readPacket_inBuf {b : SimpleBuffer} (wf : b.WF) :
    readPacket b.buffer.cells b.readOffset b.getReadableLen = match frameAt b.content with
      | .incomplete => .ok none
      | .malformed ex => .error (.throws ex)
      | .packet k => .ok (some ⟨.init, some ⟨b.readOffset, k⟩, headerAt (b.content.take k.toNat)⟩) := by
  have size := wf.length_content
  have ordered := wf.read_le
  have inside := wf.write_le
  have readable := wf.toNat_getReadableLen
  have queue : (b.buffer.cells.drop b.readOffset.toNat).take b.getReadableLen.toNat = b.content := by
    rw [readable, ← wf.take_content (Nat.le_refl _), List.take_length]
  rw [readPacket_eq (by rw [b.buffer.size]; omega), queue]
  cases frame : frameAt b.content with
  | incomplete => rfl
  | malformed ex => rfl
  | packet k =>
    obtain ⟨-, short, -⟩ := le_of_frameAt frame
    simp only [wf.take_content short]

/-- The parse loop without an exception: it has to wait, or a handler has closed the connection. -/
def LoopReturns : Outcome (List Received × Bool) UInt8 → ConnState → Prop
  | .waiting st rest, t => st.2 = false ∧ Open t st.1 rest
  | .stopped st, t => Closed t st.1 st.2 ∧ t.conn.inBuf.WF

/-- The parse loop with an exception: a packet was refused, and its header is there. -/
def LoopThrows : Outcome (List Received × Bool) UInt8 → Stop → ConnState → Prop
  | .stopped st, .throws _, t => st.2 = true ∧ ∃ data, Open t st.1 data ∧ 16 ≤ data.length
  | _, _, _ => False

/-- A handler that throws nothing. -/
def quiet (handlePkt : List Received → List HandlerAct) : HandlePkt := fun seen => ⟨handlePkt seen, none⟩

/-- `HandlePkt` is called with the packet in front: what its calls do, and then whether it throws. -/
theorem callHandlePkt_acts {handlePkt : HandlePkt} {s : ConnState} {data : List UInt8} {len : UInt32}
    {P : ConnState → Prop} (wf : s.conn.inBuf.WF) (queue : s.conn.inBuf.content = data) (frame : frameAt data = .packet len)
    (acts : ∀ pkt : PktBase, pkt.incoming = some ⟨s.conn.inBuf.readOffset, len⟩ →
      wp (runActs (handlePkt (packets s.trace ++ [receivedAt data len])).acts pkt) (fun _ t => P t) Never
        { s with trace := s.trace ++ [.handled (receivedAt data len)] }) :
    wp (callHandlePkt handlePkt ⟨.init, some ⟨s.conn.inBuf.readOffset, len⟩, headerAt (data.take len.toNat)⟩)
      (fun _ t => P t ∧ (handlePkt (packets s.trace ++ [receivedAt data len])).throws = none)
      (fun stop t => P t ∧ ∃ ex, stop = .throws ex ∧
        (handlePkt (packets s.trace ++ [receivedAt data len])).throws = some ex) s := by
  obtain ⟨-, short, -⟩ := le_of_frameAt frame
  have size := wf.length_content
  have inside := wf.write_le
  have bytes : load (s.conn.inBuf.buffer.cells.drop s.conn.inBuf.readOffset.toNat) 0 len.toNat =
      some (data.take len.toNat) := by
    subst queue
    rw [wf.take_content short]
    apply load_zero
    rw [List.length_drop, s.conn.inBuf.buffer.size]
    omega
  have now : packets (s.trace ++ [.handled ⟨headerAt (data.take len.toNat), data.take len.toNat⟩]) =
      packets s.trace ++ [receivedAt data len] := packets_append s.trace (.handled (receivedAt data len))
  simp only [callHandlePkt, wp_bind, wp_get, getBuffer, getLength, orUndefined, bytes, Stop.ofOption,
    wp_ofExcept_ok, record, wp_modify]
  rw [now]
  refine (acts _ rfl).call fun _ t acted => ?_
  cases throws : (handlePkt (packets s.trace ++ [receivedAt data len])).throws with
  | none => exact ⟨acted, rfl⟩
  | some ex => exact ⟨acted, ex, rfl, rfl⟩

section Parse

variable (handlePkt : List Received → List HandlerAct)

/-- A `HandlePkt` that throws nothing returns, and has done to the connection what its calls do. -/
theorem callHandlePkt_wp {s : ConnState} {seen : List Received} {data : List UInt8} {len : UInt32}
    (stands : Open s seen data) (frame : frameAt data = .packet len) :
    wp (callHandlePkt (quiet handlePkt)
        ⟨.init, some ⟨s.conn.inBuf.readOffset, len⟩, headerAt (data.take len.toNat)⟩)
      (fun _ t => t.conn.inBuf.WF ∧ t.conn.inBuf.content.drop len.toNat = data.drop len.toNat ∧
        packets t.trace = seen ++ [receivedAt data len] ∧ malformed t.trace = false ∧
        (t.conn.handle = invalidHandle ↔ closes (handlePkt (seen ++ [receivedAt data len])) = true))
      Never s := by
  obtain ⟨registered, seen', clean, wf, queue⟩ := stands
  obtain ⟨header, short, -⟩ := le_of_frameAt frame
  subst seen'
  have header' : 16 ≤ s.conn.inBuf.content.length := by
    rw [queue]
    exact Nat.le_trans header short
  refine (callHandlePkt_acts wf queue frame fun pkt here => runActs_wp here wf header').mono ?_ ?_
  · rintro - t ⟨acted, -⟩
    refine ⟨acted.wf, (acted.drop header).trans (by rw [← queue]), ?_, ?_, ?_⟩
    · exact acted.seen.trans (packets_append s.trace (.handled (receivedAt data len)))
    · rw [acted.clean, malformed_append, clean]
      rfl
    have handle : t.conn.handle = if closes (handlePkt (packets s.trace ++ [receivedAt data len])) then invalidHandle
        else s.conn.handle := acted.handle
    rw [handle]
    split
    · rename_i closing
      simp [closing]
    · rename_i staying
      simp [staying, registered]
  · rintro stop t ⟨-, ex, -, throws⟩
    cases throws

/-- The parse loop does what the decoder does with the unread bytes. -/
theorem parseLoop_wp {fuel : Nat} {s : ConnState} {seen : List Received} {data : List UInt8}
    (stands : Open s seen data) (enough : data.length < fuel) :
    wp (parseLoop (quiet handlePkt) fuel)
      (fun _ t => LoopReturns ((greedy handlePkt).run (seen, false) data) t)
      (fun e t => LoopThrows ((greedy handlePkt).run (seen, false) data) e t) s := by
  induction fuel generalizing s seen data with
  | zero => omega
  | succ fuel ih =>
    have next := readPacket_inBuf stands.wf
    rw [stands.queue] at next
    simp only [parseLoop, wp_bind, wp_get]
    rw [next]
    cases frame : frameAt data with
    | incomplete =>
      have verdict : (greedy handlePkt).step (seen, false) data = .more := by
        simp [greedy, greedyStep, frame]
      simp only [wp_ofExcept_ok, wp_pure]
      rw [Decoder.run_of_more verdict]
      exact ⟨rfl, stands⟩
    | malformed ex =>
      have verdict : (greedy handlePkt).step (seen, false) data = .stop (seen, true) := by
        simp [greedy, greedyStep, frame]
      simp only [wp_ofExcept_error]
      rw [Decoder.run_of_stop verdict]
      exact ⟨rfl, data, stands, le_of_malformed frame⟩
    | packet len =>
      obtain ⟨header, short, -⟩ := le_of_frameAt frame
      simp only [wp_ofExcept_ok, wp_bind]
      apply wp.call (callHandlePkt_wp handlePkt stands frame)
      rintro - t ⟨wf, tail, now, clean, handle⟩
      obtain ⟨wf', queue, -⟩ := SimpleBuffer.readNull_spec wf len
      rw [tail] at queue
      simp only [wp_modify, record, wp_get, getLength, wp_ite, wp_pure]
      have seen' : packets (t.trace ++ [.deleted (packets s.trace).length]) = seen ++ [receivedAt data len] := by
        rw [packets_append, now]
        exact List.append_nil _
      have clean' : malformed (t.trace ++ [.deleted (packets s.trace).length]) = false := by
        rw [malformed_append, clean]
        rfl
      by_cases closing : closes (handlePkt (seen ++ [receivedAt data len])) = true
      · have verdict : (greedy handlePkt).step (seen, false) data = .stop (seen ++ [receivedAt data len], false) := by
          simp [greedy, greedyStep, frame, closing]
        rw [if_pos (handle.mpr closing), Decoder.run_of_stop verdict]
        exact ⟨⟨handle.mpr closing, seen', clean'⟩, wf'⟩
      · have verdict : (greedy handlePkt).step (seen, false) data =
            .frame len.toNat (seen ++ [receivedAt data len], false) := by
          simp [greedy, greedyStep, frame, closing]
        have registered := mt handle.mp closing
        rw [if_neg registered, Decoder.run_of_frame verdict]
        exact ih ⟨registered, seen', clean', wf', queue⟩ (by rw [List.length_drop]; omega)

/-- The `catch` block comes to `OnClose`: the header that it reads is there. -/
theorem catchPkt_onClose {s : ConnState} {Q : Unit → ConnState → Prop} {ex : PktException} (wf : s.conn.inBuf.WF)
    (header : 16 ≤ s.conn.inBuf.content.length)
    (closing : wp onClose Q Never { s with trace := s.trace ++ [.thrown ex] }) : wp (catchPkt ex) Q Never s := by
  have size := wf.length_content
  have inside := wf.write_le
  have fields : readPktHeader (s.conn.inBuf.buffer.cells.drop s.conn.inBuf.readOffset.toNat) pktHeaderLen = _ :=
    readPktHeader_run (by decide) (by
      rw [List.length_drop, s.conn.inBuf.buffer.size]
      show 16 ≤ _
      omega)
  simp only [catchPkt, wp_bind, record, wp_modify]
  split
  · simp only [wp_bind, wp_get, fields]
    exact closing
  · exact closing

theorem catchPkt_wp {s : ConnState} {seen : List Received} {data : List UInt8} (stands : Open s seen data)
    (header : 16 ≤ data.length) (ex : PktException) :
    wp (catchPkt ex) (fun _ t => Closed t seen true) Never s := by
  obtain ⟨registered, seen', clean, wf, queue⟩ := stands
  subst queue
  apply catchPkt_onClose wf header
  refine wp.call (close_wp registered) ?_
  rintro - t ⟨-, closed, trace⟩
  refine ⟨closed, ?_, ?_⟩
  · rw [trace, packets_append, packets_append, seen']
    simp [packets]
  · rw [trace, malformed_append, malformed_append]
    simp [malformed]

/-- `_ParsePkt` takes the connection to where decoding the unread bytes takes the decoder. -/
theorem parsePkt_wp {s : ConnState} {seen : List Received} {data : List UInt8} (stands : Open s seen data) :
    wp (parsePkt (quiet handlePkt)) (fun _ t => Matched t ((greedy handlePkt).run (seen, false) data))
      Never s := by
  have fuel : data.length < s.conn.inBuf.getReadableLen.toNat + 1 := by
    rw [stands.wf.toNat_getReadableLen, stands.queue]
    omega
  simp only [parsePkt, wp_tryCatch, wp_bind, wp_get]
  refine (parseLoop_wp handlePkt stands fuel).mono ?_ ?_
  · rintro - t returns
    cases outcome : (greedy handlePkt).run (seen, false) data with
    | waiting st rest =>
      rw [outcome] at returns
      obtain ⟨clean, registered, seen', clean', wf, queue⟩ := returns
      obtain ⟨inBuf, reset, wf', same, front, -⟩ := SimpleBuffer.resetOffset_spec wf
      simp only [reset, orUndefined, Stop.ofOption, wp_ofExcept_ok, wp_set]
      exact ⟨clean, ⟨registered, seen', clean', wf', same.trans queue⟩, front⟩
    | stopped st =>
      rw [outcome] at returns
      obtain ⟨⟨closed, seen', bad⟩, wf⟩ := returns
      obtain ⟨inBuf, reset, -⟩ := SimpleBuffer.resetOffset_spec wf
      simp only [reset, orUndefined, Stop.ofOption, wp_ofExcept_ok, wp_set]
      exact ⟨closed, seen', bad⟩
  · rintro e t throws
    cases outcome : (greedy handlePkt).run (seen, false) data with
    | waiting st rest =>
      rw [outcome] at throws
      exact throws.elim
    | stopped st =>
      rw [outcome] at throws
      cases e with
      | undefined => exact throws.elim
      | throws ex =>
        obtain ⟨refused, rest, stands', header⟩ := throws
        apply wp.call (catchPkt_wp stands' header ex)
        rintro - t' ⟨closed, seen', bad⟩
        exact ⟨closed, seen', bad.trans refused.symm⟩

/-- One `OnRead` feeds the decoder what `recv` gives. -/
theorem onRead_wp {s : ConnState} {o : Outcome (List Received × Bool) UInt8} (stands : Matched s o)
    (registered : s.conn.handle ≠ invalidHandle)
    (small : s.conn.inBuf.content.length + (chunkBytes s.socket.recvs).length ≤ 2 ^ 31) :
    wp (onRead (quiet handlePkt))
      (fun _ t => Matched t ((greedy handlePkt).feed o (chunkBytes s.socket.recvs))) Never s := by
  cases o with
  | stopped st => exact absurd stands.closed registered
  | waiting st rest =>
    obtain ⟨clean, ⟨-, seen', clean', wf, queue⟩, front⟩ := stands
    have size := wf.length_content
    rw [front] at size
    simp only [onRead, wp_bind, wp_get]
    refine wp.call (recvData_wp (Nat.lt_succ_self _) wf ?_) ?_
    · have zero : (0 : UInt32).toNat = 0 := rfl
      omega
    · rintro - t ⟨handle, trace, wf', content⟩
      have stands' : Open t st.1 (rest ++ chunkBytes s.socket.recvs) :=
        ⟨by rw [handle]; exact registered, by rw [trace, seen'], by rw [trace, clean'], wf',
          by rw [content, queue]⟩
      have parsed := parsePkt_wp handlePkt stands'
      rw [← clean] at parsed
      exact parsed

/-- A run feeds the decoder one event after the other. -/
theorem deliver_wp (events : List (List Chunk)) {s : ConnState} {o : Outcome (List Received × Bool) UInt8}
    (stands : Matched s o) (small : o.rest.length + (streamOf events).length ≤ 2 ^ 31) :
    wp (deliver (quiet handlePkt) events)
      (fun _ t => Matched t ((events.map chunkBytes).foldl (greedy handlePkt).feed o)) Never s := by
  induction events generalizing s o with
  | nil => exact stands
  | cons recvs events ih =>
    have total : (streamOf (recvs :: events)).length = (chunkBytes recvs).length + (streamOf events).length := by
      rw [streamOf, List.flatMap_cons, List.length_append]
      rfl
    have left := (greedy handlePkt).length_rest_feed o (chunkBytes recvs)
    simp only [deliver, wp_bind, wp_get]
    cases o with
    | waiting st rest =>
      have registered := stands.2.1.registered
      rw [if_pos registered, wp_bind, wp_modify, wp_bind]
      refine wp.call (onRead_wp handlePkt (stands.socket { s.socket with recvs }) registered ?_) ?_
      · have room : rest.length + (chunkBytes recvs).length ≤ 2 ^ 31 := by
          simp only [Outcome.rest] at small
          omega
        rw [stands.2.1.queue]
        exact room
      · intro _ t matched
        exact ih matched (by omega)
    | stopped st =>
      rw [if_neg (not_not.mpr stands.closed)]
      exact ih stands (by omega)

end Parse

/-- Accepted or opened, and nothing received yet. -/
structure Fresh (s : ConnState) : Prop where
  registered : s.conn.handle ≠ invalidHandle
  empty : s.conn.inBuf = .init
  start : s.trace = []

theorem Fresh.matched {s : ConnState} (fresh : Fresh s) : Matched s (.waiting ([], false) []) := by
  refine ⟨rfl, ⟨fresh.registered, ?_, ?_, ?_, ?_⟩, ?_⟩
  · rw [fresh.start]; rfl
  · rw [fresh.start]; rfl
  · rw [fresh.empty]; exact SimpleBuffer.wf_init
  · rw [fresh.empty]; rfl
  · rw [fresh.empty]; rfl

/-- **Framing does not depend on the cuts.** However a stream arrives, the connection ends up where
the greedy decoding of the whole stream does; so two ways of cutting it agree on the packets and
on whether one was refused. -/
theorem framing (handlePkt : List Received → List HandlerAct) (s : ConnState) (fresh : Fresh s)
    (stream : List UInt8) (small : stream.length < 2 ^ 31) (events events' : List (List Chunk))
    (cut : streamOf events = stream) (cut' : streamOf events' = stream) :
    ∃ t t', (deliver (quiet handlePkt) events).run s = .ok () t ∧
      (deliver (quiet handlePkt) events').run s = .ok () t' ∧
      Matched t ((greedy handlePkt).run ([], false) stream) ∧
      Matched t' ((greedy handlePkt).run ([], false) stream) ∧
      packets t.trace = packets t'.trace ∧ malformed t.trace = malformed t'.trace := by
  have whole : ∀ events, streamOf events = stream → ∃ t, (deliver (quiet handlePkt) events).run s = .ok () t ∧
      Matched t ((greedy handlePkt).run ([], false) stream) := by
    intro events cut
    have start : (greedy handlePkt).run ([], false) [] = .waiting ([], false) [] := Decoder.run_of_more rfl
    have short : ([] : List UInt8).length + (streamOf events).length ≤ 2 ^ 31 := by
      rw [cut, List.length_nil]
      omega
    obtain ⟨⟨⟩, t, run, matched⟩ := wp_never.mp (deliver_wp handlePkt events fresh.matched short)
    rw [← start, Decoder.foldl_feed, List.nil_append, ← List.flatMap_def] at matched
    exact ⟨t, run, cut ▸ matched⟩
  obtain ⟨t, run, matched⟩ := whole events cut
  obtain ⟨t', run', matched'⟩ := whole events' cut'
  exact ⟨t, t', run, run', matched, matched', matched.observed.1.trans matched'.observed.1.symm,
    matched.observed.2.trans matched'.observed.2.symm⟩

/-- A heartbeat and the first byte of the next packet, in one chunk or in two events, with a
handler that writes into the packet. -/
theorem framing_heartbeat :
    ∃ t t' : ConnState,
      (deliver (quiet fun _ => [.header (.setSeqNo 7)])
        [[⟨[0, 0, 0, 16, 0, 1, 0, 0, 0, 0, 0, 1, 0, 0, 0, 0, 0], by decide, by decide⟩]]).run
        ⟨{ BaseConn.init with handle := 1 }, ⟨.connected, [], false, [], [], true⟩, []⟩ = .ok () t ∧
      (deliver (quiet fun _ => [.header (.setSeqNo 7)])
        [[⟨[0, 0, 0], by decide, by decide⟩],
          [⟨[16, 0, 1, 0, 0], by decide, by decide⟩, ⟨[0, 0, 0, 1, 0, 0, 0, 0, 0], by decide, by decide⟩]]).run
        ⟨{ BaseConn.init with handle := 1 }, ⟨.connected, [], false, [], [], true⟩, []⟩ = .ok () t' ∧
      packets t.trace = packets t'.trace := by
  have fresh : Fresh ⟨{ BaseConn.init with handle := 1 }, ⟨.connected, [], false, [], [], true⟩, []⟩ :=
    ⟨by decide, rfl, rfl⟩
  obtain ⟨t, t', run, run', -, -, same, -⟩ := framing (fun _ => [.header (.setSeqNo 7)]) _ fresh
    [0, 0, 0, 16, 0, 1, 0, 0, 0, 0, 0, 1, 0, 0, 0, 0, 0] (by decide)
    [[⟨[0, 0, 0, 16, 0, 1, 0, 0, 0, 0, 0, 1, 0, 0, 0, 0, 0], by decide, by decide⟩]]
    [[⟨[0, 0, 0], by decide, by decide⟩],
      [⟨[16, 0, 1, 0, 0], by decide, by decide⟩, ⟨[0, 0, 0, 1, 0, 0, 0, 0, 0], by decide, by decide⟩]]
    (by decide) (by decide)
  exact ⟨t, t', run, run', same⟩

end Netter.BaseConn
