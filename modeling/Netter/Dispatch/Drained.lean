import Netter.Dispatch.Confirm

/-!
# No packet is lost when the peer closes

That the peer has closed shows in two ways: `FIONREAD` gives 0, or `recv` does so in the loop of
`_RecvData`. Either way all that had been sent has been parsed before `CLOSE` is delivered. `due` is
what the sent bytes come to as one buffer, and the invariant says where the connection stands in it.
-/

namespace Netter.Dispatch

open PktBase BaseConn Lib.Framing

/-- The packets passed to `HandlePkt`. -/
def handledOf (trace : List Event) : List Received :=
  trace.filterMap fun
    | .handled pkt _ => some pkt
    | _ => none

/-- The complete packets at the front of a stream, up to a malformed one, and whether there is one. -/
def due (stream : List UInt8) : List Received × Bool := ((greedy fun _ => []).run ([], false) stream).state

/-- All the peer has sent. -/
def State.sent (s : State) : List UInt8 := s.received ++ s.queue

/-- The loop is in a call of `OnRead` that has got the last bytes. -/
def State.Finishing (s : State) : Prop := s.pc = .parsePkt ∨ s.pc = .readDone

/-- The loop is in a call of `OnRead` that may still `recv`. -/
def State.MayRecv (s : State) : Prop := s.pc = .onRead ∨ s.pc = .recvData

/-- `EPOLLIN` is reported when there is something to read or the FIN, and the connection is closed neither by
its handler, nor by a timeout or from elsewhere, nor by an error of its socket. -/
def Step.Undisturbed (s : State) : Step → Prop
  | .report entry => entry.hup = false ∧ (entry.input = true → s.queue ≠ [] ∨ s.fin = true)
  | .advance answer => .close ∉ answer.handling.acts ∧ answer.handling.throws = false
  | .close => False
  | .arrive _ | .fin => True

/-- What is promised about the end of a stream. -/
structure Drained (s : State) : Prop where
  inOrder : handledOf s.trace <+: (due s.sent).1
  beforeClose : ∀ before after, s.trace = before ++ .close :: after →
    handledOf s.trace = handledOf before ∧ handledOf before = (due s.sent).1 ∧ s.fin = true
  atRest : s.registered = false ∨ s.queue = [] ∧ s.pc ∉ [.onRead, .recvData, .parsePkt] →
    handledOf s.trace = (due s.sent).1
  closedOnce : s.noticed = true → (due s.sent).2 = false → ¬ s.Finishing → s.trace.count .close = 1
  ends : s.noticed = true → ∀ answers : List Answer, s.inBuf.length + 2 ≤ answers.length →
    ¬ (Lib.run State.advance s answers).Finishing
  /-- `OnRead` takes the queue until it is empty, … -/
  emptied : s.MayRecv → ∀ answer : Answer, ¬ (s.advance answer).MayRecv → s.queue = []
  /-- … it returns, … -/
  returns : ∀ answers : List Answer, 2 * s.queue.length + s.inBuf.length + 4 ≤ answers.length →
    ¬ (Lib.run State.advance s answers).MayRecv ∧ ¬ (Lib.run State.advance s answers).Finishing
  /-- … and then all that was received has been handled. -/
  parsed : s.pc ≠ .recvData → s.pc ≠ .parsePkt → handledOf s.trace = (due s.received).1

variable {s t : State} {stream more : List UInt8} {seen : List Received} {trace : List Event} {event : Event}
  {acts : List Act} {answer : Answer}

/-! ## The stream as one buffer -/

@[simp] theorem handledOf_append (trace more : List Event) :
    handledOf (trace ++ more) = handledOf trace ++ handledOf more := List.filterMap_append

/-- Where the decoder stands after `seen`, before `stream`. -/
def decode (seen : List Received) (stream : List UInt8) : Outcome (List Received × Bool) UInt8 :=
  (greedy fun _ => []).run (seen, false) stream

theorem decode_incomplete (frame : frameAt stream = .incomplete) : decode seen stream = .waiting (seen, false) stream := by
  apply Decoder.run_of_more
  simp [greedy, greedyStep, frame]

theorem decode_malformed {ex : PktException} (frame : frameAt stream = .malformed ex) :
    decode seen stream = .stopped (seen, true) := by
  apply Decoder.run_of_stop
  simp [greedy, greedyStep, frame]

theorem decode_packet {len : UInt32} (frame : frameAt stream = .packet len) :
    decode seen stream = decode (seen ++ [receivedAt stream len]) (stream.drop len.toNat) := by
  apply Decoder.run_of_frame
  simp [greedy, greedyStep, frame, closes]

theorem decode_append : decode seen (stream ++ more) = (greedy fun _ => []).feed (decode seen stream) more :=
  Decoder.run_append _ _ _ _

/-- The packets before are there whatever the decoder still finds. -/
theorem seen_prefix_decode (seen : List Received) (stream : List UInt8) : seen <+: (decode seen stream).state.1 := by
  induction n : stream.length using Nat.strongRecOn generalizing seen stream with
  | _ n ih =>
    cases frame : frameAt stream with
    | incomplete =>
      rw [decode_incomplete frame]
      exact List.prefix_rfl
    | malformed ex =>
      rw [decode_malformed frame]
      exact List.prefix_rfl
    | packet len =>
      obtain ⟨header, inside, -⟩ := le_of_frameAt frame
      rw [decode_packet frame]
      refine (List.prefix_append seen _).trans (ih _ ?_ _ _ rfl)
      rw [List.length_drop]
      omega

/-! ## The invariant -/

/-- While the connection is open. -/
structure Reading (s : State) : Prop where
  registered : s.registered = true
  isOpen : s.isOpen = true
  socket : s.socket = .connected ∨ s.socket = .peerClosing ∧ s.fin = true ∧ s.queue = [] ∧ s.Finishing
  noticed : s.noticed = true → s.socket = .peerClosing
  decoded : decode [] s.received = decode (handledOf s.trace) s.inBuf
  parsed : s.pc ≠ .recvData → s.pc ≠ .parsePkt → frameAt s.inBuf = .incomplete
  reported : s.pc = .onRead → s.queue ≠ [] ∨ s.fin = true
  noHup : s.entry.hup = false
  fresh : .close ∉ s.trace

/-- Closed for a malformed packet, or by `CLOSE` with nothing left over. -/
inductive How (s : State) : Prop where
  | refused (fresh : .close ∉ s.trace) (decoded : decode [] s.received = .stopped (handledOf s.trace, true))
  | peer (before : List Event) (rest : List UInt8) (trace : s.trace = before ++ [.close]) (fresh : .close ∉ before)
      (decoded : decode [] s.received = .waiting (handledOf s.trace, false) rest) (queue : s.queue = [])
      (fin : s.fin = true)

structure Ended (s : State) : Prop where
  gone : s.registered = false
  socket : s.socket = .closing
  pc : s.pc = .readDone ∨ s.pc = .onWrite ∨ s.pc = .onClose ∨ s.pc = .idle
  how : How s

def Kept (s : State) : Prop := Reading s ∨ Ended s

/-- `CLOSE` when all has been parsed and the peer has closed. -/
theorem Reading.callClose {pc : Pc} {noticed : Bool} (reading : Reading s) (frame : frameAt s.inBuf = .incomplete)
    (queue : s.queue = []) (fin : s.fin = true) (later : pc = .onWrite) :
    Ended { s.callClose with pc, noticed } := by
  have closed : s.callClose = { s.record .close with registered := false, isOpen := false, socket := .closing } :=
    if_pos reading.registered
  rw [closed]
  refine ⟨rfl, rfl, .inr (.inl later), .peer s.trace s.inBuf rfl reading.fresh ?_ queue fin⟩
  show decode [] s.received = .waiting (handledOf (s.trace ++ [.close]), false) s.inBuf
  rw [reading.decoded, decode_incomplete frame]
  simp [handledOf]

theorem runActs_undisturbed (isOpen : s.isOpen = true) (stays : .close ∉ acts) : s.runActs acts = s := by
  induction acts with
  | nil => rfl
  | cons act acts ih =>
    cases act with
    | reply =>
      simp only [State.runActs, isOpen, Bool.true_or, if_true]
      exact ih (fun member => stays (List.mem_cons_of_mem _ member))
    | close => exact absurd List.mem_cons_self stays

/-- An open connection outside `_RecvData` and `_ParsePkt`, after events that are not packets. -/
theorem Reading.onward {pc : Pc} {entry : Entry} (reading : Reading s) (connected : s.socket = .connected)
    (frame : frameAt s.inBuf = .incomplete) (reported : pc = .onRead → s.queue ≠ [] ∨ s.fin = true)
    (noHup : entry.hup = false) (same : handledOf trace = handledOf s.trace) (fresh : .close ∉ trace) :
    Reading { s with pc, entry, trace } := by
  refine ⟨reading.registered, reading.isOpen, .inl connected, reading.noticed, ?_, fun _ _ => frame, reported, noHup, fresh⟩
  rw [reading.decoded, same]

/-! ## What a step does -/

theorem Reading.not_finishing (reading : Reading s) (parse : s.pc ≠ .parsePkt) (done : s.pc ≠ .readDone) :
    s.socket = .connected := by
  rcases reading.socket with connected | ⟨-, -, -, at_parse | at_done⟩
  · exact connected
  · exact absurd at_parse parse
  · exact absurd at_done done

theorem Reading.onRead (reading : Reading s) (at_read : s.pc = .onRead) : Kept (s.advance answer) := by
  have frame := reading.parsed (by simp [at_read]) (by simp [at_read])
  have connected := reading.not_finishing (by simp [at_read]) (by simp [at_read])
  simp only [State.advance, at_read]
  split
  next none =>
    have empty : s.queue = [] := by simpa using none
    have fin := (reading.reported at_read).resolve_left (not_not.mpr empty)
    exact .inr (reading.callClose frame empty fin rfl)
  next some =>
    refine .inl (reading.onward connected frame (by simp) reading.noHup ?_ ?_)
    · simp [handledOf]
    · simpa using reading.fresh

theorem Reading.recvData (reading : Reading s) (at_recv : s.pc = .recvData) : Reading s.recvData := by
  have connected := reading.not_finishing (by simp [at_recv]) (by simp [at_recv])
  have unnoticed : s.noticed = false := by
    cases noticed : s.noticed
    · rfl
    · have closing := reading.noticed noticed
      rw [connected] at closing
      cases closing
  unfold State.recvData
  split
  next none =>
    have empty : s.queue = [] := by simpa using none
    refine ⟨reading.registered, reading.isOpen, ?_, ?_, reading.decoded, ?_, nofun, reading.noHup, reading.fresh⟩
    · cases fin : s.fin
      · exact .inl connected
      · exact .inr ⟨rfl, rfl, empty, .inl rfl⟩
    · cases fin : s.fin <;> simp [unnoticed]
    · simp
  next some =>
    refine ⟨reading.registered, reading.isOpen, .inl connected, reading.noticed, ?_, ?_, ?_, reading.noHup, reading.fresh⟩
    · show decode [] (s.received ++ _) = decode (handledOf s.trace) (s.inBuf ++ _)
      rw [decode_append, decode_append, reading.decoded]
    · simp [at_recv]
    · simp [at_recv]

theorem Reading.parsePkt {handling : Handling} (reading : Reading s) (at_parse : s.pc = .parsePkt)
    (stays : .close ∉ handling.acts) (returns : handling.throws = false) : Kept (s.parsePkt handling) := by
  unfold State.parsePkt
  split
  next frame =>
    refine .inl ⟨reading.registered, reading.isOpen, ?_, reading.noticed, reading.decoded, fun _ _ => frame, nofun,
      reading.noHup, reading.fresh⟩
    rcases reading.socket with connected | ⟨closing, fin, empty, -⟩
    · exact .inl connected
    · exact .inr ⟨closing, fin, empty, .inr rfl⟩
  next frame =>
    have closed : s.close = { s with registered := false, isOpen := false, socket := .closing } :=
      if_pos reading.registered
    rw [closed]
    refine .inr ⟨rfl, rfl, .inl rfl, .refused reading.fresh ?_⟩
    show decode [] s.received = .stopped (handledOf s.trace, true)
    rw [reading.decoded, decode_malformed frame]
  next len frame =>
    have same : (s.record (.handled (receivedAt s.inBuf len) s.isOpen)).runActs handling.acts =
        s.record (.handled (receivedAt s.inBuf len) s.isOpen) := runActs_undisturbed reading.isOpen stays
    rw [same, returns]
    have registered : (s.record (.handled (receivedAt s.inBuf len) s.isOpen)).registered = true := reading.registered
    simp only [Bool.false_eq_true, if_false]
    rw [if_pos registered]
    refine .inl ⟨reading.registered, reading.isOpen, reading.socket, reading.noticed, ?_, ?_, ?_, reading.noHup, ?_⟩
    · show decode [] s.received = decode (handledOf (s.trace ++ [_])) (s.inBuf.drop len.toNat)
      rw [reading.decoded, decode_packet frame, handledOf_append]
      rfl
    · exact fun _ off => absurd at_parse off
    · simp [State.record, at_parse]
    · simpa [State.record] using reading.fresh

theorem Reading.advance (reading : Reading s) (stays : .close ∉ answer.handling.acts)
    (returns : answer.handling.throws = false) : Kept (s.advance answer) := by
  cases at_pc : s.pc with
  | idle =>
    simp only [State.advance, at_pc]
    exact .inl reading
  | onRead => exact reading.onRead at_pc
  | recvData =>
    simp only [State.advance, at_pc]
    exact .inl (reading.recvData at_pc)
  | parsePkt =>
    simp only [State.advance, at_pc]
    exact reading.parsePkt at_pc stays returns
  | readDone =>
    have frame := reading.parsed (by simp [at_pc]) (by simp [at_pc])
    simp only [State.advance, at_pc]
    rcases reading.socket with connected | ⟨closing, fin, empty, -⟩
    · have going : s.socket ≠ .peerClosing := by simp [connected]
      rw [if_neg going]
      exact .inl (reading.onward connected frame (by simp) reading.noHup rfl reading.fresh)
    · rw [if_pos closing]
      exact .inr (reading.callClose frame empty fin rfl)
  | onWrite =>
    have frame := reading.parsed (by simp [at_pc]) (by simp [at_pc])
    have connected := reading.not_finishing (by simp [at_pc]) (by simp [at_pc])
    simp only [State.advance, at_pc, State.socketOnWrite, connected]
    split
    · refine .inl (reading.onward connected frame (by simp) reading.noHup ?_ ?_)
      · simp [handledOf]
      · simpa using reading.fresh
    · exact .inl (reading.onward connected frame (by simp) reading.noHup rfl reading.fresh)
  | onClose =>
    have frame := reading.parsed (by simp [at_pc]) (by simp [at_pc])
    have connected := reading.not_finishing (by simp [at_pc]) (by simp [at_pc])
    have noHup : ¬ s.entry.hup = true := by simp [reading.noHup]
    simp only [State.advance, at_pc, if_neg noHup]
    exact .inl (reading.onward connected frame (by simp) reading.noHup rfl reading.fresh)

/-- A closed connection gets no more events. -/
theorem Ended.advance_eq (ended : Ended s) (answer : Answer) :
    ∃ pc, s.advance answer = { s with pc } ∧ (pc = .onWrite ∨ pc = .onClose ∨ pc = .idle) := by
  have socket := ended.socket
  rcases ended.pc with at_pc | at_pc | at_pc | at_pc
  · exact ⟨.onWrite, by simp [State.advance, at_pc, socket], .inl rfl⟩
  · exact ⟨.onClose, by simp [State.advance, at_pc, socket, State.socketOnWrite], .inr (.inl rfl)⟩
  · exact ⟨.idle, by simp [State.advance, at_pc, socket, State.socketOnClose], .inr (.inr rfl)⟩
  · have same : s.advance answer = s := by simp [State.advance, at_pc]
    exact ⟨s.pc, same, .inr (.inr at_pc)⟩

theorem How.congr (how : How s) (trace : t.trace = s.trace) (received : t.received = s.received)
    (after : s.fin = true → t.queue = s.queue ∧ t.fin = true) : How t := by
  cases how with
  | refused fresh decoded =>
    apply How.refused
    · rw [trace]
      exact fresh
    · rw [trace, received]
      exact decoded
  | peer before rest is fresh decoded empty fin =>
    obtain ⟨queue, fin⟩ := after fin
    apply How.peer before rest _ fresh _ (queue.trans empty) fin
    · rw [trace, is]
    · rw [trace, received]
      exact decoded

theorem Reading.exec (reading : Reading s) (step : Step) (undisturbed : step.Undisturbed s) : Kept (step.exec s) := by
  cases step with
  | arrive bytes =>
    simp only [Step.exec]
    split
    next => exact .inl reading
    next going =>
      refine .inl ⟨reading.registered, reading.isOpen, ?_, reading.noticed, reading.decoded, reading.parsed, ?_,
        reading.noHup, reading.fresh⟩
      · exact reading.socket.imp_right fun ended => absurd ended.2.1 going
      · intro at_read
        rcases reading.reported at_read with some | fin
        · exact .inl (List.append_ne_nil_of_left_ne_nil some bytes)
        · exact .inr fin
  | fin =>
    refine .inl ⟨reading.registered, reading.isOpen, ?_, reading.noticed, reading.decoded, reading.parsed,
      fun _ => .inr rfl, reading.noHup, reading.fresh⟩
    exact reading.socket.imp_right fun ended => ⟨ended.1, rfl, ended.2.2⟩
  | report entry =>
    simp only [Step.exec]
    split
    next enabled =>
      obtain ⟨idle, -⟩ := enabled
      have frame := reading.parsed (by simp [idle]) (by simp [idle])
      have connected := reading.not_finishing (by simp [idle]) (by simp [idle])
      refine .inl (reading.onward connected frame (fun at_read => ?_) undisturbed.1 rfl reading.fresh)
      apply undisturbed.2
      cases input : entry.input
      · simp [input] at at_read
      · rfl
    next => exact .inl reading
  | advance answer => exact reading.advance undisturbed.1 undisturbed.2
  | close => exact undisturbed.elim

theorem Ended.exec (ended : Ended s) (step : Step) (undisturbed : step.Undisturbed s) : Ended (step.exec s) := by
  obtain ⟨gone, socket, pc, how⟩ := ended
  cases step with
  | arrive bytes =>
    simp only [Step.exec]
    split
    next => exact ⟨gone, socket, pc, how⟩
    next going => exact ⟨gone, socket, pc, how.congr rfl rfl fun fin => absurd fin going⟩
  | fin => exact ⟨gone, socket, pc, how.congr rfl rfl fun _ => ⟨rfl, rfl⟩⟩
  | report entry =>
    have off : ¬ (s.pc = .idle ∧ s.registered = true) := by simp [gone]
    rw [Step.exec, if_neg off]
    exact ⟨gone, socket, pc, how⟩
  | advance answer =>
    obtain ⟨next, is, later⟩ := Ended.advance_eq ⟨gone, socket, pc, how⟩ answer
    rw [Step.exec, is]
    exact ⟨gone, socket, .inr later, how.congr rfl rfl fun fin => ⟨rfl, fin⟩⟩
  | close => exact undisturbed.elim

/-- **A step** of an undisturbed connection. -/
theorem Kept.exec (kept : Kept s) (step : Step) (undisturbed : step.Undisturbed s) : Kept (step.exec s) := by
  rcases kept with reading | ended
  · exact reading.exec step undisturbed
  · exact .inr (ended.exec step undisturbed)

/-! ## The end of the stream -/

theorem due_eq (stream : List UInt8) : due stream = (decode [] stream).state := rfl

theorem Reading.due_sent (reading : Reading s) :
    due s.sent = (decode (handledOf s.trace) (s.inBuf ++ s.queue)).state := by
  rw [due_eq, State.sent, decode_append, reading.decoded, ← decode_append]

theorem How.due_sent (how : How s) : (due s.sent).1 = handledOf s.trace := by
  cases how with
  | refused fresh decoded =>
    rw [due_eq, State.sent, decode_append, decoded]
    rfl
  | peer before rest is fresh decoded empty fin =>
    rw [due_eq, State.sent, empty, List.append_nil, decoded]
    rfl

/-- `recv` finds nothing before `OnRead` goes on. -/
theorem queue_of_advance (may : s.MayRecv) (answer : Answer) (done : ¬ (s.advance answer).MayRecv) : s.queue = [] := by
  by_contra some
  have some : ¬ s.queue.isEmpty = true := by simpa using some
  apply done
  rcases may with at_read | at_recv
  · right
    simp only [State.advance, at_read, if_neg some]
  · right
    simp only [State.advance, at_recv, State.recvData, if_neg some]

/-- How many steps `OnRead` still takes while nothing arrives: a `recv` moves bytes into the buffer, and a round of
`_ParsePkt` takes a packet out of it. -/
def State.left (s : State) : Nat :=
  match s.pc with
  | .onRead => 2 * s.queue.length + s.inBuf.length + 4
  | .recvData => 2 * s.queue.length + s.inBuf.length + 3
  | .parsePkt => s.inBuf.length + 2
  | .readDone => 1
  | _ => 0

theorem State.left_eq_zero (none : s.left = 0) : ¬ s.MayRecv ∧ ¬ s.Finishing := by
  constructor
  · rintro (at_read | at_recv)
    · simp only [left, at_read] at none
      omega
    · simp only [left, at_recv] at none
      omega
  · rintro (at_parse | at_done)
    · simp only [left, at_parse] at none
      omega
    · simp only [left, at_done] at none
      omega

theorem runActs_keeps (s : State) (acts : List Act) : (s.runActs acts).inBuf = s.inBuf ∧ (s.runActs acts).pc = s.pc := by
  induction acts generalizing s with
  | nil => exact ⟨rfl, rfl⟩
  | cons act acts ih =>
    cases act with
    | reply =>
      simp only [State.runActs]
      split
      · exact ih s
      · exact ih (s.record .dropped)
    | close =>
      obtain ⟨inBuf, pc⟩ := ih s.close
      exact ⟨inBuf.trans s.close_inBuf, pc.trans s.close_pc⟩

theorem parsePkt_left (at_parse : s.pc = .parsePkt) (handling : Handling) : (s.parsePkt handling).left + 1 ≤ s.left := by
  have before : s.left = s.inBuf.length + 2 := by simp only [State.left, at_parse]
  rw [before]
  unfold State.parsePkt
  split
  next => simp [State.left]
  next => simp [State.left]
  next len frame =>
    obtain ⟨header, inside, -⟩ := le_of_frameAt frame
    obtain ⟨inBuf, pc⟩ := runActs_keeps (s.record (.handled (receivedAt s.inBuf len) s.isOpen)) handling.acts
    have same : (s.record (.handled (receivedAt s.inBuf len) s.isOpen)).pc = .parsePkt := at_parse
    have size : (s.record (.handled (receivedAt s.inBuf len) s.isOpen)).inBuf = s.inBuf := rfl
    dsimp only
    split
    next => simp [State.left]
    next =>
      split
      next =>
        simp only [State.left, pc, same, inBuf, size, List.length_drop]
        omega
      next => simp [State.left]

theorem recvData_left (at_recv : s.pc = .recvData) : s.recvData.left + 1 ≤ s.left := by
  unfold State.recvData
  split
  next =>
    simp only [State.left, at_recv]
    omega
  next some =>
    have length := List.length_pos_iff.mpr (mt List.isEmpty_iff.mpr some)
    have size : kReadBufSize.toNat = 2048 := rfl
    simp only [State.left, at_recv, List.length_append, List.length_take, List.length_drop]
    omega

theorem advance_left (s : State) (answer : Answer) : (s.advance answer).left ≤ s.left - 1 := by
  cases at_pc : s.pc with
  | idle => simp [State.advance, at_pc, State.left]
  | onRead =>
    simp only [State.advance, at_pc]
    split
    · simp [State.left]
    · simp only [State.left, State.record, at_pc]
      omega
  | recvData =>
    have less := recvData_left at_pc
    simp only [State.advance, at_pc]
    omega
  | parsePkt =>
    have less := parsePkt_left at_pc answer.handling
    simp only [State.advance, at_pc]
    omega
  | readDone => simp [State.advance, at_pc, State.left]
  | onWrite => simp [State.advance, at_pc, State.left]
  | onClose => simp [State.advance, at_pc, State.left]

/-- The loops of `_RecvData` and `_ParsePkt` end, and `OnRead` with them. -/
theorem onRead_ends (answers : List Answer) (enough : s.left ≤ answers.length) :
    ¬ (Lib.run State.advance s answers).MayRecv ∧ ¬ (Lib.run State.advance s answers).Finishing := by
  induction answers generalizing s with
  | nil => exact State.left_eq_zero (Nat.le_zero.mp enough)
  | cons answer answers ih =>
    have less := advance_left s answer
    rw [List.length_cons] at enough
    rw [Lib.run_cons]
    apply ih
    omega

theorem State.left_le (s : State) : s.left ≤ 2 * s.queue.length + s.inBuf.length + 4 := by
  unfold left
  split <;> omega

theorem State.Finishing.left_le (finishing : s.Finishing) : s.left ≤ s.inBuf.length + 2 := by
  rcases finishing with at_pc | at_pc
  · simp [left, at_pc]
  · simp [left, at_pc]

theorem Reading.toDrained (reading : Reading s) : Drained s := by
  have unfinished (noticed : s.noticed = true) : s.Finishing := by
    rcases reading.socket with connected | ⟨-, -, -, finishing⟩
    · have closing := reading.noticed noticed
      rw [connected] at closing
      cases closing
    · exact finishing
  refine ⟨?_, fun before after is => ?_, fun rest => ?_, fun noticed _ off => ?_, fun noticed answers enough => ?_,
    queue_of_advance, fun answers enough => onRead_ends answers (Nat.le_trans s.left_le enough), fun off done => ?_⟩
  · rw [reading.due_sent]
    exact seen_prefix_decode _ _
  · exact absurd (is ▸ List.mem_append_right before List.mem_cons_self) reading.fresh
  · obtain ⟨queue, pc⟩ := rest.resolve_left (by simp [reading.registered])
    simp only [List.mem_cons, List.not_mem_nil, or_false, not_or] at pc
    rw [reading.due_sent, queue, List.append_nil, decode_incomplete (reading.parsed pc.2.1 pc.2.2)]
    rfl
  · exact absurd (unfinished noticed) off
  · exact (onRead_ends answers (Nat.le_trans (unfinished noticed).left_le enough)).2
  · rw [due_eq, reading.decoded, decode_incomplete (reading.parsed off done)]
    rfl

/-- `CLOSE` is the last event there is. -/
theorem How.beforeClose {before after : List Event} (how : How s) (is : s.trace = before ++ .close :: after) :
    handledOf s.trace = handledOf before ∧ s.fin = true := by
  cases how with
  | refused fresh _ => exact absurd (is ▸ List.mem_append_right before List.mem_cons_self) fresh
  | peer first rest trace fresh _ _ fin =>
    have last : after = [] := by
      rcases List.eq_nil_or_concat after with none | ⟨earlier, event, rfl⟩
      · exact none
      · rw [trace, List.concat_eq_append, ← List.cons_append, ← List.append_assoc] at is
        exact absurd ((List.append_inj' is rfl).1 ▸ List.mem_append_right before List.mem_cons_self) fresh
    rw [last] at is
    refine ⟨?_, fin⟩
    simp [is, handledOf]

theorem How.closedOnce (how : How s) (clean : (due s.sent).2 = false) : s.trace.count .close = 1 := by
  cases how with
  | refused fresh decoded =>
    rw [due_eq, State.sent, decode_append, decoded] at clean
    cases clean
  | peer before rest trace fresh _ _ _ =>
    rw [trace, List.count_append, List.count_eq_zero_of_not_mem fresh]
    rfl

theorem How.due_received (how : How s) : (due s.received).1 = handledOf s.trace := by
  cases how with
  | refused fresh decoded =>
    rw [due_eq, decoded]
    rfl
  | peer before rest is fresh decoded empty fin =>
    rw [due_eq, decoded]
    rfl

theorem Ended.left_le (ended : Ended s) : s.left ≤ 1 := by
  rcases ended.pc with at_pc | at_pc | at_pc | at_pc <;> simp [State.left, at_pc]

theorem Ended.toDrained (ended : Ended s) : Drained s := by
  have all := ended.how.due_sent
  refine ⟨all ▸ List.prefix_rfl, fun before after is => ?_, fun _ => all.symm, fun noticed clean _ => ?_,
    fun _ answers enough => ?_, queue_of_advance, fun answers enough => onRead_ends answers (Nat.le_trans s.left_le enough),
    fun _ _ => ended.how.due_received.symm⟩
  · obtain ⟨same, fin⟩ := ended.how.beforeClose is
    exact ⟨same, same.symm.trans all.symm, fin⟩
  · exact ended.how.closedOnce clean
  · have less := ended.left_le
    exact (onRead_ends answers (by omega)).2

/-- **No packet is lost when the peer closes.** -/
theorem drained (steps : List Step)
    (undisturbed : Lib.Along Step.exec (fun s step => step.Undisturbed s) .connected steps) :
    Drained (Lib.run Step.exec .connected steps) := by
  have start : Kept .connected :=
    .inl ⟨rfl, rfl, .inl rfl, nofun, rfl, fun _ _ => rfl, nofun, rfl, List.not_mem_nil⟩
  have kept : Kept (Lib.run Step.exec .connected steps) :=
    Lib.run_inv_along (fun s step kept undisturbed => kept.exec step undisturbed) start undisturbed
  rcases kept with reading | ended
  · exact reading.toDrained
  · exact ended.toDrained

/-- A heartbeat arrives after `FIONREAD` has found its first bytes, and the FIN before `recv` blocks. -/
theorem drained_finInside :
    Drained (Lib.run Step.exec .connected
      [.arrive [0, 0, 0, 16, 0, 1], .report ⟨true, false, false⟩, .advance ⟨false, false, ⟨[], false⟩⟩,
        .arrive [0, 0, 0, 0, 0, 1, 0, 0, 0, 0], .advance ⟨false, false, ⟨[], false⟩⟩, .fin,
        .advance ⟨false, false, ⟨[], false⟩⟩, .advance ⟨false, false, ⟨[.reply], false⟩⟩]) :=
  drained _ ⟨trivial, ⟨rfl, fun _ => .inl (by decide)⟩, ⟨by decide, rfl⟩, trivial, ⟨by decide, rfl⟩, trivial,
    ⟨by decide, rfl⟩, ⟨by decide, rfl⟩, trivial⟩

end Netter.Dispatch
