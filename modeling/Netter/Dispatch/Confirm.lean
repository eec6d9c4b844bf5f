import Netter.Dispatch.Model

/-!
# A connection is confirmed before it reads

`OnRead` does not look at the state of the socket, and it is dispatched before `OnWrite`, which alone
confirms a connection. So a connection that is still connecting reads as soon as bytes are reported
together with the end of the handshake. What else is promised about the time before `CONFIRM` fails
only with this.
-/

namespace Netter.Dispatch

open PktBase BaseConn

/-- What is promised of a connection that is opened with `Connect`. -/
structure Confirmed (trace : List Event) : Prop where
  readLater : ∀ before after, trace = before ++ .read :: after → .confirm ∈ before
  handledOpen : ∀ pkt, .handled pkt false ∉ trace
  notDropped : .dropped ∉ trace

/-- `OnRead` does not come to readable bytes while the socket is connecting. -/
def Step.MeetsRead (s : State) (step : Step) : Prop :=
  ∀ answer, step = .advance answer → s.pc = .onRead → s.queue ≠ [] → s.socket ≠ .connecting

variable {s t : State} {trace more : List Event} {event : Event} {acts : List Act} {answer : Answer}

theorem Confirmed.of_append (confirmed : Confirmed (trace ++ more)) : Confirmed trace := by
  refine ⟨fun before after is => ?_, fun pkt member => ?_, fun member => ?_⟩
  · apply confirmed.readLater before (after ++ more)
    rw [is, List.append_assoc, List.cons_append]
  · exact confirmed.handledOpen pkt (List.mem_append_left more member)
  · exact confirmed.notDropped (List.mem_append_left more member)

/-- An event that the promise is not about, or a `READ` behind the `CONFIRM`. -/
theorem Confirmed.concat (confirmed : Confirmed trace) (read : event = .read → .confirm ∈ trace)
    (handled : ∀ pkt, event ≠ .handled pkt false) (dropped : event ≠ .dropped) : Confirmed (trace ++ [event]) := by
  refine ⟨fun before after is => ?_, fun pkt member => ?_, fun member => ?_⟩
  · rcases List.eq_nil_or_concat after with rfl | ⟨earlier, last, rfl⟩
    · obtain ⟨same, is⟩ := List.append_inj' is rfl
      rw [← same]
      exact read (List.cons.inj is).1
    · rw [List.concat_eq_append, ← List.cons_append, ← List.append_assoc] at is
      exact confirmed.readLater before earlier (List.append_inj' is rfl).1
  · rcases List.mem_append.mp member with old | last
    · exact confirmed.handledOpen pkt old
    · exact handled pkt (List.mem_singleton.mp last).symm
  · rcases List.mem_append.mp member with old | last
    · exact confirmed.notDropped old
    · exact dropped (List.mem_singleton.mp last).symm

namespace State

@[simp] theorem record_trace (s : State) (event : Event) : (s.record event).trace = s.trace ++ [event] := rfl

@[simp] theorem close_trace (s : State) : s.close.trace = s.trace := by
  unfold close
  split <;> rfl

@[simp] theorem close_registered (s : State) : s.close.registered = false := by
  unfold close
  split
  next => rfl
  next gone => exact Bool.not_eq_true _ ▸ gone

@[simp] theorem close_pc (s : State) : s.close.pc = s.pc := by
  unfold close
  split <;> rfl

@[simp] theorem close_inBuf (s : State) : s.close.inBuf = s.inBuf := by
  unfold close
  split <;> rfl

@[simp] theorem callClose_trace (s : State) : s.callClose.trace = s.trace ++ [.close] := close_trace _

@[simp] theorem callClose_registered (s : State) : s.callClose.registered = false := close_registered _

theorem close_idle (gone : s.registered = false) : s.close = s := by
  unfold close
  rw [gone]
  rfl

theorem connecting_of_close (connecting : s.close.socket = .connecting) : s.socket = .connecting := by
  unfold close at connecting
  split at connecting
  · cases connecting
  · exact connecting

theorem runActs_trace (s : State) (acts : List Act) : s.trace <+: (s.runActs acts).trace := by
  induction acts generalizing s with
  | nil => exact List.prefix_rfl
  | cons act acts ih =>
    cases act with
    | reply =>
      refine List.IsPrefix.trans ?_ (ih _)
      split
      · exact List.prefix_rfl
      · exact List.prefix_append _ _
    | close => exact (s.close_trace ▸ List.prefix_rfl : s.trace <+: s.close.trace).trans (ih _)

theorem parsePkt_trace (s : State) (handling : Handling) : s.trace <+: (s.parsePkt handling).trace := by
  unfold parsePkt
  split
  next => exact List.prefix_rfl
  next => simp
  next len _ =>
    have called : s.trace <+: (s.record (.handled (receivedAt s.inBuf len) s.isOpen)).trace := List.prefix_append _ _
    have handled := called.trans (runActs_trace _ handling.acts)
    dsimp only
    split
    next => simpa using handled
    next => split <;> exact handled

theorem recvData_trace (s : State) : s.recvData.trace = s.trace := by
  unfold recvData
  split <;> rfl

theorem socketOnWrite_trace (s : State) (answer : Answer) : s.trace <+: (s.socketOnWrite answer).trace := by
  unfold socketOnWrite record
  split
  · split
    · simp
    · split <;> simp
  · simp
  · exact List.prefix_rfl

theorem socketOnClose_trace (s : State) : s.trace <+: s.socketOnClose.trace := by
  unfold socketOnClose
  split <;> simp

theorem advance_trace (s : State) (answer : Answer) : s.trace <+: (s.advance answer).trace := by
  unfold advance
  split
  next => exact List.prefix_rfl
  next => split <;> simp [record]
  next => exact s.recvData_trace ▸ List.prefix_rfl
  next => exact s.parsePkt_trace _
  next => dsimp only; split <;> simp
  next =>
    dsimp only
    split
    · exact s.socketOnWrite_trace _
    · exact List.prefix_rfl
  next =>
    dsimp only
    split
    · exact s.socketOnClose_trace
    · exact List.prefix_rfl

/-- The handler of an open connection drops nothing; what it changes is whether the connection is closed. -/
theorem runActs_open (acts : List Act) (isOpen : s.isOpen = true ∨ s.registered = false) :
    s.runActs acts = s ∨ s.runActs acts = s.close := by
  induction acts generalizing s with
  | nil => exact .inl rfl
  | cons act acts ih =>
    cases act with
    | reply =>
      have stays : (s.isOpen || !s.registered) = true := by
        rcases isOpen with opened | gone
        · rw [opened, Bool.true_or]
        · rw [gone, Bool.not_false, Bool.or_true]
      have head : s.runActs (.reply :: acts) = s.runActs acts := by
        rw [runActs, if_pos stays]
      rw [head]
      exact ih isOpen
    | close =>
      rcases ih (s := s.close) (.inr s.close_registered) with same | closed
      · exact .inr same
      · exact .inr (closed.trans (close_idle s.close_registered))

end State

/-! ## The invariant -/

/-- What is known about a socket before its connection is closed. -/
def Standing (s : State) : Prop :=
  s.socket = .connecting ∨ s.socket = .connected ∧ .confirm ∈ s.trace ∨
    s.socket = .peerClosing ∧ (s.pc = .parsePkt ∨ s.pc = .readDone)

structure Inv (s : State) : Prop where
  early : s.socket = .connecting → .confirm ∉ s.trace
  isOpen : s.registered = true → .confirm ∈ s.trace → s.isOpen = true
  standing : s.registered = true → Standing s
  reading : s.pc = .onRead ∨ s.pc = .recvData ∨ s.pc = .parsePkt → s.registered = true
  read : s.pc = .recvData ∨ s.pc = .parsePkt → .read ∈ s.trace

/-- The connection is closed. -/
theorem Inv.gone (gone : t.registered = false) (early : t.socket = .connecting → .confirm ∉ t.trace)
    (pc : t.pc = .readDone ∨ t.pc = .onWrite ∨ t.pc = .onClose ∨ t.pc = .idle) : Inv t := by
  refine ⟨early, fun registered => ?_, fun registered => ?_, fun reading => ?_, fun reading => ?_⟩
  · rw [gone] at registered
    cases registered
  · rw [gone] at registered
    cases registered
  · rcases pc with is | is | is | is <;> rw [is] at reading <;> simp at reading
  · rcases pc with is | is | is | is <;> rw [is] at reading <;> simp at reading

/-- A step that is not one of `OnRead` or of the kernel. -/
theorem Inv.goOn {pc : Pc} {entry : Entry} (inv : Inv s) (still : s.pc ≠ .parsePkt)
    (after : s.pc = .readDone → s.socket ≠ .peerClosing)
    (registered : pc = .onRead → s.registered = true) (later : pc ≠ .recvData ∧ pc ≠ .parsePkt) :
    Inv { s with pc, entry } := by
  refine ⟨inv.early, inv.isOpen, fun there => ?_, fun reading => ?_, fun reading => ?_⟩
  · rcases inv.standing there with connecting | connected | ⟨closing, at_parse | at_done⟩
    · exact .inl connecting
    · exact .inr (.inl connected)
    · exact absurd at_parse still
    · exact absurd closing (after at_done)
  · rcases reading with is | is | is
    · exact registered is
    · exact absurd is later.1
    · exact absurd is later.2
  · rcases reading with is | is
    · exact absurd is later.1
    · exact absurd is later.2

/-! ## What a step does -/

/-- After `CLOSE`, where `OnRead`, `OnWrite` or `OnClose` goes on. -/
theorem callClose_keeps {pc : Pc} {noticed : Bool} (early : s.socket = .connecting → .confirm ∉ s.trace)
    (confirmed : Confirmed s.trace) (behind : pc = .onWrite ∨ pc = .onClose ∨ pc = .idle) :
    Inv { s.callClose with pc, noticed } ∧ Confirmed s.callClose.trace := by
  refine ⟨Inv.gone s.callClose_registered (fun connecting => ?_) (.inr behind), ?_⟩
  · simpa using early (State.connecting_of_close (s := s.record .close) connecting)
  · rw [State.callClose_trace]
    exact confirmed.concat nofun nofun nofun

/-- `OnRead` before the loop of `_RecvData`. -/
theorem onRead_keeps (inv : Inv s) (confirmed : Confirmed s.trace) (at_read : s.pc = .onRead)
    (meets : s.queue ≠ [] → s.socket ≠ .connecting) :
    Inv (s.advance answer) ∧ Confirmed (s.advance answer).trace := by
  simp only [State.advance, at_read]
  split
  next => exact callClose_keeps inv.early confirmed (.inl rfl)
  next some =>
    have registered := inv.reading (.inl at_read)
    have connected : s.socket = .connected ∧ .confirm ∈ s.trace := by
      rcases inv.standing registered with connecting | connected | ⟨-, at_parse | at_done⟩
      · exact absurd connecting (meets (by simpa using some))
      · exact connected
      · rw [at_read] at at_parse
        cases at_parse
      · rw [at_read] at at_done
        cases at_done
    have still : .confirm ∈ s.trace ++ [.read] := List.mem_append_left _ connected.2
    refine ⟨⟨fun connecting => ?_, fun _ _ => ?_, fun _ => ?_, fun _ => registered, fun _ => ?_⟩, ?_⟩
    · rw [show s.socket = .connecting from connecting] at connected
      cases connected.1
    · exact inv.isOpen registered connected.2
    · exact .inr (.inl ⟨connected.1, still⟩)
    · exact List.mem_append_right _ (List.mem_singleton_self _)
    · exact confirmed.concat (fun _ => connected.2) nofun nofun

/-- In the loop of `_RecvData`. -/
theorem recvData_keeps (inv : Inv s) (at_recv : s.pc = .recvData) :
    Inv s.recvData ∧ s.recvData.trace = s.trace := by
  have registered := inv.reading (.inr (.inl at_recv))
  have read := inv.read (.inl at_recv)
  have standing : s.socket = .connecting ∨ s.socket = .connected ∧ .confirm ∈ s.trace := by
    rcases inv.standing registered with connecting | connected | ⟨-, at_parse | at_done⟩
    · exact .inl connecting
    · exact .inr connected
    · rw [at_recv] at at_parse
      cases at_parse
    · rw [at_recv] at at_done
      cases at_done
  unfold State.recvData
  split
  next =>
    refine ⟨⟨fun connecting => ?_, inv.isOpen, fun _ => ?_, fun _ => registered, fun _ => read⟩, rfl⟩
    · cases fin : s.fin <;> simp only [fin, if_true, Bool.false_eq_true, if_false] at connecting
      · exact inv.early connecting
      · cases connecting
    · cases fin : s.fin
      · exact standing.imp_right .inl
      · exact .inr (.inr ⟨rfl, .inl rfl⟩)
  next =>
    refine ⟨⟨inv.early, inv.isOpen, fun _ => standing.imp_right .inl, fun _ => registered, fun _ => read⟩, rfl⟩

/-- In the parse loop of an open connection, and at its end. -/
structure Parsing (s : State) : Prop where
  socket : s.socket ≠ .connecting
  standing : s.registered = true → s.socket = .connected ∨ s.socket = .peerClosing
  isOpen : s.registered = true → s.isOpen = true
  confirm : .confirm ∈ s.trace
  read : .read ∈ s.trace

theorem Parsing.close (parsing : Parsing s) : Parsing s.close := by
  have gone := s.close_registered
  refine ⟨fun connecting => ?_, fun registered => ?_, fun registered => ?_, ?_, ?_⟩
  · exact parsing.socket (State.connecting_of_close connecting)
  · rw [gone] at registered
    cases registered
  · rw [gone] at registered
    cases registered
  · simpa using parsing.confirm
  · simpa using parsing.read

theorem Parsing.inv {pc : Pc} (parsing : Parsing s) (at_loop : pc = .readDone ∨ pc = .parsePkt ∧ s.registered = true) :
    Inv { s with pc } := by
  refine ⟨fun connecting => ?_, fun registered _ => ?_, fun registered => ?_, fun reading => ?_, fun _ => ?_⟩
  · exact absurd connecting parsing.socket
  · exact parsing.isOpen registered
  · rcases parsing.standing registered with connected | closing
    · exact .inr (.inl ⟨connected, parsing.confirm⟩)
    · exact .inr (.inr ⟨closing, at_loop.symm.imp_left And.left⟩)
  · rcases at_loop with rfl | ⟨-, registered⟩
    · simp at reading
    · exact registered
  · exact parsing.read

theorem Inv.parsing (inv : Inv s) (confirmed : Confirmed s.trace) (at_parse : s.pc = .parsePkt) : Parsing s := by
  have registered := inv.reading (.inr (.inr at_parse))
  have read := inv.read (.inr at_parse)
  obtain ⟨before, after, is⟩ := List.append_of_mem read
  have confirm : .confirm ∈ s.trace := by
    rw [is]
    exact List.mem_append_left _ (confirmed.readLater before after is)
  refine ⟨fun connecting => inv.early connecting confirm, fun _ => ?_, fun _ => inv.isOpen registered confirm, confirm, read⟩
  rcases inv.standing registered with connecting | connected | closing
  · exact absurd confirm (inv.early connecting)
  · exact .inl connected.1
  · exact .inr closing.1

/-- The handler closes the connection, or it does not change it. -/
theorem Parsing.runActs (parsing : Parsing s) (isOpen : s.isOpen = true) (acts : List Act) :
    Parsing (s.runActs acts) ∧ (s.runActs acts).trace = s.trace ∧ (s.runActs acts).pc = s.pc := by
  rcases State.runActs_open acts (.inl isOpen) with same | closed
  · rw [same]
    exact ⟨parsing, rfl, rfl⟩
  · rw [closed]
    exact ⟨parsing.close, s.close_trace, s.close_pc⟩

/-- A round of the parse loop, whatever the handler does. -/
theorem parsePkt_keeps {handling : Handling} (inv : Inv s) (confirmed : Confirmed s.trace)
    (at_parse : s.pc = .parsePkt) :
    Inv (s.parsePkt handling) ∧ Confirmed (s.parsePkt handling).trace := by
  have parsing := inv.parsing confirmed at_parse
  have isOpen := parsing.isOpen (inv.reading (.inr (.inr at_parse)))
  unfold State.parsePkt
  split
  next => exact ⟨parsing.inv (.inl rfl), confirmed⟩
  next => exact ⟨parsing.close.inv (.inl rfl), by simpa using confirmed⟩
  next len frame =>
    rw [isOpen]
    have called : Parsing (s.record (.handled (receivedAt s.inBuf len) true)) := by
      refine ⟨parsing.socket, parsing.standing, parsing.isOpen, ?_, ?_⟩
      · exact List.mem_append_left _ parsing.confirm
      · exact List.mem_append_left _ parsing.read
    have fine : Confirmed (s.record (.handled (receivedAt s.inBuf len) true)).trace := by
      apply confirmed.concat <;> simp
    obtain ⟨still, trace, pc⟩ := called.runActs isOpen handling.acts
    rw [← trace] at fine
    dsimp only
    split
    next => exact ⟨still.close.inv (.inl rfl), by simpa using fine⟩
    next =>
      split
      next on =>
        have next := still.inv (.inr ⟨rfl, on⟩)
        rw [← pc.trans at_parse] at next
        exact ⟨⟨next.early, next.isOpen, next.standing, next.reading, next.read⟩, fine⟩
      next =>
        have next := still.inv (.inl rfl)
        exact ⟨⟨next.early, next.isOpen, next.standing, next.reading, next.read⟩, fine⟩

/-- Where the loop looks at `EPOLLOUT`. -/
theorem socketOnWrite_keeps (inv : Inv s) (confirmed : Confirmed s.trace) (at_write : s.pc = .onWrite) :
    Inv { s.socketOnWrite answer with pc := .onClose } ∧ Confirmed (s.socketOnWrite answer).trace := by
  have onward : Inv { s with pc := .onClose } := inv.goOn (by simp [at_write]) (by simp [at_write]) nofun (by simp)
  unfold State.socketOnWrite
  split
  next connecting =>
    split
    next => exact callClose_keeps inv.early confirmed (.inr (.inl rfl))
    next =>
      split
      next => exact callClose_keeps (s := { s with socket := .closing }) nofun confirmed (.inr (.inl rfl))
      next =>
        have now : .confirm ∈ s.trace ++ [.confirm] := List.mem_append_right _ (List.mem_singleton_self _)
        refine ⟨⟨nofun, fun _ _ => rfl, fun _ => .inr (.inl ⟨rfl, now⟩), ?_, ?_⟩, ?_⟩
        · simp
        · simp
        · exact confirmed.concat nofun nofun nofun
  next connected =>
    refine ⟨⟨fun connecting => ?_, fun registered confirm => ?_, fun registered => ?_, ?_, ?_⟩, ?_⟩
    · rw [show s.socket = .connecting from connecting] at connected
      cases connected
    · simp only [State.record, List.mem_append, List.mem_singleton, reduceCtorEq, or_false] at confirm
      exact inv.isOpen registered confirm
    · rcases onward.standing registered with connecting | ⟨same, confirm⟩ | closing
      · exact .inl connecting
      · exact .inr (.inl ⟨same, List.mem_append_left _ confirm⟩)
      · exact .inr (.inr closing)
    · simp
    · simp
    · exact confirmed.concat nofun nofun nofun
  next => exact ⟨onward, confirmed⟩

/-- Where the loop looks at the last bits. -/
theorem socketOnClose_keeps (inv : Inv s) (confirmed : Confirmed s.trace) (at_close : s.pc = .onClose) :
    Inv { s.socketOnClose with pc := .idle } ∧ Confirmed s.socketOnClose.trace := by
  unfold State.socketOnClose
  split
  next => exact ⟨inv.goOn (by simp [at_close]) (by simp [at_close]) nofun (by simp), confirmed⟩
  next => exact callClose_keeps (s := { s with socket := .closing }) nofun confirmed (.inr (.inr rfl))

/-- **A step of the loop** that does not read too early. -/
theorem advance_keeps (inv : Inv s) (confirmed : Confirmed s.trace) (meets : (Step.advance answer).MeetsRead s) :
    Inv (s.advance answer) ∧ Confirmed (s.advance answer).trace := by
  cases at_pc : s.pc with
  | idle =>
    simp only [State.advance, at_pc]
    exact ⟨inv, confirmed⟩
  | onRead => exact onRead_keeps inv confirmed at_pc (meets answer rfl at_pc)
  | recvData =>
    simp only [State.advance, at_pc]
    obtain ⟨kept, same⟩ := recvData_keeps inv at_pc
    exact ⟨kept, same ▸ confirmed⟩
  | parsePkt =>
    simp only [State.advance, at_pc]
    exact parsePkt_keeps inv confirmed at_pc
  | readDone =>
    simp only [State.advance, at_pc]
    split
    next => exact callClose_keeps inv.early confirmed (.inl rfl)
    next going => exact ⟨inv.goOn (by simp [at_pc]) (fun _ => going) nofun (by simp), confirmed⟩
  | onWrite =>
    simp only [State.advance, at_pc]
    split
    next => exact socketOnWrite_keeps inv confirmed at_pc
    next => exact ⟨inv.goOn (by simp [at_pc]) (by simp [at_pc]) nofun (by simp), confirmed⟩
  | onClose =>
    simp only [State.advance, at_pc]
    split
    next => exact socketOnClose_keeps inv confirmed at_pc
    next => exact ⟨inv.goOn (by simp [at_pc]) (by simp [at_pc]) nofun (by simp), confirmed⟩

theorem Step.exec_keeps (inv : Inv s) (confirmed : Confirmed s.trace) {step : Step} (meets : step.MeetsRead s) :
    Inv (step.exec s) ∧ Confirmed (step.exec s).trace := by
  cases step with
  | arrive bytes =>
    simp only [Step.exec]
    split
    · exact ⟨inv, confirmed⟩
    · exact ⟨⟨inv.early, inv.isOpen, inv.standing, inv.reading, inv.read⟩, confirmed⟩
  | fin => exact ⟨⟨inv.early, inv.isOpen, inv.standing, inv.reading, inv.read⟩, confirmed⟩
  | report entry =>
    simp only [Step.exec]
    split
    next enabled =>
      obtain ⟨idle, registered⟩ := enabled
      refine ⟨inv.goOn (by simp [idle]) (by simp [idle]) (fun _ => registered) ?_, confirmed⟩
      split <;> simp
    next => exact ⟨inv, confirmed⟩
  | advance answer => exact advance_keeps inv confirmed meets
  | close =>
    simp only [Step.exec]
    split
    next idle =>
      refine ⟨Inv.gone s.close_registered (fun connecting => ?_) (by simp [idle]), by simpa using confirmed⟩
      simpa using inv.early (State.connecting_of_close connecting)
    next => exact ⟨inv, confirmed⟩

/-- A `READ` of a socket that is still connecting has no `CONFIRM` before it. -/
theorem Step.exec_misses (inv : Inv s) {step : Step} (misses : ¬ step.MeetsRead s) : ¬ Confirmed (step.exec s).trace := by
  unfold MeetsRead at misses
  push Not at misses
  obtain ⟨answer, rfl, at_read, some, connecting⟩ := misses
  intro confirmed
  apply inv.early connecting
  apply confirmed.readLater s.trace []
  simp [Step.exec, State.advance, at_read, some, State.record]

theorem Step.trace_prefix (s : State) (step : Step) : s.trace <+: (step.exec s).trace := by
  cases step with
  | arrive bytes =>
    simp only [Step.exec]
    split <;> exact List.prefix_rfl
  | fin => exact List.prefix_rfl
  | report entry =>
    simp only [Step.exec]
    split <;> exact List.prefix_rfl
  | advance answer => exact s.advance_trace answer
  | close =>
    simp only [Step.exec]
    split <;> simp

/-- **A connection is confirmed before it receives data** if and only if `OnRead` does not come to
readable bytes before `OnWrite` has come to the end of the handshake. -/
theorem confirmed_iff (steps : List Step) :
    Confirmed (Lib.run Step.exec .connecting steps).trace ↔
      Lib.Along Step.exec (fun s step => step.MeetsRead s) .connecting steps := by
  have start : Inv .connecting := by
    refine ⟨fun _ => ?_, fun _ => ?_, fun _ => .inl rfl, fun _ => rfl, ?_⟩ <;> simp [State.connecting, State.start]
  have good : Confirmed State.connecting.trace := by
    refine ⟨fun before after is => ?_, fun _ => ?_, ?_⟩
    · exact absurd is.symm (List.append_ne_nil_of_right_ne_nil before (List.cons_ne_nil _ after))
    · exact List.not_mem_nil
    · exact List.not_mem_nil
  apply Lib.run_iff_along (I := Inv) (P := fun s => Confirmed s.trace) _ _ _ start good
  · intro s step inv confirmed meets
    exact Step.exec_keeps inv confirmed meets
  · intro s step inv _ misses
    exact Step.exec_misses inv misses
  · intro s step bad confirmed
    obtain ⟨more, is⟩ := step.trace_prefix s
    exact bad (Confirmed.of_append (is ▸ confirmed))

/-- The server speaks first: a heartbeat arrives together with the end of the handshake, and the first
mask has `EPOLLIN` and `EPOLLOUT`. The packet is handled and the reply dropped before `CONFIRM`. -/
theorem confirmed_serverFirst :
    ¬ Confirmed (Lib.run Step.exec .connecting
      [.arrive [0, 0, 0, 16, 0, 1, 0, 0, 0, 0, 0, 1, 0, 0, 0, 0], .report ⟨true, true, false⟩,
        .advance ⟨false, false, ⟨[.reply], false⟩⟩, .advance ⟨false, false, ⟨[.reply], false⟩⟩,
        .advance ⟨false, false, ⟨[.reply], false⟩⟩, .advance ⟨false, false, ⟨[.reply], false⟩⟩,
        .advance ⟨false, false, ⟨[.reply], false⟩⟩, .advance ⟨false, false, ⟨[.reply], false⟩⟩,
        .advance ⟨false, false, ⟨[.reply], false⟩⟩]).trace := by
  intro confirmed
  apply confirmed.notDropped
  decide

end Netter.Dispatch
