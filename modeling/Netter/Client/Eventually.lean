import Netter.Client.Pressure
import Netter.Link.Eventually

/-!
# The pressure test comes to its end

In an endless run in which the thread of the client gets on and the loop of the server gets what there is for it, all the
rounds are over sometime, and each has had its answer.
-/

namespace Netter.Pressure

open Lib PktBase BaseConn

/-- The kernel accepts something of what the client sends. -/
def Sends (query : Nat → HeapPkt) (p : Pressure) : Step → Prop
  | .send ret =>
    ∃ offset, p.pc = .send offset ∧ 0 < ret ∧ ret ≤ min ((query p.round).bytes.length - offset) kMaxSocketBufSize
  | _ => False

/-- The server receives something that is in flight. -/
def Receives (p : Pressure) : Step → Prop
  | .readable recvs _ => chunkBytes recvs ≠ [] ∧ chunkBytes recvs <+: p.sent.drop p.taken
  | _ => False

/-- `WRITE` is reported to the server, and the kernel takes something. -/
def Writes : Step → Prop
  | .writable sends => 0 < sends.headD 0
  | _ => False

def Returns : Step → Prop
  | .recvPacket _ => True
  | _ => False

/-- The thread of the client goes on when it can, and the loop of the server gets what is in flight and, while it has a
backlog, `WRITE`. -/
structure Fair (query : Nat → HeapPkt) (total : Nat) (steps : Nat → Step) (trace : Nat → Pressure) : Prop where
  sends : WeakFair (fun n => (trace n).pc ≠ .recv ∧ (trace n).round < total) fun n => Sends query (trace n) (steps n)
  receives : WeakFair (fun n => (trace n).taken < (trace n).sent.length) fun n => Receives (trace n) (steps n)
  writes : WeakFair (fun n => (trace n).server.conn.outBuf.content ≠ []) fun n => Writes (steps n)
  returns : WeakFair (fun n => (trace n).pc = .recv ∧ frameAt (trace n).inFlight ≠ .incomplete) fun n => Returns (steps n)

/-- An endless run of the test. -/
structure Runs (query : Nat → HeapPkt) (total : Nat) (steps : Nat → Step) (trace : Nat → Pressure) : Prop where
  framed : ∀ i, (query i).Framed
  ran : Trace (exec query total) steps trace
  healthy : ∀ n, (steps n).Healthy
  starts : ∃ handle client, handle ≠ invalidHandle ∧ ClientConn.Connected ⟨client, ⟨[], []⟩⟩ ∧ trace 0 = start handle client

variable {query : Nat → HeapPkt} {total : Nat} {p p' : Pressure} {step : Step}

/-! ## Steps that get on -/

theorem sent_lt (sends : Sends query p step) (under : p.round < total) (ran : p.exec query total step = some p') :
    p.sent.length < p'.sent.length := by
  cases step with
  | readable => exact sends.elim
  | writable => exact sends.elim
  | recvPacket => exact sends.elim
  | send ret =>
    obtain ⟨offset, pc, some, most⟩ := sends
    rw [exec, pc] at ran
    obtain rfl := Option.some_inj.mp ran
    have goes : p.round < total ∧ 0 < ret ∧ ret ≤ min ((query p.round).bytes.length - offset) kMaxSocketBufSize :=
      ⟨under, some, most⟩
    unfold Pressure.blockSend
    dsimp only
    rw [if_pos goes]
    show p.sent.length < (p.sent ++ ((query p.round).bytes.drop offset).take ret).length
    rw [List.length_append, List.length_take, List.length_drop]
    omega

theorem taken_lt (receives : Receives p step) (ran : p.exec query total step = some p') : p.taken < p'.taken := by
  cases step with
  | send => exact receives.elim
  | writable => exact receives.elim
  | recvPacket => exact receives.elim
  | readable recvs sends =>
    obtain ⟨some, flying⟩ := receives
    rw [exec, if_pos flying] at ran
    obtain ⟨t, -, rfl⟩ := Option.map_eq_some_iff.mp ran
    exact Nat.lt_add_of_pos_right (List.length_pos_iff.mpr some)

theorem call_post {recvs : List Chunk} {sends : List Int} {x : ConnM Unit} {t : ConnState} {P : ConnState → Prop}
    (called : p.call recvs sends x = some t) (spec : wp x (fun _ => P) (fun _ _ => True) (p.asked recvs sends)) : P t := by
  unfold call at called
  split at called
  next run =>
    cases called
    exact spec.of_run run
  next => cases called

theorem answered_lt (inv : Inv query p) (backlog : p.server.conn.outBuf.content ≠ []) (writes : Writes step)
    (ran : p.exec query total step = some p') : p.server.socket.sent.length < p'.server.socket.sent.length := by
  cases step with
  | send => exact writes.elim
  | readable => exact writes.elim
  | recvPacket => exact writes.elim
  | writable sends =>
    obtain ⟨t, called, rfl⟩ := Option.map_eq_some_iff.mp ran
    have sender := (inv.asked [] sends).1
    refine call_post (P := fun t => p.server.socket.sent.length < t.socket.sent.length) called ?_
    simp only [socketOnWrite, wp_bind, wp_get]
    have connected : (p.asked [] sends).socket.state = .connected := by
      cases sender.phase with
      | waiting _ shut _ => exact absurd (inv.isOpen.symm.trans shut) Bool.noConfusion
      | running state _ _ => exact state
    rw [connected]
    exact onWrite_gives sender backlog writes

theorem got_lt (inv : Inv query p) (waits : p.pc = .recv) (complete : frameAt p.inFlight ≠ .incomplete)
    (returns : Returns step) (inv' : Inv query p') (ran : p.exec query total step = some p') : p.got < p'.got := by
  cases step with
  | send => exact returns.elim
  | readable => exact returns.elim
  | writable => exact returns.elim
  | recvPacket recvs =>
    rw [exec, waits] at ran
    dsimp only at ran
    rw [Pressure.recvPacket, if_neg complete] at ran
    -- The rounds go on only with the bytes of an answer.
    have next : p'.round = p.round + 1 := by
      split at ran
      next => rw [← Option.some_inj.mp ran]
      next => cases ran
    rw [inv.got, inv'.got, next]
    omega

/-! ## Where the bytes are -/

theorem Inv.waits_iff (inv : Inv query p) : p.pc = .recv ↔ p.got + 16 ≤ p.sent.length := by
  have progress := inv.progress
  have got := inv.got
  constructor
  · intro waits
    rw [waits] at progress
    have done : Pc.done .recv = 16 := rfl
    omega
  · intro all
    by_contra sends
    have under := inv.under sends
    omega

theorem Inv.backlog_iff (inv : Inv query p) (framed : ∀ i, (query i).Framed) (waits : p.pc = .recv)
    (all : p.taken = p.sent.length) : p.server.conn.outBuf.content ≠ [] ↔ p.server.socket.sent.length < p.got + 16 := by
  obtain ⟨-, -, balance, -⟩ := inv.balance
  rw [inv.handled_all framed waits all] at balance
  have got := inv.got
  rw [← List.length_pos_iff]
  omega

/-- All the bytes that have gone one step further. -/
def moved (p : Pressure) : Nat := p.sent.length + p.taken + p.server.socket.sent.length + p.got

/-- No byte has moved. -/
structure Still (p p' : Pressure) : Prop where
  sent : p'.sent.length = p.sent.length
  taken : p'.taken = p.taken
  answered : p'.server.socket.sent.length = p.server.socket.sent.length
  got : p'.got = p.got

theorem Grows.still (grows : Grows p p') (same : p'.moved ≤ p.moved) : Still p p' := by
  obtain ⟨sent, taken, answered, got⟩ := grows
  unfold moved at same
  constructor <;> omega

theorem Grows.trans {p'' : Pressure} (first : Grows p p') (second : Grows p' p'') : Grows p p'' :=
  ⟨Nat.le_trans first.sent second.sent, Nat.le_trans first.taken second.taken,
    Nat.le_trans first.answered second.answered, Nat.le_trans first.got second.got⟩

/-- Only `block_send_all` sends, in a round that is left. -/
theorem sent_of_exec (ran : p.exec query total step = some p') :
    p'.sent = p.sent ∨ p.round < total ∧ p'.round = p.round := by
  cases step with
  | readable recvs sends =>
    rw [exec] at ran
    split at ran
    · obtain ⟨t, -, rfl⟩ := Option.map_eq_some_iff.mp ran
      exact .inl rfl
    · rw [← Option.some_inj.mp ran]
      exact .inl rfl
  | writable sends =>
    obtain ⟨t, -, rfl⟩ := Option.map_eq_some_iff.mp ran
    exact .inl rfl
  | recvPacket recvs =>
    rw [exec] at ran
    split at ran
    · rw [← Option.some_inj.mp ran]
      exact .inl rfl
    · rw [Pressure.recvPacket] at ran
      split at ran
      · rw [← Option.some_inj.mp ran]
        exact .inl rfl
      · split at ran
        · rw [← Option.some_inj.mp ran]
          exact .inl rfl
        · cases ran
  | send ret =>
    rw [exec] at ran
    split at ran
    · rw [← Option.some_inj.mp ran]
      unfold Pressure.blockSend
      dsimp only
      split
      next goes => exact .inr ⟨goes.1, rfl⟩
      next => exact .inl rfl
    · rw [← Option.some_inj.mp ran]
      exact .inl rfl

/-- The client sends nothing after the last round. -/
theorem Inv.sent_le (inv' : Inv query p') (ran : p.exec query total step = some p')
    (before : p.sent.length ≤ 16 * total) : p'.sent.length ≤ 16 * total := by
  rcases sent_of_exec ran with same | ⟨under, round⟩
  · rw [same]
    exact before
  · have progress := inv'.progress
    obtain ⟨-, done, -, -⟩ := inv'.balance
    omega

/-- No byte is in a buffer or in flight. -/
structure Quiet (p : Pressure) : Prop where
  taken : p.taken = p.sent.length
  parsed : p.server.conn.inBuf.content = []
  backlog : p.server.conn.outBuf.content = []
  flying : p.inFlight = []

/-! ## Runs -/

namespace Runs

variable {steps : Nat → Step} {trace : Nat → Pressure} {n m : Nat} (runs : Runs query total steps trace)
include runs

theorem next (inv : Inv query (trace n)) : Inv query (trace (n + 1)) ∧ Grows (trace n) (trace (n + 1)) := by
  obtain ⟨p, ran, next⟩ : ∃ p, (trace n).exec query total (steps n) = some p ∧ Inv query p ∧ Grows (trace n) p :=
    inv.exec runs.framed (runs.healthy n)
  obtain rfl : trace (n + 1) = p := Option.some_inj.mp ((runs.ran n).symm.trans ran)
  exact next

theorem inv (n : Nat) : Inv query (trace n) := by
  induction n with
  | zero =>
    obtain ⟨handle, client, registered, connected, starts⟩ := runs.starts
    rw [starts]
    exact inv_start registered connected
  | succ n ih => exact (runs.next ih).1

theorem grows (later : n ≤ m) : Grows (trace n) (trace m) := by
  induction later with
  | refl => exact .refl _
  | @step m _ ih => exact ih.trans (runs.next (runs.inv m)).2

theorem sent_le (n : Nat) : (trace n).sent.length ≤ 16 * total := by
  induction n with
  | zero =>
    obtain ⟨handle, client, -, -, starts⟩ := runs.starts
    rw [starts]
    exact Nat.zero_le _
  | succ n ih => exact (runs.inv (n + 1)).sent_le (runs.ran n) ih

theorem round_le (n : Nat) : (trace n).round ≤ total := by
  have most := runs.sent_le n
  have progress := (runs.inv n).progress
  omega

theorem moved_le (n : Nat) : (trace n).moved ≤ 64 * total := by
  have most := runs.sent_le n
  have round := runs.round_le n
  have taken := (runs.inv n).taken
  have got := (runs.inv n).got
  obtain ⟨handled, -, balance, -⟩ := (runs.inv n).balance
  unfold moved
  omega

/-- What can be done as long as no byte moves is done, and moves some. -/
theorem later_moved {possible done : Nat → Prop} (fair : WeakFair possible done)
    (stays : ∀ m, Still (trace n) (trace m) → possible m)
    (moves : ∀ m, possible m → done m → (trace m).moved < (trace (m + 1)).moved) :
    Later (fun m => (trace n).moved < (trace m).moved) n := by
  obtain ⟨m, later, does⟩ := fair n
  by_cases still : (trace m).moved ≤ (trace n).moved
  · have able := stays m ((runs.grows later).still still)
    have before := runs.grows later
    have more := moves m able (does able)
    refine ⟨m + 1, by omega, ?_⟩
    obtain ⟨sent, taken, answered, got⟩ := before
    unfold moved at more ⊢
    omega
  · exact ⟨m, later, Nat.lt_of_not_le still⟩

/-- Before the end something moves. -/
theorem gets_on (fair : Fair query total steps trace) (under : (trace n).round < total) :
    Later (fun m => (trace n).moved < (trace m).moved) n := by
  have inv := runs.inv n
  have moved_lt {m : Nat} (some : (trace m).sent.length < (trace (m + 1)).sent.length ∨
      (trace m).taken < (trace (m + 1)).taken ∨
      (trace m).server.socket.sent.length < (trace (m + 1)).server.socket.sent.length ∨
      (trace m).got < (trace (m + 1)).got) : (trace m).moved < (trace (m + 1)).moved := by
    obtain ⟨sent, taken, answered, got⟩ := runs.grows (Nat.le_add_right m 1)
    unfold moved
    omega
  by_cases waits : (trace n).pc = .recv
  · have waits_of {m : Nat} (still : Still (trace n) (trace m)) : (trace m).pc = .recv := by
      rw [(runs.inv m).waits_iff, still.got, still.sent]
      exact inv.waits_iff.mp waits
    by_cases flying : (trace n).taken < (trace n).sent.length
    · refine runs.later_moved fair.receives (fun m still => ?_) fun m _ receives => ?_
      · rw [still.taken, still.sent]
        exact flying
      · exact moved_lt (.inr (.inl (taken_lt receives (runs.ran m))))
    · have all : (trace n).taken = (trace n).sent.length := Nat.le_antisymm inv.taken (Nat.le_of_not_lt flying)
      have backlog_iff {m : Nat} (still : Still (trace n) (trace m)) : (trace m).server.conn.outBuf.content ≠ [] ↔
          (trace n).server.conn.outBuf.content ≠ [] := by
        have all' : (trace m).taken = (trace m).sent.length := by rw [still.taken, still.sent, all]
        rw [(runs.inv m).backlog_iff runs.framed (waits_of still) all', inv.backlog_iff runs.framed waits all,
          still.answered, still.got]
      by_cases backlog : (trace n).server.conn.outBuf.content = []
      · refine runs.later_moved fair.returns (fun m still => ⟨waits_of still, ?_⟩) fun m able returns => ?_
        · rcases (runs.inv m).moving runs.framed (waits_of still) with received | sends | complete
          · rw [still.taken, still.sent] at received
            exact absurd received flying
          · exact absurd backlog ((backlog_iff still).mp sends)
          · exact complete
        · have more := got_lt (runs.inv m) able.1 able.2 returns (runs.inv (m + 1)) (runs.ran m)
          exact moved_lt (.inr (.inr (.inr more)))
      · refine runs.later_moved fair.writes (fun m still => (backlog_iff still).mpr backlog) fun m able writes => ?_
        exact moved_lt (.inr (.inr (.inl (answered_lt (runs.inv m) able writes (runs.ran m)))))
  · refine runs.later_moved fair.sends (fun m still => ⟨fun waits' => ?_, ?_⟩) fun m able sends => ?_
    · rw [(runs.inv m).waits_iff, still.got, still.sent] at waits'
      exact waits (inv.waits_iff.mpr waits')
    · have got := inv.got
      have got' := (runs.inv m).got
      rw [still.got] at got'
      omega
    · exact moved_lt (.inl (sent_lt sends able.2 (runs.ran m)))

theorem later_over (fair : Fair query total steps trace) : Later (fun m => (trace m).round = total) 0 := by
  refine later_of_decreasing (fun n => 64 * total - (trace n).moved) fun n _ before => ?_
  have under := Nat.lt_of_le_of_ne (runs.round_le n) before
  refine (runs.gets_on fair under).mono fun m _ more => .inr ?_
  have most := runs.moved_le m
  omega

theorem stays_over (last : (trace n).round = total) (later : n ≤ m) : (trace m).round = total := by
  have most := runs.round_le m
  have grown := (runs.grows later).got
  rw [(runs.inv n).got, (runs.inv m).got, last] at grown
  omega

/-- At the end nothing is on the way. -/
theorem quiet (last : (trace n).round = total) : (trace n).pc ≠ .recv ∧ Quiet (trace n) := by
  have inv := runs.inv n
  have most := runs.sent_le n
  have sends : (trace n).pc ≠ .recv := by
    intro waits
    have all := inv.waits_iff.mp waits
    rw [inv.got, last] at all
    omega
  have lock := inv.lockStep runs.framed
  obtain ⟨k, handled, -, -, exactly⟩ := lock.handled
  have count := congrArg List.length handled
  rw [exactly sends, last, List.length_map, queries, List.length_map, List.length_range] at count
  obtain ⟨received, -, -, -⟩ := inv.balance
  have taken := inv.taken
  obtain ⟨backlog, flying⟩ := lock.settled sends
  exact ⟨sends, by omega, List.eq_nil_of_length_eq_zero (by omega), backlog, flying⟩

/-- A run that has come to its end is fair: nothing can be done. -/
theorem fair_of_over (last : (trace n).round = total) : Fair query total steps trace where
  sends k := by
    refine ⟨max n k, Nat.le_max_right n k, fun ⟨_, under⟩ => ?_⟩
    exact absurd (runs.stays_over last (Nat.le_max_left n k)) (Nat.ne_of_lt under)
  receives k := by
    refine ⟨max n k, Nat.le_max_right n k, fun flying => ?_⟩
    exact absurd (runs.quiet (runs.stays_over last (Nat.le_max_left n k))).2.taken (Nat.ne_of_lt flying)
  writes k := by
    refine ⟨max n k, Nat.le_max_right n k, fun backlog => ?_⟩
    exact absurd (runs.quiet (runs.stays_over last (Nat.le_max_left n k))).2.backlog backlog
  returns k := by
    refine ⟨max n k, Nat.le_max_right n k, fun ⟨waits, _⟩ => ?_⟩
    exact absurd waits (runs.quiet (runs.stays_over last (Nat.le_max_left n k))).1

end Runs

/-- What the test does with any steps. -/
def stateAt (query : Nat → HeapPkt) (total : Nat) (handle : NetHandle) (client : ClientConn) (steps : Nat → Step) :
    Nat → Pressure :=
  Lib.stateAt (fun p step => (p.exec query total step).getD p) (start handle client) steps

/-- No step of the test fails, so all steps are those of a run. -/
theorem runs_stateAt (framed : ∀ i, (query i).Framed) {handle : NetHandle} {client : ClientConn}
    (registered : handle ≠ invalidHandle) (connected : ClientConn.Connected ⟨client, ⟨[], []⟩⟩) {steps : Nat → Step}
    (healthy : ∀ n, (steps n).Healthy) : Runs query total steps (stateAt query total handle client steps) := by
  have next (n : Nat) (inv : Inv query (stateAt query total handle client steps n)) :
      (stateAt query total handle client steps n).exec query total (steps n) =
        some (stateAt query total handle client steps (n + 1)) ∧
      Inv query (stateAt query total handle client steps (n + 1)) := by
    obtain ⟨p, ran, inv', -⟩ :
        ∃ p, (stateAt query total handle client steps n).exec query total (steps n) = some p ∧ Inv query p ∧ Grows _ p :=
      inv.exec framed (healthy n)
    have is : stateAt query total handle client steps (n + 1) = p := by
      show ((stateAt query total handle client steps n).exec query total (steps n)).getD _ = p
      rw [ran]
      rfl
    rw [is]
    exact ⟨ran, inv'⟩
  have inv (n : Nat) : Inv query (stateAt query total handle client steps n) := by
    induction n with
    | zero => exact inv_start registered connected
    | succ n ih => exact (next n ih).2
  exact ⟨framed, fun n => (next n (inv n)).1, healthy, handle, client, registered, connected, rfl⟩

/-- **The test comes to its end**: sometime the server has handled all the packets, in order, each call of `RecvPacket` has
returned its heartbeat, and nothing is left over. -/
theorem rounds_end {steps : Nat → Step} {trace : Nat → Pressure} (runs : Runs query total steps trace)
    (fair : Fair query total steps trace) : ∃ n, ∀ m, n ≤ m →
      (trace m).round = total ∧
      packets (trace m).server.trace = (queries query total).map HeapPkt.received ∧
      (trace m).received = List.replicate total heartBeat.received.header ∧ Quiet (trace m) := by
  obtain ⟨n, -, last⟩ := runs.later_over fair
  refine ⟨n, fun m later => ?_⟩
  have round := runs.stays_over last later
  obtain ⟨sends, quiet⟩ := runs.quiet round
  have lock := (runs.inv m).lockStep runs.framed
  obtain ⟨k, handled, -, -, exactly⟩ := lock.handled
  rw [exactly sends, round] at handled
  refine ⟨round, handled, ?_, quiet⟩
  rw [lock.received, round]

/-- The packets of `OnThreadRun`. -/
def testQuery (i : Nat) : HeapPkt := numbered (UInt32.ofNat (i + 1))

/-- After the first round the client is done. -/
def firstSteps (n : Nat) : Step := firstRound.getD n (.recvPacket [])

theorem healthy_firstSteps (n : Nat) : (firstSteps n).Healthy := by
  have all : ∀ step ∈ firstRound, step.Healthy := by simp [firstRound, Step.Healthy]
  rw [firstSteps, List.getD_eq_getElem?_getD]
  cases at_n : firstRound[n]? with
  | none => exact List.not_mem_nil
  | some step => exact all step (List.mem_of_getElem? at_n)

theorem runs_firstSteps :
    Runs testQuery 1 firstSteps (stateAt testQuery 1 1 (ClientConn.connectedTo [] []).conn firstSteps) :=
  runs_stateAt (fun i => framed_numbered (UInt32.ofNat (i + 1))) (by decide)
    (ClientConn.connected_connectedTo List.not_mem_nil) healthy_firstSteps

theorem rounds_end_firstSteps : ∃ n, ∀ m, n ≤ m →
    let p := stateAt testQuery 1 1 (ClientConn.connectedTo [] []).conn firstSteps m
    p.round = 1 ∧ packets p.server.trace = (queries testQuery 1).map HeapPkt.received ∧
      p.received = List.replicate 1 heartBeat.received.header ∧ Quiet p :=
  rounds_end runs_firstSteps (runs_firstSteps.fair_of_over (n := 7) (by decide +kernel))

end Netter.Pressure
