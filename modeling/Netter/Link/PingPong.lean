import Netter.Client.Recv
import Netter.Link.Delivery

/-!
# The test programs

The server answers each packet with a heartbeat, and so does the client. The packets that are posted at the client to
begin with go back and forth for ever: none is lost and none is added, so no buffer grows beyond them, and the
exchange never comes to a halt.
-/

namespace Netter.Link

open Lib PktBase BaseConn ClientConn

/-- `ServConn::HandlePkt` and `NbClientConn::HandlePkt`. -/
def heartBeats : Side → Received → List HeapPkt := fun _ _ => [heartBeat]

theorem answer_heartBeats : answer (heartBeats .server) = ServConn.handlePkt ∧
    answer (heartBeats .client) = NbClientConn.handlePkt := ⟨rfl, rfl⟩

/-- Packets are posted at the client only. -/
def Allowed : LinkStep → Prop
  | .post side pkt _ => side = .client ∧ pkt.Framed
  | _ => True

/-- How many packets the steps post. -/
def posts (steps : List LinkStep) : Nat :=
  steps.countP fun
    | .post _ _ _ => true
    | _ => false

/-- What a link is that has had `p` packets posted. -/
structure Circulates (l : Link) (p : Nat) : Prop where
  inv : l.Inv
  client : (l.handed .client).length = p + (packets (l.conn .client).trace).length
  server : (l.handed .server).length = (packets (l.conn .server).trace).length
  serverOpen : (l.conn .server).conn.isOpen = true

variable {l : Link} {p : Nat} {side : Side} {recvs : List Chunk} {sends : List Int}

theorem framed_heartBeats : ∀ side got, ∀ pkt ∈ heartBeats side got, pkt.Framed := by
  intro side got pkt member
  rw [List.mem_singleton.mp member]
  decide

/-- A heartbeat is its header. -/
theorem length_encode {pkts : List HeapPkt} (framed : ∀ pkt ∈ pkts, pkt.Framed) : (encode pkts).length = 16 * pkts.length := by
  induction pkts with
  | nil => rfl
  | cons pkt pkts ih =>
    have frame : frameAt pkt.bytes = .packet pkt.pkt.buf.writeOffset := framed pkt List.mem_cons_self
    have width := (frameAt_packet_iff.mp frame).1
    rw [length_encode_cons, HeapPkt.length_bytes, width, ih fun other member => framed other (List.mem_cons_of_mem _ member),
      List.length_cons]
    show 16 + _ = _
    omega

theorem length_answers (news : List Received) : (encode (news.flatMap (heartBeats side))).length = 16 * news.length := by
  rw [length_encode]
  · simp [heartBeats]
  · intro pkt member
    obtain ⟨got, -, sent⟩ := List.mem_flatMap.mp member
    exact framed_heartBeats side got pkt sent

/-- A side has handled what has arrived, and its peer owes what it was handed. -/
theorem Inv.balance (inv : l.Inv) (side : Side) :
    16 * (packets (l.conn side).trace).length + (l.conn side).conn.inBuf.content.length ≤ l.taken side ∧
      l.taken side ≤ (l.conn side.other).socket.sent.length ∧
      (l.conn side).socket.sent.length + (l.conn side).conn.outBuf.content.length +
        (encode (l.conn side).conn.waitPktList).length = 16 * (l.handed side).length := by
  obtain ⟨rest, reading, frames⟩ := (inv side).reading
  have taken := (inv side).taken
  have handled := frames.length_pkts
  rw [List.length_take, Nat.min_eq_left taken] at handled
  have owed := congrArg List.length (inv side).owed
  rw [length_encode (inv side).framed, BaseConn.owed, List.length_append, List.length_append] at owed
  rw [reading.stands.queue]
  exact ⟨handled, taken, owed⟩

theorem Inv.handled_le (inv : l.Inv) (side : Side) : (packets (l.conn side).trace).length ≤ (l.handed side.other).length := by
  have front := (inv.delivered side).1.length_le
  rw [List.length_map] at front
  exact front

/-- All that waits at a side, with or without the `CONFIRM`, are packets that were posted. -/
theorem Circulates.backlog_le (circulates : Circulates l p) (side : Side) :
    (l.conn side).conn.outBuf.content.length + (encode (l.conn side).conn.waitPktList).length ≤ 16 * p := by
  obtain ⟨inv, client, server, -⟩ := circulates
  obtain ⟨clientGot, clientTaken, clientOwes⟩ := inv.balance .client
  obtain ⟨serverGot, serverTaken, serverOwes⟩ := inv.balance .server
  have least := inv.handled_le .client
  simp only [Side.other] at clientTaken serverTaken least
  cases side <;> omega

/-- The client gets no packet before its `CONFIRM`: the server has had nothing to answer. -/
theorem Circulates.confirmed (circulates : Circulates l p) (some : (l.handed .server).length ≠ 0) :
    (l.conn .client).conn.isOpen = true := by
  obtain ⟨inv, client, server, -⟩ := circulates
  cases (inv .client).sender.phase with
  | running _ isOpen _ => exact isOpen
  | waiting _ _ none =>
    obtain ⟨serverGot, serverTaken, -⟩ := inv.balance .server
    have empty := congrArg List.length none
    simp only [Side.other] at serverTaken
    rw [List.length_append, List.length_nil] at empty
    omega

/-- There is room for what arrives and for the answers to it. -/
theorem Circulates.meets_readable (circulates : Circulates l p) (few : 16 * p < 2 ^ 31) :
    l.Meets heartBeats (.readable side recvs sends) := by
  intro flying
  have backlog := circulates.backlog_le side
  have confirmed := circulates.confirmed
  obtain ⟨inv, client, server, serverOpen⟩ := circulates
  obtain ⟨inside, news', rest', next', arrived⟩ := inv.arrive flying
  have counted := arrived.length_pkts
  rw [List.length_take, Nat.min_eq_left inside, List.length_append] at counted
  obtain ⟨clientGot, clientTaken, clientOwes⟩ := inv.balance .client
  obtain ⟨serverGot, serverTaken, serverOwes⟩ := inv.balance .server
  have leastClient := inv.handled_le .client
  have leastServer := inv.handled_le .server
  simp only [Side.other] at clientTaken serverTaken leastClient leastServer
  refine ⟨?_, fun news rest next => ?_⟩
  · cases side <;> simp only [Side.other] at inside <;> omega
  · obtain ⟨rfl, rfl⟩ := next'.unique next
    rw [length_answers]
    refine ⟨fun some => ?_, ?_⟩
    · have one := List.length_pos_iff.mpr some
      cases side with
      | client =>
        apply confirmed
        simp only [Side.other] at inside
        omega
      | server => exact serverOpen
    · cases side <;> simp only [Side.other] at inside <;> omega

theorem posts_cons (step : LinkStep) (steps : List LinkStep) : posts (step :: steps) = posts [step] + posts steps := by
  rw [posts, posts, posts, List.countP_cons, List.countP_singleton, Nat.add_comm]

/-- There is room for every step. -/
theorem Circulates.meets (circulates : Circulates l p) {step : LinkStep} (allowed : Allowed step)
    (few : 16 * (p + posts [step]) < 2 ^ 31) : l.Meets heartBeats step := by
  cases step with
  | post side pkt sends =>
    obtain ⟨rfl, framed⟩ := allowed
    have one : posts [.post .client pkt sends] = 1 := rfl
    have width : (encode [pkt]).length = 16 * [pkt].length := length_encode (by simpa using framed)
    rw [encode_cons, encode_nil, List.append_nil] at width
    have backlog := circulates.backlog_le .client
    refine ⟨framed, ?_⟩
    unfold Fits
    rw [width, List.length_singleton]
    omega
  | readable side recvs sends =>
    have none : posts [.readable side recvs sends] = 0 := rfl
    exact circulates.meets_readable (by omega)
  | writable side sends =>
    have none : posts [.writable side sends] = 0 := rfl
    exact Nat.lt_of_le_of_lt (circulates.backlog_le side) (by omega)

/-- A step posts a packet, or answers what it handles. -/
theorem Circulates.exec (circulates : Circulates l p) {step : LinkStep} (allowed : Allowed step)
    (few : 16 * (p + posts [step]) < 2 ^ 31) :
    ∃ l', l.exec heartBeats step = some l' ∧ Circulates l' (p + posts [step]) := by
  have meets := circulates.meets allowed few
  obtain ⟨inv, client, server, serverOpen⟩ := circulates
  cases step with
  | post side pkt sends =>
    obtain ⟨rfl, framed⟩ := allowed
    have one : posts [.post .client pkt sends] = 1 := rfl
    obtain ⟨l', ran, inv', effect⟩ := post_step heartBeats inv meets
    refine ⟨l', ran, inv', ?_, ?_, effect.opened _ serverOpen⟩
    · rw [effect.handed, effect.handled, if_pos rfl, if_pos rfl, List.length_append, List.append_nil, client, one,
        List.length_singleton]
      omega
    · rw [effect.handed, effect.handled]
      simpa using server
  | readable side recvs sends =>
    have none : posts [.readable side recvs sends] = 0 := rfl
    rw [none, Nat.add_zero]
    obtain ⟨l', news, ran, inv', effect⟩ := readable_step heartBeats inv framed_heartBeats meets
    have count : (news.flatMap (heartBeats side)).length = news.length := by simp [heartBeats]
    refine ⟨l', ran, inv', ?_, ?_, effect.opened _ serverOpen⟩
    · rw [effect.handed, effect.handled]
      split
      · rw [List.length_append, List.length_append, count, client, Nat.add_assoc]
      · exact client
    · rw [effect.handed, effect.handled]
      split
      · rw [List.length_append, List.length_append, count, server]
      · exact server
  | writable side sends =>
    have none : posts [.writable side sends] = 0 := rfl
    rw [none, Nat.add_zero]
    obtain ⟨l', ran, inv', effect⟩ := writable_step heartBeats inv meets
    refine ⟨l', ran, inv', ?_, ?_, effect.opened _ serverOpen⟩
    · rw [effect.handed, effect.handled]
      simpa using client
    · rw [effect.handed, effect.handled]
      simpa using server

theorem Circulates.run (circulates : Circulates l p) {steps : List LinkStep} (allowed : ∀ step ∈ steps, Allowed step)
    (few : 16 * (p + posts steps) < 2 ^ 31) :
    ∃ l', runPartial (fun l step => l.exec heartBeats step) l steps = some l' ∧ Circulates l' (p + posts steps) := by
  induction steps generalizing l p with
  | nil => exact ⟨l, rfl, circulates⟩
  | cons step steps ih =>
    rw [posts_cons] at few ⊢
    obtain ⟨t, ran, next⟩ := circulates.exec (allowed step List.mem_cons_self) (by omega)
    obtain ⟨u, rest, last⟩ := ih next (fun other member => allowed other (List.mem_cons_of_mem _ member)) (by omega)
    refine ⟨u, ?_, ?_⟩
    · rw [runPartial, ran]
      exact rest
    · rw [← Nat.add_assoc]
      exact last

/-- There is room in every step of a run. -/
theorem Circulates.along (circulates : Circulates l p) {steps : List LinkStep} (allowed : ∀ step ∈ steps, Allowed step)
    (few : 16 * (p + posts steps) < 2 ^ 31) :
    AlongPartial (fun l step => l.exec heartBeats step) (fun l step => l.Meets heartBeats step) l steps := by
  induction steps generalizing l p with
  | nil => trivial
  | cons step steps ih =>
    rw [posts_cons] at few
    have first := allowed step List.mem_cons_self
    obtain ⟨t, ran, next⟩ := circulates.exec first (by omega)
    refine ⟨circulates.meets first (by omega), fun u ran' => ?_⟩
    obtain rfl := Option.some_inj.mp (ran.symm.trans ran')
    exact ih next (fun other member => allowed other (List.mem_cons_of_mem _ member)) (by omega)

/-- What does not move stays somewhere: with a packet posted, it cannot be that nothing is on the way. -/
theorem Circulates.moving (circulates : Circulates l p) (some : 0 < p) : ¬ (l.Drained .client ∧ l.Drained .server) := by
  rintro ⟨client, server⟩
  obtain ⟨inv, clientHands, serverHands, -⟩ := circulates
  have clientAll := congrArg List.length ((inv.delivered .client).2 client)
  have serverAll := congrArg List.length ((inv.delivered .server).2 server)
  simp only [List.length_map, Side.other] at clientAll serverAll
  omega

theorem circulates_start {handle : Side → NetHandle} (registered : ∀ side, handle side ≠ invalidHandle) :
    Circulates (start handle) 0 := ⟨inv_start registered, rfl, rfl, rfl⟩

/-- **The packets go round.** Whatever the kernel does, both sides have handled packets of each other in order, the
server has answered each packet that it has handled, and so has the client; no backlog outgrows the packets that were
posted, and if there are any, something is always on the way. -/
theorem ping_pong (handle : Side → NetHandle) (registered : ∀ side, handle side ≠ invalidHandle) (steps : List LinkStep)
    (allowed : ∀ step ∈ steps, Allowed step) (few : 16 * posts steps < 2 ^ 31) :
    ∃ l, runPartial (fun l step => l.exec heartBeats step) (start handle) steps = some l ∧
      (∀ side, (l.conn side).conn.handle ≠ invalidHandle ∧ malformed (l.conn side).trace = false ∧
        packets (l.conn side).trace <+: (l.handed side.other).map HeapPkt.received ∧
        (l.conn side).conn.outBuf.content.length ≤ 16 * posts steps) ∧
      (l.handed .server).length = (packets (l.conn .server).trace).length ∧
      (l.handed .client).length = posts steps + (packets (l.conn .client).trace).length ∧
      (0 < posts steps → ¬ (l.Drained .client ∧ l.Drained .server)) := by
  obtain ⟨l, ran, circulates⟩ := (circulates_start registered).run allowed (by omega)
  rw [Nat.zero_add] at circulates
  refine ⟨l, ran, fun side => ?_, circulates.server, circulates.client, circulates.moving⟩
  obtain ⟨rest, reading, -⟩ := (circulates.inv side).reading
  exact ⟨reading.stands.registered, reading.stands.clean, (circulates.inv.delivered side).1,
    Nat.le_trans (Nat.le_add_right _ _) (circulates.backlog_le side)⟩

/-- A heartbeat is received in two pieces. -/
def firstPiece : Chunk := ⟨heartBeat.bytes.take 7, by decide, by decide⟩

def secondPiece : Chunk := ⟨heartBeat.bytes.drop 7, by decide, by decide⟩

/-- A heartbeat is posted before the client is confirmed, and reaches the server in two pieces. -/
def firstRound : List LinkStep :=
  [.post .client heartBeat [], .writable .client [10, 0], .writable .client [6],
    .readable .server [firstPiece] [], .readable .server [secondPiece] [16]]

theorem allowed_firstRound : ∀ step ∈ firstRound, Allowed step := by
  have framed : heartBeat.Framed := by decide
  simp [firstRound, Allowed, framed]

theorem ping_pong_firstRound :
    ∃ l, runPartial (fun l step => l.exec heartBeats step) (start fun _ => 1) firstRound = some l ∧
      (0 < posts firstRound → ¬ (l.Drained .client ∧ l.Drained .server)) := by
  obtain ⟨l, ran, -, -, -, moving⟩ := ping_pong (fun _ => 1) (fun _ => by decide) firstRound allowed_firstRound (by decide)
  exact ⟨l, ran, moving⟩

/-- After it the server has the heartbeat, and has answered it. -/
theorem delivery_firstRound :
    ∃ l, runPartial (fun l step => l.exec heartBeats step) (start fun _ => 1) firstRound = some l ∧
      packets (l.conn .server).trace = [heartBeat.received] := by
  obtain ⟨l, ran, sides⟩ := delivery heartBeats framed_heartBeats (fun _ => 1) (fun _ => by decide) firstRound
    ((circulates_start fun _ => by decide).along allowed_firstRound (by decide))
  have ends : (runPartial (fun l step => l.exec heartBeats step) (start fun _ => 1) firstRound).map (fun l =>
      (l.inFlight .server, (l.conn .client).conn.outBuf.content, (l.conn .client).conn.waitPktList.length,
        (l.handed .client).map HeapPkt.received)) = some ([], [], 0, [heartBeat.received]) := by
    decide +kernel
  rw [ran, Option.map_some, Option.some_inj, Prod.mk.injEq, Prod.mk.injEq, Prod.mk.injEq] at ends
  obtain ⟨flying, backlog, waiting, handed⟩ := ends
  refine ⟨l, ran, ((sides .server).2.2.2 ⟨flying, backlog, List.eq_nil_of_length_eq_zero waiting⟩).trans handed⟩

end Netter.Link
