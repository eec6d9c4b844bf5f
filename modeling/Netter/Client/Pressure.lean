import Netter.Client.Agree
import Netter.Link.PingPong

/-!
# The pressure test

A thread of the test client sends a packet with blocking calls and waits for the answer, in each of its rounds. The server
answers each packet from its event loop. So they take turns: neither has more than one packet to send, and while the client
waits something is on the way.

`RecvPacket` is one step, when all that it waits for has come: nobody else looks at what its first calls of `recv` take.
Time-outs and closes are left out.
-/

namespace Netter

open Lib PktBase BaseConn

def kMaxSocketBufSize : Nat := 128 * 1024

/-- Where the thread of the client stands in a round. -/
inductive Pressure.Pc where
  /-- In the loop of `block_send_all`. -/
  | send (offset : Nat)
  | recv
  deriving DecidableEq

structure Pressure where
  server : ConnState
  client : ClientConn
  pc : Pressure.Pc
  round : Nat
  /-- The bytes that the kernel has accepted from the client, and how many of them the server has received. -/
  sent : List UInt8
  taken : Nat
  /-- How many of the bytes of the server the client has received. -/
  got : Nat
  /-- The headers of the packets that `RecvPacket` has returned. -/
  received : List PktHeader

namespace Pressure

inductive Step where
  /-- A result of `send` in `block_send_all`. -/
  | send (ret : Nat)
  /-- `RecvPacket`, with what its calls of `recv` do. -/
  | recvPacket (recvs : List (Option Nat))
  /-- `READ` at the server. -/
  | readable (recvs : List Chunk) (sends : List Int)
  /-- `BaseSocket::OnWrite` at the server. -/
  | writable (sends : List Int)

/-- A blocking `recv` does not fail. -/
def Step.Healthy : Step → Prop
  | .recvPacket recvs => none ∉ recvs
  | _ => True

variable (query : Nat → HeapPkt) (total : Nat) (p : Pressure)

/-- On the way to the client. -/
def inFlight : List UInt8 := p.server.socket.sent.drop p.got

/-- The server with what the kernel is going to answer. -/
def asked (recvs : List Chunk) (sends : List Int) : ConnState :=
  { p.server with socket := { p.server.socket with recvs, sends } }

/-- A call at the server, which must not end with undefined behaviour or an exception. -/
def call (recvs : List Chunk) (sends : List Int) (x : ConnM Unit) : Option ConnState :=
  match x.run (p.asked recvs sends) with
  | .ok _ t => some t
  | .error _ _ => none

/-- A round of the loop of `block_send_all`. -/
def blockSend (offset ret : Nat) : Pressure :=
  let remain := (query p.round).bytes.length - offset
  if p.round < total ∧ 0 < ret ∧ ret ≤ min remain kMaxSocketBufSize then
    { p with
      sent := p.sent ++ ((query p.round).bytes.drop offset).take ret
      pc := if ret = remain then .recv else .send (offset + ret) }
  else p

/-- `RecvPacket`, which must return a packet, and the end of the round. -/
def recvPacket (recvs : List (Option Nat)) : Option Pressure :=
  if frameAt p.inFlight = .incomplete then some p
  else
    match ClientConn.recvPacket.run ⟨p.client, ⟨p.inFlight, recvs⟩⟩ with
    | .ok (some pkt) t => some { p with
        client := t.conn
        pc := .send 0
        round := p.round + 1
        got := p.got + (p.inFlight.length - t.socket.stream.length)
        received := p.received ++ [pkt.header] }
    | _ => none

/-- A step; one that cannot be taken changes nothing. -/
def exec : Step → Option Pressure
  | .send ret =>
    match p.pc with
    | .send offset => some (p.blockSend query total offset ret)
    | .recv => some p
  | .recvPacket recvs =>
    match p.pc with
    | .send _ => some p
    | .recv => p.recvPacket recvs
  | .readable recvs sends =>
    if chunkBytes recvs <+: p.sent.drop p.taken then
      (p.call recvs sends (onReadWith ServConn.handlePkt)).map fun server =>
        { p with server, taken := p.taken + (chunkBytes recvs).length }
    else some p
  | .writable sends => (p.call [] sends socketOnWrite).map fun server => { p with server }

/-- The server has accepted the connection of a client. -/
def start (handle : NetHandle) (client : ClientConn) : Pressure :=
  ⟨⟨{ BaseConn.init with handle, isOpen := true }, ⟨.connected, [], false, [], [], true⟩, []⟩,
    client, .send 0, 0, [], 0, 0, []⟩

/-- The packets of the first rounds. -/
def queries (n : Nat) : List HeapPkt := (List.range n).map query

/-! ## Taking turns -/

/-- How many bytes of its packet the client has sent. -/
def Pc.done : Pc → Nat
  | .send offset => offset
  | .recv => 16

structure Inv (query : Nat → HeapPkt) (p : Pressure) : Prop where
  connected : ClientConn.Connected ⟨p.client, ⟨[], []⟩⟩
  sender : Sender p.server
  isOpen : p.server.conn.isOpen = true
  owed : owed p.server = encode (List.replicate (packets p.server.trace).length heartBeat)
  taken : p.taken ≤ p.sent.length
  reading : ∃ rest, Reading p.server (packets p.server.trace) rest ∧
    Frames (p.sent.take p.taken) (packets p.server.trace) rest
  front : p.sent <+: encode (queries query (p.round + 1))
  progress : p.sent.length = 16 * p.round + p.pc.done
  under : p.pc ≠ .recv → p.pc.done < 16
  got : p.got = 16 * p.round
  there : p.got ≤ p.server.socket.sent.length
  received : p.received = List.replicate p.round heartBeat.received.header

/-- A step takes no byte back. -/
structure Grows (p p' : Pressure) : Prop where
  sent : p.sent.length ≤ p'.sent.length
  taken : p.taken ≤ p'.taken
  answered : p.server.socket.sent.length ≤ p'.server.socket.sent.length
  got : p.got ≤ p'.got

variable {query : Nat → HeapPkt} {total : Nat} {p : Pressure} {recvs : List Chunk} {sends : List Int}

theorem Grows.refl (p : Pressure) : Grows p p := ⟨Nat.le_refl _, Nat.le_refl _, Nat.le_refl _, Nat.le_refl _⟩

theorem framed_queries (framed : ∀ i, (query i).Framed) (n : Nat) : ∀ pkt ∈ queries query n, pkt.Framed := by
  intro pkt member
  obtain ⟨i, -, rfl⟩ := List.mem_map.mp member
  exact framed i

theorem framed_replicate (n : Nat) : ∀ pkt ∈ List.replicate n heartBeat, pkt.Framed := by
  intro pkt member
  rw [List.eq_of_mem_replicate member]
  decide

/-- What comes behind the first packets. -/
theorem drop_encode {pkts : List HeapPkt} (framed : ∀ pkt ∈ pkts, pkt.Framed) (m : Nat) :
    (encode pkts).drop (16 * m) = encode (pkts.drop m) := by
  induction m generalizing pkts with
  | zero => rfl
  | succ m ih =>
    cases pkts with
    | nil => simp
    | cons pkt pkts =>
      have width : pkt.bytes.length = 16 := by
        rw [HeapPkt.length_bytes, (ClientConn.frameAt_packet_iff.mp (framed pkt List.mem_cons_self)).1]
        rfl
      have one : 16 * (m + 1) = pkt.bytes.length + 16 * m := by omega
      rw [encode_cons, one, ← List.drop_drop, List.drop_left, List.drop_succ_cons]
      exact ih fun other member => framed other (List.mem_cons_of_mem _ member)

theorem answers_eq (news : List Received) : (news.flatMap fun _ => [heartBeat]) = List.replicate news.length heartBeat := by
  induction news with
  | nil => rfl
  | cons pkt news ih => rw [List.flatMap_cons, ih, List.length_cons, List.replicate_succ, List.singleton_append]

namespace Inv

/-- The numbers of bytes on both ways. -/
theorem balance (inv : Inv query p) :
    16 * (packets p.server.trace).length + p.server.conn.inBuf.content.length ≤ p.taken ∧ p.pc.done ≤ 16 ∧
      p.server.socket.sent.length + p.server.conn.outBuf.content.length = 16 * (packets p.server.trace).length ∧
      encode p.server.conn.waitPktList = [] := by
  obtain ⟨rest, reading, frames⟩ := inv.reading
  have handled := frames.length_pkts
  rw [List.length_take, Nat.min_eq_left inv.taken, ← reading.stands.queue] at handled
  have owed := congrArg List.length inv.owed
  rw [Link.length_encode (framed_replicate _), List.length_replicate, BaseConn.owed, List.length_append,
    List.length_append] at owed
  have none : p.server.conn.waitPktList = [] := by
    cases inv.sender.phase with
    | waiting _ shut _ =>
      rw [inv.isOpen] at shut
      cases shut
    | running _ _ none => exact none
  rw [none, encode_nil, List.length_nil] at owed
  refine ⟨by omega, ?_, owed, by rw [none, encode_nil]⟩
  by_cases waits : p.pc = .recv
  · rw [waits]
    exact Nat.le_refl 16
  · exact Nat.le_of_lt (inv.under waits)

/-- The server has handled the packets of the rounds so far, and at most that of this round. -/
theorem handled (inv : Inv query p) (framed : ∀ i, (query i).Framed) :
    packets p.server.trace = (queries query (packets p.server.trace).length).map HeapPkt.received := by
  obtain ⟨rest, -, frames⟩ := inv.reading
  obtain ⟨n, rest', few, frames'⟩ :=
    frames_of_prefix (framed_queries framed (p.round + 1)) ((List.take_prefix p.taken p.sent).trans inv.front)
  obtain ⟨same, -⟩ := frames'.unique frames
  have short : n ≤ p.round + 1 := by simpa [queries] using few
  have taken : (queries query (p.round + 1)).take n = queries query n := by
    rw [queries, ← List.map_take, List.take_range, Nat.min_eq_left short]
    rfl
  rw [taken] at same
  have count : (packets p.server.trace).length = n := by simp [same, queries]
  rw [count]
  exact same

/-! ## The server -/

/-- The kernel's answers change nothing yet. -/
theorem asked (inv : Inv query p) (recvs : List Chunk) (sends : List Int) :
    Sender (p.asked recvs sends) ∧ ∀ {seen rest}, Reading p.server seen rest → Reading (p.asked recvs sends) seen rest := by
  obtain ⟨flow, phase⟩ := inv.sender
  refine ⟨⟨?_, ?_⟩, fun ⟨⟨registered, seen', clean, wf, queue⟩, front, noFin⟩ => ?_⟩
  · exact ⟨flow.handle, flow.isOpen, flow.waiting, flow.wf, flow.front, flow.busy, flow.stream, flow.small⟩
  · cases phase with
    | waiting state shut none => exact .waiting state shut none
    | running state isOpen none => exact .running state isOpen none
  · exact ⟨⟨registered, seen', clean, wf, queue⟩, front, noFin⟩

/-- A call at the server that answers the packets it handles. -/
theorem answered (inv : Inv query p) {t : ConnState} (count : Nat) (news : List Received) {rest : List UInt8}
    (hands : Hands (p.asked recvs sends) t (news.flatMap fun _ => [heartBeat]))
    (handled : packets t.trace = packets p.server.trace ++ news) (inside : p.taken + count ≤ p.sent.length)
    (reading : Reading t (packets t.trace) rest) (frames : Frames (p.sent.take (p.taken + count)) (packets t.trace) rest) :
    Inv query { p with server := t, taken := p.taken + count } where
  connected := inv.connected
  sender := hands.sender
  isOpen := hands.opened inv.isOpen
  owed := by
    have before : BaseConn.owed (p.asked recvs sends) = _ := inv.owed
    show BaseConn.owed t = encode (List.replicate (packets t.trace).length heartBeat)
    rw [hands.owed, before, answers_eq, ← encode_append, List.replicate_append_replicate, handled, List.length_append]
  taken := inside
  reading := ⟨rest, reading, frames⟩
  front := inv.front
  progress := inv.progress
  under := inv.under
  got := inv.got
  there := Nat.le_trans inv.there hands.sent.length_le
  received := inv.received

theorem call_some {x : ConnM Unit} {Q : ConnState → Prop} (runs : wp x (fun _ => Q) Never (p.asked recvs sends)) :
    ∃ t, p.call recvs sends x = some t ∧ Q t := by
  obtain ⟨a, t, run, post⟩ := wp_never.mp runs
  exact ⟨t, by rw [call, run], post⟩

theorem readable (inv : Inv query p) (framed : ∀ i, (query i).Framed) (recvs : List Chunk) (sends : List Int) :
    ∃ p', p.exec query total (.readable recvs sends) = some p' ∧ Inv query p' ∧ Grows p p' := by
  rw [exec]
  by_cases flying : chunkBytes recvs <+: p.sent.drop p.taken
  · rw [if_pos flying]
    obtain ⟨waits, reading, frames⟩ := inv.reading
    have inside := flying.length_le
    rw [List.length_drop] at inside
    have taken := inv.taken
    have all : p.taken + (chunkBytes recvs).length ≤ p.sent.length := by omega
    have arrived : p.sent.take (p.taken + (chunkBytes recvs).length) = p.sent.take p.taken ++ chunkBytes recvs := by
      rw [List.take_add]
      congr 1
      exact (List.prefix_iff_eq_take.mp flying).symm
    obtain ⟨n, rest, -, longer⟩ :=
      frames_of_prefix (framed_queries framed (p.round + 1)) ((List.take_prefix _ p.sent).trans inv.front)
    rw [arrived] at longer
    obtain ⟨news, first, next⟩ := frames.split longer
    rw [first, ← arrived] at longer
    -- What has not been handled before is less than the packet of one round.
    obtain ⟨handled, done, balance, -⟩ := inv.balance
    have there := inv.there
    have got := inv.got
    have progress := inv.progress
    have before := frames.length_pkts
    have after := longer.length_pkts
    rw [List.length_take, Nat.min_eq_left taken] at before
    rw [List.length_take, Nat.min_eq_left all, List.length_append] at after
    have answers : (encode (news.flatMap fun _ => [heartBeat])).length = 16 * news.length := by
      rw [answers_eq, Link.length_encode (framed_replicate _), List.length_replicate]
    have room : p.server.conn.outBuf.content.length + (encode (news.flatMap fun _ => [heartBeat])).length < 2 ^ 31 := by omega
    have small : waits.length + (chunkBytes recvs).length ≤ 2 ^ 31 := by omega
    obtain ⟨sender, same⟩ := inv.asked recvs sends
    obtain ⟨t, called, hands, reading'⟩ :=
      call_some (onRead_hands (fun _ => [heartBeat]) sender (same reading) (fun _ => inv.isOpen) next small room)
    have handled' : packets t.trace = packets p.server.trace ++ news := reading'.stands.seen
    rw [← handled'] at longer reading'
    exact ⟨_, congrArg (Option.map _) called, inv.answered _ news hands handled' all reading' longer, Nat.le_refl _,
      Nat.le_add_right _ _, hands.sent.length_le, Nat.le_refl _⟩
  · rw [if_neg flying]
    exact ⟨p, rfl, inv, .refl p⟩

theorem writable (inv : Inv query p) (sends : List Int) :
    ∃ p', p.exec query total (.writable sends) = some p' ∧ Inv query p' ∧ Grows p p' := by
  obtain ⟨sender, same⟩ := inv.asked [] sends
  obtain ⟨handled, done, balance, waiting⟩ := inv.balance
  have there := inv.there
  have got := inv.got
  have progress := inv.progress
  have taken := inv.taken
  have room : p.server.conn.outBuf.content.length + (encode p.server.conn.waitPktList).length < 2 ^ 31 := by
    rw [waiting, List.length_nil]
    omega
  obtain ⟨t, called, hands, quiet⟩ := call_some (socketOnWrite_wp sender room)
  have trace : t.trace = p.server.trace := quiet.trace
  obtain ⟨rest, reading, frames⟩ := inv.reading
  have reading' : Reading t (packets p.server.trace) rest := quiet.reading (same reading)
  have handled' : packets t.trace = packets p.server.trace ++ [] := by rw [trace, List.append_nil]
  rw [← trace] at reading' frames
  exact ⟨_, congrArg (Option.map _) called, inv.answered 0 [] hands handled' taken reading' frames, Nat.le_refl _,
    Nat.le_refl _, hands.sent.length_le, Nat.le_refl _⟩

/-! ## The client -/

theorem blockSend (inv : Inv query p) (framed : ∀ i, (query i).Framed) {offset : Nat} (sends : p.pc = .send offset)
    (ret : Nat) : Inv query (p.blockSend query total offset ret) ∧ Grows p (p.blockSend query total offset ret) := by
  have width : (query p.round).bytes.length = 16 := by
    rw [HeapPkt.length_bytes, (ClientConn.frameAt_packet_iff.mp (framed p.round)).1]
    rfl
  have under := inv.under (by rw [sends]; exact Pc.noConfusion)
  have progress := inv.progress
  rw [sends] at under progress
  unfold Pressure.blockSend
  dsimp only
  rw [width]
  split
  next goes =>
    obtain ⟨-, some, most⟩ := goes
    have few : ret ≤ 16 - offset := Nat.le_trans most (Nat.min_le_left _ _)
    have piece : (((query p.round).bytes.drop offset).take ret).length = ret := by
      rw [List.length_take, List.length_drop, width, Nat.min_eq_left few]
    obtain ⟨connected, sender, isOpen, owed, taken, ⟨rest, reading, frames⟩, front, -, -, got, there, received⟩ := inv
    have last : encode (queries query (p.round + 1)) = encode (queries query p.round) ++ (query p.round).bytes := by
      rw [queries, List.range_succ, List.map_append, encode_append, List.map_singleton, encode_cons, encode_nil,
        List.append_nil]
      rfl
    have before : (encode (queries query p.round)).length = 16 * p.round := by
      rw [Link.length_encode (framed_queries framed _)]
      simp [queries]
    -- What has been sent of the packet is a front part of it.
    have sent : p.sent = encode (queries query p.round) ++ (query p.round).bytes.take offset := by
      rw [List.prefix_iff_eq_take.mp front, progress, last, ← before, List.take_length_add_append]
      rfl
    have grown : p.sent ++ ((query p.round).bytes.drop offset).take ret =
        encode (queries query p.round) ++ (query p.round).bytes.take (offset + ret) := by
      rw [sent, List.append_assoc, List.take_add]
    have length : (p.sent ++ ((query p.round).bytes.drop offset).take ret).length = 16 * p.round + offset + ret := by
      rw [List.length_append, piece, progress]
      rfl
    have longer : p.sent.length ≤ (p.sent ++ ((query p.round).bytes.drop offset).take ret).length :=
      (List.prefix_append _ _).length_le
    refine ⟨⟨connected, sender, isOpen, owed, Nat.le_trans taken longer, ⟨rest, reading, ?_⟩, ?_, ?_, fun waits => ?_, got,
      there, received⟩, longer, Nat.le_refl _, Nat.le_refl _, Nat.le_refl _⟩
    · rw [List.take_append_of_le_length taken]
      exact frames
    · show _ <+: encode (queries query (p.round + 1))
      rw [grown, last]
      exact (List.prefix_append_right_inj _).mpr (List.take_prefix _ _)
    · show (p.sent ++ _).length = 16 * p.round + Pc.done (if ret = 16 - offset then .recv else .send (offset + ret))
      rw [length]
      split
      · show _ = 16 * p.round + 16
        omega
      · show _ = 16 * p.round + (offset + ret)
        omega
    · show Pc.done (if ret = 16 - offset then .recv else .send (offset + ret)) < 16
      have more : ret ≠ 16 - offset := fun all => waits (if_pos all)
      rw [if_neg more]
      show offset + ret < 16
      omega
  next => exact ⟨inv, .refl p⟩

/-- What is in flight to the client. -/
theorem inFlight_front (inv : Inv query p) :
    p.inFlight <+: encode (List.replicate ((packets p.server.trace).length - p.round) heartBeat) := by
  have owed := inv.owed
  rw [BaseConn.owed, List.append_assoc] at owed
  have front : p.server.socket.sent <+: encode (List.replicate (packets p.server.trace).length heartBeat) := by
    rw [← owed]
    exact List.prefix_append _ _
  have behind := drop_encode (framed_replicate (packets p.server.trace).length) p.round
  rw [List.drop_replicate] at behind
  rw [inFlight, inv.got, ← behind]
  exact front.drop _

/-- A packet that has come is a heartbeat of the server. -/
theorem arrived (inv : Inv query p) (complete : frameAt p.inFlight ≠ .incomplete) :
    ClientConn.HeartbeatAt p.inFlight ∧ headerAt (p.inFlight.take 16) = heartBeat.received.header := by
  obtain ⟨n, rest, few, frames⟩ := frames_of_prefix (framed_replicate _) inv.inFlight_front
  generalize is : ((List.replicate _ heartBeat).take n).map HeapPkt.received = pkts at frames
  cases frames with
  | done frame => exact absurd frame complete
  | @packet _ _ others len frame more =>
    obtain ⟨rfl, heartbeat⟩ := ClientConn.frameAt_packet_iff.mp frame
    refine ⟨heartbeat, ?_⟩
    rw [List.take_replicate, List.map_replicate] at is
    have first : receivedAt p.inFlight 16 = heartBeat.received :=
      List.eq_of_mem_replicate (is ▸ List.mem_cons_self)
    exact congrArg Received.header first

theorem recvPacket (inv : Inv query p) (waits : p.pc = .recv) {recvs : List (Option Nat)} (healthy : none ∉ recvs) :
    ∃ p', p.recvPacket recvs = some p' ∧ Inv query p' ∧ Grows p p' := by
  unfold Pressure.recvPacket
  split
  next => exact ⟨p, rfl, inv, .refl p⟩
  next complete =>
    obtain ⟨heartbeat, header⟩ := inv.arrived complete
    have connected : ClientConn.Connected ⟨p.client, ⟨p.inFlight, recvs⟩⟩ :=
      ⟨inv.connected.handle, inv.connected.size, healthy⟩
    obtain ⟨ret, t, run, ⟨-, connected', rfl, -, stream⟩ | ⟨other, -⟩⟩ :=
      wp_never.mp (ClientConn.recvPacket_wp connected)
    · rw [run]
      have size : 16 ≤ p.inFlight.length := heartbeat.header
      have rest : t.socket.stream = p.inFlight.drop 16 := stream
      have flying : p.inFlight.length = p.server.socket.sent.length - p.got := List.length_drop
      have took : p.inFlight.length - t.socket.stream.length = 16 := by
        rw [rest, List.length_drop]
        omega
      have progress := inv.progress
      rw [waits] at progress
      have next : encode (queries query (p.round + 1)) <+: encode (queries query (p.round + 1 + 1)) := by
        rw [queries, queries, List.range_succ (n := p.round + 1), List.map_append, encode_append]
        exact List.prefix_append _ _
      refine ⟨_, rfl, ⟨⟨connected'.handle, connected'.size, List.not_mem_nil⟩, inv.sender, inv.isOpen, inv.owed, inv.taken,
        inv.reading, inv.front.trans next, progress, fun _ => Nat.succ_pos 15, ?_, ?_, ?_⟩, Nat.le_refl _, Nat.le_refl _,
        Nat.le_refl _, Nat.le_add_right _ _⟩
      · show p.got + (p.inFlight.length - t.socket.stream.length) = 16 * (p.round + 1)
        rw [took, inv.got, Nat.mul_succ]
      · show p.got + (p.inFlight.length - t.socket.stream.length) ≤ p.server.socket.sent.length
        rw [took]
        omega
      · show p.received ++ [headerAt (p.inFlight.take 16)] = List.replicate (p.round + 1) heartBeat.received.header
        rw [inv.received, header, List.replicate_succ']
    · exact absurd heartbeat other

/-! ## Rounds -/

theorem exec (inv : Inv query p) (framed : ∀ i, (query i).Framed) {step : Step} (healthy : step.Healthy) :
    ∃ p', p.exec query total step = some p' ∧ Inv query p' ∧ Grows p p' := by
  cases step with
  | send ret =>
    cases pc : p.pc with
    | send offset => exact ⟨_, by rw [Pressure.exec, pc], inv.blockSend framed pc ret⟩
    | recv => exact ⟨p, by rw [Pressure.exec, pc], inv, .refl p⟩
  | recvPacket recvs =>
    cases pc : p.pc with
    | send offset => exact ⟨p, by rw [Pressure.exec, pc], inv, .refl p⟩
    | recv =>
      obtain ⟨p', ran, next⟩ := inv.recvPacket pc healthy
      exact ⟨p', by rw [Pressure.exec, pc]; exact ran, next⟩
  | readable recvs sends => exact inv.readable framed recvs sends
  | writable sends => exact inv.writable sends

/-- The server has handled the packet of this round when it has received all of it. -/
theorem handled_all (inv : Inv query p) (framed : ∀ i, (query i).Framed) (waits : p.pc = .recv)
    (all : p.taken = p.sent.length) : (packets p.server.trace).length = p.round + 1 := by
  have progress := inv.progress
  rw [waits] at progress
  have whole : p.sent = encode (queries query (p.round + 1)) := by
    refine inv.front.eq_of_length ?_
    rw [progress, Link.length_encode (framed_queries framed _)]
    simp [queries, Pc.done]
    omega
  obtain ⟨rest, -, frames⟩ := inv.reading
  rw [all, List.take_length, whole] at frames
  obtain ⟨same, -⟩ := (frames_encode (framed_queries framed _)).unique frames
  simp [same, queries]

/-- The packet that the client waits for, or the one it has sent, is still somewhere. -/
theorem moving (inv : Inv query p) (framed : ∀ i, (query i).Framed) (waits : p.pc = .recv) :
    p.taken < p.sent.length ∨ p.server.conn.outBuf.content ≠ [] ∨ frameAt p.inFlight ≠ .incomplete := by
  by_contra nothing
  obtain ⟨received, nothing⟩ := not_or.mp nothing
  obtain ⟨sent, arrived⟩ := not_or.mp nothing
  have count := inv.handled_all framed waits (Nat.le_antisymm inv.taken (Nat.le_of_not_lt received))
  -- The answer has come in full.
  obtain ⟨-, -, balance, -⟩ := inv.balance
  rw [not_not.mp sent, List.length_nil, count] at balance
  have front := inv.inFlight_front
  rw [count, Nat.add_sub_cancel_left] at front
  have one : p.inFlight = encode (List.replicate 1 heartBeat) := by
    refine front.eq_of_length ?_
    rw [Link.length_encode (framed_replicate 1), inFlight, List.length_drop, inv.got, List.length_replicate]
    omega
  rw [one] at arrived
  exact arrived (by decide)

end Inv

/-- What holds at any time of the test. -/
structure LockStep (query : Nat → HeapPkt) (p : Pressure) : Prop where
  registered : p.server.conn.handle ≠ invalidHandle
  clean : malformed p.server.trace = false
  /-- The server has handled each packet of the rounds so far, in order, and of this round when it has been sent. -/
  handled : ∃ k, packets p.server.trace = (queries query k).map HeapPkt.received ∧ p.round ≤ k ∧ k ≤ p.round + 1 ∧
    (p.pc ≠ .recv → k = p.round)
  /-- Each round that is over had an answer. -/
  received : p.received = List.replicate p.round heartBeat.received.header
  backlog : p.server.conn.outBuf.content.length ≤ 16
  /-- While the client sends, the server has nothing to send. -/
  settled : p.pc ≠ .recv → p.server.conn.outBuf.content = [] ∧ p.inFlight = []
  /-- While the client waits, there is something to read or to write at the server or a packet to read at the client. -/
  moving : p.pc = .recv → p.taken < p.sent.length ∨ p.server.conn.outBuf.content ≠ [] ∨ frameAt p.inFlight ≠ .incomplete

theorem Inv.lockStep (inv : Inv query p) (framed : ∀ i, (query i).Framed) : LockStep query p := by
  obtain ⟨rest, reading, -⟩ := inv.reading
  obtain ⟨handled, done, balance, -⟩ := inv.balance
  have taken := inv.taken
  have progress := inv.progress
  have got := inv.got
  have there := inv.there
  refine ⟨reading.stands.registered, reading.stands.clean, ⟨_, inv.handled framed, by omega, by omega, fun sends => ?_⟩,
    inv.received, by omega, fun sends => ?_, inv.moving framed⟩
  · have under := inv.under sends
    omega
  · have under := inv.under sends
    refine ⟨List.eq_nil_of_length_eq_zero (by omega), List.drop_eq_nil_of_le (by omega)⟩

theorem inv_start {handle : NetHandle} {client : ClientConn} (registered : handle ≠ invalidHandle)
    (connected : ClientConn.Connected ⟨client, ⟨[], []⟩⟩) : Inv query (start handle client) where
  connected := connected
  sender := ⟨Flow.own (Idle.flow ⟨rfl, rfl, rfl⟩), .running rfl rfl rfl⟩
  isOpen := rfl
  owed := rfl
  taken := Nat.le_refl 0
  reading := ⟨[], ⟨⟨registered, rfl, rfl, SimpleBuffer.wf_init, rfl⟩, rfl, rfl⟩, .done frameAt_nil⟩
  front := List.nil_prefix
  progress := rfl
  under _ := Nat.succ_pos 15
  got := rfl
  there := Nat.le_refl 0
  received := rfl

theorem Inv.run (inv : Inv query p) (framed : ∀ i, (query i).Framed) {steps : List Step}
    (healthy : ∀ step ∈ steps, step.Healthy) :
    ∃ p', runPartial (Pressure.exec query total) p steps = some p' ∧ Inv query p' := by
  induction steps generalizing p with
  | nil => exact ⟨p, rfl, inv⟩
  | cons step steps ih =>
    obtain ⟨t, ran, next, -⟩ := inv.exec framed (healthy step List.mem_cons_self)
    obtain ⟨u, rest, last⟩ := ih next fun other member => healthy other (List.mem_cons_of_mem _ member)
    refine ⟨u, ?_, last⟩
    rw [runPartial, ran]
    exact rest

/-- **The client and the server take turns**, whatever the kernel does with their streams. -/
theorem lock_step (framed : ∀ i, (query i).Framed) (total : Nat) {handle : NetHandle} {client : ClientConn}
    (registered : handle ≠ invalidHandle) (connected : ClientConn.Connected ⟨client, ⟨[], []⟩⟩) (steps : List Step)
    (healthy : ∀ step ∈ steps, step.Healthy) :
    ∃ p, runPartial (exec query total) (start handle client) steps = some p ∧ LockStep query p := by
  obtain ⟨p, ran, inv⟩ := (inv_start registered connected).run framed healthy
  exact ⟨p, ran, inv.lockStep framed⟩

/-! ## The packets of the test -/

theorem setSeqNo_heartBeat (seqNo : UInt32) : ∃ buffer, heartBeat.pkt.setSeqNo Block.empty seqNo =
    some ({ heartBeat.pkt with
      buf := { heartBeat.pkt.buf with buffer }, header := { heartBeat.pkt.header with seqNo } }, Block.empty) ∧
    buffer.cells = heartBeat.pkt.buf.buffer.cells.take 12 ++ BigEndian.toBytes 4 seqNo.toBitVec ++
      heartBeat.pkt.buf.buffer.cells.drop 16 := by
  have width := BigEndian.length_toBytes 4 seqNo.toBitVec
  have fits : 12 + (BigEndian.toBytes 4 seqNo.toBitVec).length ≤ heartBeat.pkt.buf.allocSize.toNat := by
    rw [width]
    decide
  obtain ⟨buffer, stored, cells⟩ := heartBeat.pkt.buf.buffer.store_eq_some fits
  refine ⟨buffer, ?_, ?_⟩
  · have own : heartBeat.pkt.incoming = none := heartBeat.own
    unfold setSeqNo poke
    rw [own]
    dsimp only
    rw [stored]
    rfl
  · rw [cells, width]

theorem setSeqNo_isSome (seqNo : UInt32) : (heartBeat.pkt.setSeqNo Block.empty seqNo).isSome = true := by
  obtain ⟨buffer, ran, -⟩ := setSeqNo_heartBeat seqNo
  rw [ran]
  rfl

/-- The packet of `OnThreadRun` after `SetSeqNo`. -/
def numbered (seqNo : UInt32) : HeapPkt where
  pkt := ((heartBeat.pkt.setSeqNo Block.empty seqNo).get (setSeqNo_isSome seqNo)).1
  own := by
    obtain ⟨buffer, ran, -⟩ := setSeqNo_heartBeat seqNo
    simp only [ran, Option.get_some]
    exact heartBeat.own
  wf := by
    obtain ⟨buffer, ran, -⟩ := setSeqNo_heartBeat seqNo
    simp only [ran, Option.get_some]
    exact ⟨heartBeat.wf.read_le, heartBeat.wf.write_le⟩

/-- Its number does not change what a packet is for the receiver. -/
theorem framed_numbered (seqNo : UInt32) : (numbered seqNo).Framed := by
  obtain ⟨buffer, ran, cells⟩ := setSeqNo_heartBeat seqNo
  have width := BigEndian.length_toBytes 4 seqNo.toBitVec
  have is := congrArg Prod.fst (Option.get_of_eq_some (setSeqNo_isSome seqNo) ran)
  change (numbered seqNo).pkt = _ at is
  have start : (heartBeat.pkt.buf.buffer.cells.take 12).length = 12 := by decide
  have all : (heartBeat.pkt.buf.buffer.cells.take 12 ++ BigEndian.toBytes 4 seqNo.toBitVec).length = 16 := by
    rw [List.length_append, start, width]
  have bytes : (numbered seqNo).bytes = heartBeat.pkt.buf.buffer.cells.take 12 ++ BigEndian.toBytes 4 seqNo.toBitVec := by
    rw [HeapPkt.bytes, is]
    dsimp only
    rw [cells]
    exact List.take_left' all
  have offset : (numbered seqNo).pkt.buf.writeOffset = 16 := by
    rw [is]
    rfl
  unfold HeapPkt.Framed
  rw [bytes, offset]
  refine ClientConn.frameAt_packet_iff.mpr ⟨rfl, Nat.le_of_eq all.symm, ?_, ?_⟩
  · rw [wordAt_append (by omega)]
    decide
  · rw [wordAt_append (by omega)]
    decide

/-- The first round, cut into pieces: the server is busy after a part of its answer. -/
def firstRound : List Step :=
  [.send 7, .readable [⟨(numbered 1).bytes.take 7, by decide, by decide⟩] [], .send 9,
    .readable [⟨(numbered 1).bytes.drop 7, by decide, by decide⟩] [10, 0],
    .recvPacket [], .writable [6], .recvPacket [some 3]]

theorem lock_step_firstRound :
    ∃ p, runPartial (exec (fun i => numbered (UInt32.ofNat (i + 1))) 1) (start 1 (ClientConn.connectedTo [] []).conn)
        firstRound = some p ∧ LockStep (fun i => numbered (UInt32.ofNat (i + 1))) p :=
  lock_step (fun i => framed_numbered (UInt32.ofNat (i + 1))) 1 (by decide)
    (ClientConn.connected_connectedTo List.not_mem_nil) firstRound (by simp [firstRound, Step.Healthy])

end Pressure

end Netter
