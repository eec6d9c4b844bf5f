import Netter.Link.Party

/-!
# Delivery

Every packet that is posted or sent at one side is handled at the other, in order and once, whatever the kernel cuts
the stream into and however little of it it takes at a time. A side owes its peer the bytes of what it was handed; what it
has not sent yet is in its backlog or, before the `CONFIRM`, in its wait list.
-/

namespace Netter

open Lib PktBase BaseConn

namespace BaseConn

variable {s t : ConnState} {a : Account} {pkts : List HeapPkt}

/-- The account of a connection whose accepted bytes are where they have to be. -/
def Account.of (s : ConnState) : Account :=
  ⟨s.conn.handle, s.conn.isOpen, s.conn.waitPktList, s.socket.sent ++ s.conn.outBuf.content⟩

theorem Flow.own (flow : Flow s a) : Flow s (.of s) :=
  ⟨rfl, rfl, rfl, flow.wf, flow.front, flow.busy, rfl, flow.small⟩

/-- All that has been accepted or waits. -/
def owed (s : ConnState) : List UInt8 := s.socket.sent ++ s.conn.outBuf.content ++ encode s.conn.waitPktList

/-- Before the `CONFIRM` nothing has been accepted, and after it nothing waits. -/
inductive Phase (s : ConnState) : Prop where
  | waiting (state : s.socket.state = .connecting) (shut : s.conn.isOpen = false)
      (none : s.socket.sent ++ s.conn.outBuf.content = [])
  | running (state : s.socket.state = .connected) (isOpen : s.conn.isOpen = true) (none : s.conn.waitPktList = [])

/-- What is known of the sending side of a connection between two calls. -/
structure Sender (s : ConnState) : Prop where
  flow : Flow s (.of s)
  phase : Phase s

/-- A call at a side that hands these packets over. -/
structure Hands (s t : ConnState) (pkts : List HeapPkt) : Prop where
  sender : Sender t
  owed : owed t = owed s ++ encode pkts
  sent : s.socket.sent <+: t.socket.sent
  opened : s.conn.isOpen = true → t.conn.isOpen = true

/-- A call that leaves the receiving side alone. -/
structure Quiet (s t : ConnState) : Prop where
  trace : t.trace = s.trace
  reading : ∀ {seen rest}, Reading s seen rest → Reading t seen rest

theorem Sending.quiet (sending : Sending s t) : Quiet s t :=
  ⟨sending.trace, fun reading => reading.of_sending sending⟩

/-- Packets have been accepted on an open connection. -/
theorem Sender.accepts (sender : Sender s) (isOpen : s.conn.isOpen = true) (state : t.socket.state = s.socket.state)
    (flow : Flow t { Account.of s with accepted := (Account.of s).accepted ++ encode pkts })
    (sent : s.socket.sent <+: t.socket.sent) : Hands s t pkts := by
  cases sender.phase with
  | waiting _ shut _ => rw [isOpen] at shut; cases shut
  | running running _ none =>
    have still : t.conn.waitPktList = [] := flow.waiting.trans none
    have opened : t.conn.isOpen = true := flow.isOpen.trans isOpen
    refine ⟨⟨flow.own, .running (state.trans running) opened still⟩, ?_, sent, fun _ => opened⟩
    have stream : t.socket.sent ++ t.conn.outBuf.content = _ := flow.stream
    rw [owed, owed, stream, still, none, encode_nil, List.append_nil, List.append_nil]
    rfl

/-- A posted packet is sent, or waits for the `CONFIRM`. -/
theorem sendPktByHandle_wp {pkt : HeapPkt} (sender : Sender s) (fits : Fits s pkt.bytes) :
    wp (sendPktByHandle pkt) (fun _ t => Hands s t [pkt] ∧ Quiet s t) Never s := by
  have single : encode [pkt] = pkt.bytes := by rw [encode_cons, encode_nil, List.append_nil]
  simp only [sendPktByHandle, wp_bind, wp_get, wp_ite]
  split
  · rename_i isOpen
    rw [wp_discard]
    refine ((sendPkt_wp sender.flow fits).and (sending_sendPkt pkt.pkt s (Sending.refl s))).mono ?_
      (fun _ _ impossible => impossible.1)
    rintro r t ⟨⟨-, flow⟩, sending⟩
    have open' : (Account.of s).isOpen = true := isOpen
    rw [Account.send, if_pos open', ← single] at flow
    exact ⟨sender.accepts isOpen sending.state flow sending.sent, sending.quiet⟩
  · rename_i shut
    simp only [addToWaitPktList, wp_modify]
    obtain ⟨flow, phase⟩ := sender
    refine ⟨⟨⟨?_, ?_⟩, ?_, List.prefix_rfl, id⟩, rfl, fun reading => ?_⟩
    · exact ⟨rfl, rfl, rfl, flow.wf, flow.front, flow.busy, rfl, flow.small⟩
    · cases phase with
      | waiting state shut none => exact .waiting state shut none
      | running _ isOpen _ => exact absurd isOpen shut
    · show _ ++ encode (s.conn.waitPktList ++ [pkt]) = _
      rw [encode_append, ← List.append_assoc]
      rfl
    · obtain ⟨⟨registered, seen', clean, wf, queue⟩, front, noFin⟩ := reading
      exact ⟨⟨registered, seen', clean, wf, queue⟩, front, noFin⟩

/-- The `CONFIRM` sends what has waited. -/
theorem onConfirm_hands (flow : Flow s (.of s)) (state : s.socket.state = .connected)
    (room : s.conn.outBuf.content.length + (encode s.conn.waitPktList).length < 2 ^ 31) :
    wp onConfirm (fun _ t => Hands s t [] ∧ Sending s t) Never s := by
  have opened : Flow { s with conn := { s.conn with isOpen := true } } { Account.of s with isOpen := true } :=
    ⟨flow.handle, rfl, flow.waiting, flow.wf, flow.front, flow.busy, flow.stream, flow.small⟩
  have fits : SendCall.onConfirm.Fits s := opened.fitsAll rfl room
  refine ((onConfirm_wp flow fits).and (sending_onConfirm s (Sending.refl s))).mono ?_
    (fun _ _ impossible => impossible.1)
  rintro - t ⟨flow', sending⟩
  have none : t.conn.waitPktList = [] := flow'.waiting
  refine ⟨⟨⟨flow'.own, .running (sending.state.trans state) flow'.isOpen none⟩, ?_, sending.sent, fun _ => flow'.isOpen⟩,
    sending⟩
  have stream : t.socket.sent ++ t.conn.outBuf.content = _ := flow'.stream
  rw [owed, owed, stream, none, encode_nil, List.append_nil, List.append_nil]
  rfl

theorem socketOnWrite_wp (sender : Sender s)
    (room : s.conn.outBuf.content.length + (encode s.conn.waitPktList).length < 2 ^ 31) :
    wp socketOnWrite (fun _ t => Hands s t [] ∧ Quiet s t) Never s := by
  obtain ⟨flow, phase⟩ := sender
  simp only [socketOnWrite, wp_bind, wp_get]
  cases phase with
  | waiting state shut none =>
    rw [state]
    simp only [wp_bind, wp_modify]
    have connected : Flow { s with socket := { s.socket with state := .connected } } (.of s) :=
      ⟨flow.handle, flow.isOpen, flow.waiting, flow.wf, flow.front, flow.busy, flow.stream, flow.small⟩
    refine wp.call (onConfirm_hands connected rfl room) ?_
    rintro - t ⟨⟨sender, owed, sent, opened⟩, sending⟩
    refine ⟨⟨sender, owed, sent, opened⟩, sending.trace, fun reading => ?_⟩
    have same : Reading { s with socket := { s.socket with state := .connected } } _ _ :=
      ⟨⟨reading.stands.registered, reading.stands.seen, reading.stands.clean, reading.stands.wf, reading.stands.queue⟩,
        reading.front, reading.noFin⟩
    exact same.of_sending sending
  | running state isOpen none =>
    rw [state]
    refine ((onWrite_wp flow).and (sending_onWrite s (Sending.refl s))).mono ?_ (fun _ _ impossible => impossible.1)
    rintro - t ⟨flow', sending⟩
    refine ⟨Sender.accepts ⟨flow, .running state isOpen none⟩ isOpen sending.state ?_ sending.sent, sending.quiet⟩
    rw [encode_nil, List.append_nil]
    exact flow'

/-- An `OnRead` hands over the answers to the packets it handles. -/
theorem onRead_hands (reply : Received → List HeapPkt) {seen news : List Received} {rest rest' : List UInt8}
    (sender : Sender s) (reading : Reading s seen rest) (confirmed : news ≠ [] → s.conn.isOpen = true)
    (next : Frames (rest ++ chunkBytes s.socket.recvs) news rest')
    (small : rest.length + (chunkBytes s.socket.recvs).length ≤ 2 ^ 31)
    (room : s.conn.outBuf.content.length + (encode (news.flatMap reply)).length < 2 ^ 31) :
    wp (onReadWith (answer reply)) (fun _ t => Hands s t (news.flatMap reply) ∧ Reading t (seen ++ news) rest') Never s := by
  refine wp.call (onReadWith_wp reply reading sender.flow confirmed next small room) ?_
  rintro - t ⟨reading', flow, sent, state⟩
  refine ⟨?_, reading'⟩
  cases sender.phase with
  | running running isOpen none => exact sender.accepts isOpen state flow sent
  | waiting waiting shut none =>
    obtain rfl : news = [] := by
      by_contra some
      have isOpen := confirmed some
      rw [shut] at isOpen
      cases isOpen
    rw [List.flatMap_nil, encode_nil, List.append_nil] at flow
    have stream : t.socket.sent ++ t.conn.outBuf.content = _ := flow.stream
    have wait : t.conn.waitPktList = s.conn.waitPktList := flow.waiting
    refine ⟨⟨flow.own, .waiting (state.trans waiting) (flow.isOpen.trans shut) (stream.trans none)⟩, ?_, sent,
      fun isOpen => flow.isOpen.trans isOpen⟩
    rw [owed, owed, stream, wait, List.flatMap_nil, encode_nil, List.append_nil]
    rfl

end BaseConn

namespace Link

variable {l : Link} {side k : Side} {t : ConnState} {count : Nat} {pkts : List HeapPkt}

/-- What is known of a side between two steps. -/
structure SideInv (l : Link) (side : Side) : Prop where
  sender : Sender (l.conn side)
  owed : owed (l.conn side) = encode (l.handed side)
  framed : ∀ pkt ∈ l.handed side, pkt.Framed
  taken : l.taken side ≤ (l.conn side.other).socket.sent.length
  reading : ∃ rest, Reading (l.conn side) (packets (l.conn side).trace) rest ∧
    Frames ((l.conn side.other).socket.sent.take (l.taken side)) (packets (l.conn side).trace) rest

def Inv (l : Link) : Prop := ∀ side, SideInv l side

@[simp] theorem update_conn : (l.update side t count pkts).conn k = if k = side then t else l.conn k := rfl

@[simp] theorem update_taken :
    (l.update side t count pkts).taken k = if k = side then l.taken k + count else l.taken k := rfl

@[simp] theorem update_handed :
    (l.update side t count pkts).handed k = if k = side then l.handed k ++ pkts else l.handed k := rfl

theorem other_ne (side : Side) : side.other ≠ side := by cases side <;> decide

/-- What the kernel had accepted is not changed by what it accepts later. -/
theorem take_of_grown {sent sent' : List UInt8} {n : Nat} (grown : sent <+: sent') (inside : n ≤ sent.length) :
    sent'.take n = sent.take n := by
  obtain ⟨more, rfl⟩ := grown
  exact List.take_append_of_le_length inside

/-- A call at one side keeps what is known of both. -/
theorem Inv.update (inv : l.Inv) (hands : Hands (l.conn side) t pkts) (framed : ∀ pkt ∈ pkts, pkt.Framed)
    (inside : l.taken side + count ≤ (l.conn side.other).socket.sent.length)
    (reading : ∃ rest, Reading t (packets t.trace) rest ∧
      Frames ((l.conn side.other).socket.sent.take (l.taken side + count)) (packets t.trace) rest) :
    (l.update side t count pkts).Inv := by
  intro k
  by_cases same : k = side
  · subst same
    have before := inv k
    constructor <;> simp only [update_conn, update_taken, update_handed, if_true, if_neg (other_ne k)]
    · exact hands.sender
    · rw [hands.owed, before.owed, encode_append]
    · intro pkt member
      exact (List.mem_append.mp member).elim (before.framed pkt) (framed pkt)
    · exact inside
    · exact reading
  · obtain rfl := Side.eq_other_of_ne same
    have before := inv side.other
    have taken := before.taken
    have reading' := before.reading
    rw [Side.other_other] at taken reading'
    constructor <;> simp only [update_conn, update_taken, update_handed, if_neg same, Side.other_other, if_true]
    · exact before.sender
    · exact before.owed
    · exact before.framed
    · exact Nat.le_trans taken hands.sent.length_le
    · rw [take_of_grown hands.sent taken]
      exact reading'

/-- A call that throws nothing. -/
theorem call_some {recvs : List Chunk} {sends : List Int} {x : ConnM Unit} {Q : ConnState → Prop}
    (runs : wp x (fun _ => Q) Never (l.asked side recvs sends)) : ∃ t, l.call side recvs sends x = some t ∧ Q t := by
  obtain ⟨a, t, run, post⟩ := wp_never.mp runs
  exact ⟨t, by rw [call, run], post⟩

/-- The kernel's answers change nothing of a side yet. -/
theorem SideInv.asked (inv : SideInv l side) (recvs : List Chunk) (sends : List Int) :
    Sender (l.asked side recvs sends) ∧
      ∀ {seen rest}, Reading (l.conn side) seen rest → Reading (l.asked side recvs sends) seen rest := by
  obtain ⟨flow, phase⟩ := inv.sender
  refine ⟨⟨?_, ?_⟩, fun ⟨⟨registered, seen', clean, wf, queue⟩, front, noFin⟩ => ?_⟩
  · exact ⟨flow.handle, flow.isOpen, flow.waiting, flow.wf, flow.front, flow.busy, flow.stream, flow.small⟩
  · cases phase with
    | waiting state shut none => exact .waiting state shut none
    | running state isOpen none => exact .running state isOpen none
  · exact ⟨⟨registered, seen', clean, wf, queue⟩, front, noFin⟩

/-! ## Steps -/

/-- What a side's packets and events become. -/
structure Effect (l l' : Link) (side : Side) (pkts : List HeapPkt) (news : List Received) : Prop where
  handed : ∀ k, l'.handed k = if k = side then l.handed k ++ pkts else l.handed k
  handled : ∀ k, packets (l'.conn k).trace =
    if k = side then packets (l.conn k).trace ++ news else packets (l.conn k).trace
  opened : ∀ k, (l.conn k).conn.isOpen = true → (l'.conn k).conn.isOpen = true
  taken : ∀ k, l.taken k ≤ l'.taken k
  sent : ∀ k, (l.conn k).socket.sent <+: (l'.conn k).socket.sent

theorem Effect.of_update {news : List Received} (handled : packets t.trace = packets (l.conn side).trace ++ news)
    (opened : (l.conn side).conn.isOpen = true → t.conn.isOpen = true)
    (sent : (l.conn side).socket.sent <+: t.socket.sent) : Effect l (l.update side t count pkts) side pkts news := by
  constructor
  · exact fun _ => rfl
  · intro k
    rw [update_conn]
    split
    · rename_i same
      rw [same, handled]
    · rfl
  · intro k
    rw [update_conn]
    split
    · rename_i same
      rw [same]
      exact opened
    · exact id
  · intro k
    rw [update_taken]
    split
    · exact Nat.le_add_right _ _
    · exact Nat.le_refl _
  · intro k
    rw [update_conn]
    split
    · rename_i same
      rw [same]
      exact sent
    · exact List.prefix_rfl

/-- The bytes a side has accepted are a front part of those of its packets. -/
theorem SideInv.sent_front (inv : SideInv l side) : (l.conn side).socket.sent <+: encode (l.handed side) := by
  rw [← inv.owed, BaseConn.owed, List.append_assoc]
  exact List.prefix_append _ _

variable (reply : Side → Received → List HeapPkt)

/-- What a step needs: room, and the `CONFIRM` before a complete packet. -/
def Meets (l : Link) : LinkStep → Prop
  | .post side pkt _ => pkt.Framed ∧ Fits (l.conn side) pkt.bytes
  | .readable side recvs _ => chunkBytes recvs <+: l.inFlight side →
    (l.conn side).conn.inBuf.content.length + (chunkBytes recvs).length ≤ 2 ^ 31 ∧
      ∀ news rest, Frames ((l.conn side).conn.inBuf.content ++ chunkBytes recvs) news rest →
        (news ≠ [] → (l.conn side).conn.isOpen = true) ∧
          (l.conn side).conn.outBuf.content.length + (encode (news.flatMap (reply side))).length < 2 ^ 31
  | .writable side _ =>
    (l.conn side).conn.outBuf.content.length + (encode (l.conn side).conn.waitPktList).length < 2 ^ 31

/-- A quiet call hands packets over and receives nothing. -/
theorem Inv.quiet (inv : l.Inv) {sends : List Int} (framed : ∀ pkt ∈ pkts, pkt.Framed)
    (hands : Hands (l.asked side [] sends) t pkts) (quiet : Quiet (l.asked side [] sends) t) :
    (l.update side t 0 pkts).Inv ∧ Effect l (l.update side t 0 pkts) side pkts [] := by
  have trace : t.trace = (l.conn side).trace := quiet.trace
  obtain ⟨rest, reading, frames⟩ := (inv side).reading
  constructor
  · refine inv.update ⟨hands.sender, hands.owed, hands.sent, hands.opened⟩ framed (inv side).taken ⟨rest, ?_, ?_⟩
    · rw [trace]
      exact quiet.reading (((inv side).asked [] sends).2 reading)
    · rw [trace]
      exact frames
  · refine .of_update ?_ hands.opened hands.sent
    rw [trace, List.append_nil]

theorem post_step (inv : l.Inv) {pkt : HeapPkt} {sends : List Int} (meets : l.Meets reply (.post side pkt sends)) :
    ∃ l', l.exec reply (.post side pkt sends) = some l' ∧ l'.Inv ∧ Effect l l' side [pkt] [] := by
  obtain ⟨framed, fits⟩ := meets
  obtain ⟨t, called, hands, quiet⟩ := call_some (sendPktByHandle_wp ((inv side).asked [] sends).1 fits)
  refine ⟨l.update side t 0 [pkt], by rw [exec, called]; rfl, inv.quiet ?_ hands quiet⟩
  intro other member
  rw [List.mem_singleton.mp member]
  exact framed

theorem writable_step (inv : l.Inv) {sends : List Int} (meets : l.Meets reply (.writable side sends)) :
    ∃ l', l.exec reply (.writable side sends) = some l' ∧ l'.Inv ∧ Effect l l' side [] [] := by
  obtain ⟨t, called, hands, quiet⟩ := call_some (socketOnWrite_wp ((inv side).asked [] sends).1 meets)
  exact ⟨l.update side t 0 [], by rw [exec, called]; rfl, inv.quiet (by simp) hands quiet⟩

/-- What arrives is a front part of what the other side was handed. -/
theorem Inv.arrive (inv : l.Inv) {bytes : List UInt8} (flying : bytes <+: l.inFlight side) :
    l.taken side + bytes.length ≤ (l.conn side.other).socket.sent.length ∧
      ∃ news rest, Frames ((l.conn side).conn.inBuf.content ++ bytes) news rest ∧
        Frames ((l.conn side.other).socket.sent.take (l.taken side + bytes.length))
          (packets (l.conn side).trace ++ news) rest := by
  obtain ⟨waits, reading, frames⟩ := (inv side).reading
  have inside := (inv side).taken
  have more := flying.length_le
  rw [inFlight, List.length_drop] at more
  have arrived : (l.conn side.other).socket.sent.take (l.taken side + bytes.length) =
      (l.conn side.other).socket.sent.take (l.taken side) ++ bytes := by
    rw [List.take_add]
    congr 1
    exact List.prefix_iff_eq_take.mp flying |>.symm
  refine ⟨by omega, ?_⟩
  obtain ⟨n, rest, -, longer⟩ := frames_of_prefix (inv side.other).framed
    ((List.take_prefix (l.taken side + bytes.length) _).trans (inv side.other).sent_front)
  rw [arrived] at longer ⊢
  obtain ⟨news, first, next⟩ := frames.split longer
  rw [first] at longer
  rw [reading.stands.queue]
  exact ⟨news, rest, next, longer⟩

theorem readable_step (inv : l.Inv) (framed : ∀ side got, ∀ pkt ∈ reply side got, pkt.Framed) {recvs : List Chunk}
    {sends : List Int} (meets : l.Meets reply (.readable side recvs sends)) :
    ∃ l' news, l.exec reply (.readable side recvs sends) = some l' ∧ l'.Inv ∧
      Effect l l' side (news.flatMap (reply side)) news := by
  by_cases flying : chunkBytes recvs <+: l.inFlight side
  · obtain ⟨small, next⟩ := meets flying
    obtain ⟨inside, news, rest, frames, arrived⟩ := inv.arrive flying
    obtain ⟨confirmed, room⟩ := next news rest frames
    obtain ⟨waits, reading, -⟩ := (inv side).reading
    have queue := reading.stands.queue
    rw [queue] at small frames
    have asked := (inv side).asked recvs sends
    obtain ⟨t, called, hands, reading'⟩ :=
      call_some (onRead_hands (reply side) asked.1 (asked.2 reading) confirmed frames small room)
    have handled : packets t.trace = packets (l.conn side).trace ++ news := reading'.stands.seen
    have since : handledSince (l.conn side) t = news := by rw [handledSince, handled, List.drop_left]
    refine ⟨l.update side t (chunkBytes recvs).length (news.flatMap (reply side)), news, ?_, ?_,
      .of_update handled hands.opened hands.sent⟩
    · rw [exec, if_pos flying, called, Option.map_some, since]
    · refine inv.update ⟨hands.sender, hands.owed, hands.sent, hands.opened⟩ ?_ inside ⟨rest, ?_, ?_⟩
      · intro pkt member
        obtain ⟨got, -, sent⟩ := List.mem_flatMap.mp member
        exact framed side got pkt sent
      · rw [handled]
        exact reading'
      · rw [handled]
        exact arrived
  · refine ⟨l, [], by rw [exec, if_neg flying], inv, fun k => ?_, fun k => ?_, fun k => id, fun k => Nat.le_refl _,
      fun k => List.prefix_rfl⟩
    · simp
    · simp

/-- A step that has what it needs is defined and keeps what is known. -/
theorem Inv.exec (inv : l.Inv) (framed : ∀ side got, ∀ pkt ∈ reply side got, pkt.Framed) {step : LinkStep}
    (meets : l.Meets reply step) :
    ∃ l' pkts news, l.exec reply step = some l' ∧ l'.Inv ∧ Effect l l' step.side pkts news := by
  cases step with
  | post side pkt sends =>
    obtain ⟨l', ran, inv', effect⟩ := post_step reply inv meets
    exact ⟨l', _, _, ran, inv', effect⟩
  | readable side recvs sends =>
    obtain ⟨l', news, ran, inv', effect⟩ := readable_step reply inv framed meets
    exact ⟨l', _, _, ran, inv', effect⟩
  | writable side sends =>
    obtain ⟨l', ran, inv', effect⟩ := writable_step reply inv meets
    exact ⟨l', _, _, ran, inv', effect⟩

/-! ## Runs -/

theorem inv_start {handle : Side → NetHandle} (registered : ∀ side, handle side ≠ invalidHandle) :
    (start handle).Inv := by
  intro side
  have empty : Frames [] [] [] := .done frameAt_nil
  cases side with
  | client =>
    refine ⟨⟨Flow.own (Idle.flow ⟨rfl, rfl, rfl⟩), .waiting rfl rfl rfl⟩, rfl, by simp [start], Nat.le_refl _, [], ?_, empty⟩
    exact ⟨⟨registered .client, rfl, rfl, SimpleBuffer.wf_init, rfl⟩, rfl, rfl⟩
  | server =>
    refine ⟨⟨Flow.own (Idle.flow ⟨rfl, rfl, rfl⟩), .running rfl rfl rfl⟩, rfl, by simp [start], Nat.le_refl _, [], ?_, empty⟩
    exact ⟨⟨registered .server, rfl, rfl, SimpleBuffer.wf_init, rfl⟩, rfl, rfl⟩

/-- Nothing is on the way to a side, in the kernel or at its peer. -/
structure Drained (l : Link) (side : Side) : Prop where
  flying : l.inFlight side = []
  backlog : (l.conn side.other).conn.outBuf.content = []
  waiting : (l.conn side.other).conn.waitPktList = []

/-- What a side has handled is the front of what its peer was handed, and all of it when nothing is on the way. -/
theorem Inv.delivered (inv : l.Inv) (side : Side) :
    packets (l.conn side).trace <+: (l.handed side.other).map HeapPkt.received ∧
      (l.Drained side → packets (l.conn side).trace = (l.handed side.other).map HeapPkt.received) := by
  obtain ⟨rest, -, frames⟩ := (inv side).reading
  have peer := inv side.other
  constructor
  · obtain ⟨n, rest', -, arrived⟩ := frames_of_prefix peer.framed ((List.take_prefix (l.taken side) _).trans peer.sent_front)
    obtain ⟨same, -⟩ := frames.unique arrived
    rw [← same]
    exact (List.take_prefix n _).map _
  · rintro ⟨flying, backlog, waiting⟩
    have all : (l.conn side.other).socket.sent.take (l.taken side) = (l.conn side.other).socket.sent := by
      have whole := List.take_append_drop (l.taken side) (l.conn side.other).socket.sent
      rw [inFlight] at flying
      rw [flying, List.append_nil] at whole
      exact whole
    have sent : (l.conn side.other).socket.sent = encode (l.handed side.other) := by
      have owed := peer.owed
      rw [BaseConn.owed, backlog, waiting, encode_nil, List.append_nil, List.append_nil] at owed
      exact owed
    rw [all, sent] at frames
    exact (frames.unique (frames_encode peer.framed)).1.symm

/-- **Delivery.** In every run whose steps have room, nothing undefined happens, both connections stay registered and
refuse no packet, and each side has handled the first of the packets that its peer was handed, in order; when nothing is
on the way any more it has handled all of them. -/
theorem delivery (framed : ∀ side got, ∀ pkt ∈ reply side got, pkt.Framed) (handle : Side → NetHandle)
    (registered : ∀ side, handle side ≠ invalidHandle) (steps : List LinkStep)
    (meets : AlongPartial (fun l step => l.exec reply step) (fun l step => l.Meets reply step) (start handle) steps) :
    ∃ l, runPartial (fun l step => l.exec reply step) (start handle) steps = some l ∧ ∀ side,
      (l.conn side).conn.handle ≠ invalidHandle ∧ malformed (l.conn side).trace = false ∧
      packets (l.conn side).trace <+: (l.handed side.other).map HeapPkt.received ∧
      (l.Drained side → packets (l.conn side).trace = (l.handed side.other).map HeapPkt.received) := by
  have keep (l : Link) (step : LinkStep) (inv : l.Inv) (meets : l.Meets reply step) : ∃ l', l.exec reply step = some l' ∧ l'.Inv := by
    obtain ⟨l', -, -, ran, inv', -⟩ := Inv.exec reply inv framed meets
    exact ⟨l', ran, inv'⟩
  obtain ⟨l, ran, inv⟩ := runPartial_along keep (inv_start registered) meets
  refine ⟨l, ran, fun side => ?_⟩
  obtain ⟨rest, reading, -⟩ := (inv side).reading
  obtain ⟨front, all⟩ := inv.delivered side
  exact ⟨reading.stands.registered, reading.stands.clean, front, all⟩

end Link

end Netter
