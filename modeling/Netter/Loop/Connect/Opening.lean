import Netter.Loop.Connect.Model

/-!
# A connection that is being opened

Before its handle is in `conn_map` the new connection takes callbacks from the loop. As long as none
of them closes it, the call that handles an event leaves it where it was: the slot keeps its shape,
and no packet is left over.
-/

namespace Netter.Loop

open Lib

/-- Where the connection stands while `Connect` is under way. -/
structure Stand where
  state : SocketState
  handle : Option NetHandle
  inSocketMap : Bool
  inConnMap : Bool

/-- The slot of a connection that is not closed, with the references and the packets of the running calls. -/
inductive Opening (o : Stand) (e f n : Nat) : Slot → Prop where
  | mk (isOpen : Bool) : Opening o e f n
      ⟨.live ⟨o.state, .connCallback, e + 1⟩, .live ⟨o.handle, isOpen, n, f + 1⟩,
        o.inSocketMap, o.inConnMap, .zero, false⟩

/-- A loop that knows no other connection. -/
structure Opens (h : NetHandle) (o : Stand) (e f n : Nat) (w : World) : Prop where
  here : Opening o e f n (w.slot h)
  others : ∀ k, k ≠ h → Fit k 0 0 0 (w.slot k)
  pending : w.pending = []
  crossings : w.crossings = []
  dispatched : w.dispatched = []

variable {h : NetHandle} {o : Stand} {e f n : Nat} {s : Slot} {w : World}

theorem Opening.eq (here : Opening o e f n s) : ∃ isOpen, s =
    ⟨.live ⟨o.state, .connCallback, e + 1⟩, .live ⟨o.handle, isOpen, n, f + 1⟩,
      o.inSocketMap, o.inConnMap, .zero, false⟩ := by
  obtain ⟨isOpen⟩ := here
  exact ⟨isOpen, rfl⟩

theorem Opens.socket_live (opens : Opens h o e f n w) : (w.slot h).socket = .live ⟨o.state, .connCallback, e + 1⟩ := by
  obtain ⟨isOpen, is⟩ := opens.here.eq
  rw [is]

theorem Opens.conn_live (opens : Opens h o e f n w) :
    ∃ isOpen, (w.slot h).conn = .live ⟨o.handle, isOpen, n, f + 1⟩ := by
  obtain ⟨isOpen, is⟩ := opens.here.eq
  rw [is]
  exact ⟨isOpen, rfl⟩

/-- A call on the slot of the new connection. -/
theorem Opens.call {α : Type} {op : SlotM α} {o' : Stand} {e' f' n' : Nat} (opens : Opens h o e f n w)
    (spec : ∀ s, Opening o e f n s → wp op (fun _ t => Opening o' e' f' n' t) Never s) :
    wp (atSlot h op) (fun _ => Opens h o' e' f' n') Never w := by
  unfold atSlot
  rw [wp_zoom]
  refine (spec _ opens.here).call fun _ t post => ⟨?_, ?_, opens.pending, opens.crossings, opens.dispatched⟩
  · rw [World.setSlot_slot]
    exact post
  · intro k other
    rw [World.setSlot_slot_ne w t other]
    exact opens.others k other

theorem socketAddRef_opening (here : Opening o e f n s) :
    wp socketAddRef (fun _ t => Opening o (e + 1) f n t) Never s := by
  obtain ⟨isOpen⟩ := here
  exact ⟨isOpen⟩

theorem socketReleaseRef_opening (here : Opening o (e + 1) f n s) :
    wp socketReleaseRef (fun _ t => Opening o e f n t) Never s := by
  obtain ⟨isOpen⟩ := here
  exact ⟨isOpen⟩

theorem connAddRef_opening (here : Opening o e f n s) :
    wp connAddRef (fun _ t => Opening o e (f + 1) n t) Never s := by
  obtain ⟨isOpen⟩ := here
  exact ⟨isOpen⟩

theorem connReleaseRef_opening (here : Opening o e (f + 1) n s) :
    wp connReleaseRef (fun _ t => Opening o e f n t) Never s := by
  obtain ⟨isOpen⟩ := here
  exact ⟨isOpen⟩

theorem setState_opening (state : SocketState) (here : Opening o e f n s) :
    wp (setState state) (fun _ t => Opening { o with state } e f n t) Never s := by
  obtain ⟨isOpen⟩ := here
  exact ⟨isOpen⟩

theorem setUnparsed_opening (m : Nat) (here : Opening o e f n s) :
    wp (setUnparsed m) (fun _ t => Opening o e f m t) Never s := by
  obtain ⟨isOpen⟩ := here
  exact ⟨isOpen⟩

theorem connSend_opening (here : Opening o e f n s) : wp connSend (fun _ t => Opening o e f n t) Never s := by
  obtain ⟨isOpen⟩ := here
  cases isOpen with
  | true => exact ⟨true⟩
  | false => exact ⟨false⟩

theorem connRecvData_opening (here : Opening o e f n s) :
    wp (connRecvData false) (fun _ t => Opening o e f n t) Never s := by
  obtain ⟨isOpen⟩ := here
  exact ⟨isOpen⟩

theorem connOnConfirm_opening (sends : Bool) (here : Opening o e f n s) :
    wp (connOnConfirm sends) (fun _ t => Opening o e f n t) Never s := by
  obtain ⟨isOpen⟩ := here
  cases sends with
  | true => exact ⟨true⟩
  | false => exact ⟨true⟩

theorem connOnWrite_opening (sends : Bool) (here : Opening o e f n s) :
    wp (connOnWrite sends) (fun _ t => Opening o e f n t) Never s := by
  obtain ⟨isOpen⟩ := here
  cases sends with
  | true => exact ⟨isOpen⟩
  | false => exact ⟨isOpen⟩

/-- Without a handle `Close` does nothing. -/
theorem close_opens (unassigned : o.handle = none) (opens : Opens h o e f n w) :
    wp (close h) (fun _ => Opens h o e f n) Never w := by
  obtain ⟨isOpen, live⟩ := opens.conn_live
  have passes : wp connClose (fun closed t => closed = false ∧ t = w.slot h) Never (w.slot h) := by
    simp only [connClose, derefConn, live, unassigned, Cell.get, wp_bind, wp_get, wp_ofExcept_ok, Option.isNone_none,
      if_true, wp_pure, and_self]
  unfold close atSlot
  rw [wp_bind, wp_zoom]
  refine passes.call fun closed t post => ?_
  rw [post.1, post.2, World.setSlot_self, if_neg Bool.false_ne_true]
  exact opens

theorem closeHandle_opens (outside : o.inConnMap = false) (opens : Opens h o e f n w) :
    wp (closeHandle h) (fun _ => Opens h o e f n) Never w := by
  obtain ⟨isOpen, is⟩ := opens.here.eq
  have unlisted : (w.slot h).inConnMap = false := by rw [is, ← outside]
  unfold closeHandle
  rw [wp_bind, wp_get, wp_ite, unlisted, if_neg Bool.false_ne_true]
  exact opens

/-! ## Callbacks before the insertion -/

theorem act_opens (a : Act) (own : a.own h = true) (spares : o.handle = none ∨ a ≠ .close)
    (outside : o.inConnMap = false) (opens : Opens h o e f n w) :
    wp (act h a) (fun _ => Opens h o e f n) Never w := by
  cases a with
  | close => exact close_opens (spares.resolve_right fun other => other rfl) opens
  | send => exact opens.call fun _ => connSend_opening
  | closeHandle k =>
    obtain rfl : k = h := of_decide_eq_true own
    exact closeHandle_opens outside opens
  | connect k => cases own

theorem acts_opens (acts : List Act) (own : ∀ a ∈ acts, a.own h = true)
    (spares : o.handle = none ∨ Act.close ∉ acts) (outside : o.inConnMap = false) (opens : Opens h o e f n w) :
    wp (acts.forM (act h)) (fun _ => Opens h o e f n) Never w := by
  refine wp_forM (fun a member _ opens => ?_) opens
  refine act_opens a (own a member) (spares.imp_right fun none is => ?_) outside opens
  exact none (is ▸ member)

/-- Without a handle the loop ends after one packet. -/
theorem connParsePkt_unassigned (malformed : Bool) {pkts : List PktScript} (one : pkts.length ≤ 1)
    (own : ∀ pkt ∈ pkts, ∀ a ∈ pkt.acts, a.own h = true) (unassigned : o.handle = none)
    (outside : o.inConnMap = false) (opens : Opens h o e f pkts.length w) :
    wp (connParsePkt h malformed pkts) (fun _ => Opens h o e f 0) Never w := by
  cases pkts with
  | nil =>
    cases malformed with
    | true => exact close_opens unassigned opens
    | false => exact opens
  | cons pkt rest =>
    obtain rfl : rest = [] := List.eq_nil_of_length_eq_zero (Nat.le_zero.mp (Nat.le_of_succ_le_succ one))
    unfold connParsePkt
    rw [wp_bind]
    refine (opens.call fun _ => setUnparsed_opening 0).call fun _ w opens => ?_
    rw [wp_bind]
    refine (acts_opens pkt.acts (own pkt List.mem_cons_self) (.inl unassigned) outside opens).call
      fun _ w opens => ?_
    rw [wp_ite]
    split
    · exact close_opens unassigned opens
    · obtain ⟨isOpen, live⟩ := opens.conn_live
      rw [wp_bind, wp_atSlot_derefConn live, unassigned]
      exact opens

/-- With a handle it goes through all of them, as long as nothing closes the connection. -/
theorem connParsePkt_assigned (pkts : List PktScript) (own : ∀ pkt ∈ pkts, ∀ a ∈ pkt.acts, a.own h = true)
    (spares : ∀ pkt ∈ pkts, pkt.throws = false ∧ Act.close ∉ pkt.acts) (assigned : o.handle = some h)
    (outside : o.inConnMap = false) (opens : Opens h o e f pkts.length w) :
    wp (connParsePkt h false pkts) (fun _ => Opens h o e f 0) Never w := by
  induction pkts generalizing w with
  | nil => exact opens
  | cons pkt pkts ih =>
    obtain ⟨throws, acts⟩ := spares pkt List.mem_cons_self
    unfold connParsePkt
    rw [wp_bind]
    refine (opens.call fun _ => setUnparsed_opening pkts.length).call fun _ w opens => ?_
    rw [wp_bind]
    refine (acts_opens pkt.acts (own pkt List.mem_cons_self) (.inr acts) outside opens).call fun _ w opens => ?_
    obtain ⟨isOpen, live⟩ := opens.conn_live
    rw [throws, if_neg Bool.false_ne_true, wp_bind, wp_atSlot_derefConn live, assigned]
    exact ih (fun pkt member => own pkt (List.mem_cons_of_mem _ member))
      (fun pkt member => spares pkt (List.mem_cons_of_mem _ member)) opens

/-- A message that does not close the connection. -/
def Msg.Spares (h : NetHandle) (handle : Option NetHandle) : Msg → Prop
  | .confirm _ => True
  | .write _ => True
  | .close => False
  | .timer timedOut => handle = none ∨ timedOut = false
  | .read reading => reading.peerClosed = false ∧ (∀ pkt ∈ reading.pkts, ∀ a ∈ pkt.acts, a.own h = true) ∧
      (handle = none ∧ reading.pkts.length ≤ 1 ∨
        handle = some h ∧ reading.malformed = false ∧
          ∀ pkt ∈ reading.pkts, pkt.throws = false ∧ Act.close ∉ pkt.acts)

theorem handleMsg_opens (msg : Msg) (spares : msg.Spares h o.handle) (outside : o.inConnMap = false)
    (opens : Opens h o e f 0 w) : wp (handleMsg h msg) (fun _ => Opens h o e f 0) Never w := by
  cases msg with
  | confirm sends => exact opens.call fun _ => connOnConfirm_opening sends
  | write sends => exact opens.call fun _ => connOnWrite_opening sends
  | close => exact spares.elim
  | timer timedOut =>
    cases timedOut with
    | false => exact opens
    | true => exact close_opens (spares.resolve_right nofun) opens
  | read reading =>
    obtain ⟨noFin, own, spares⟩ := spares
    unfold handleMsg
    rw [wp_bind, noFin]
    refine (opens.call fun _ => connRecvData_opening).call fun _ w opens => ?_
    rw [wp_bind]
    refine (opens.call fun _ => setUnparsed_opening reading.pkts.length).call fun _ w opens => ?_
    rcases spares with ⟨unassigned, one⟩ | ⟨assigned, wellFormed, spares⟩
    · exact connParsePkt_unassigned reading.malformed one own unassigned outside opens
    · rw [wellFormed]
      exact connParsePkt_assigned reading.pkts own spares assigned outside opens

theorem callback_opens (msg : Msg) {after : List Act} (spares : msg.Spares h o.handle)
    (own : ∀ a ∈ after, a.own h = true) (spared : o.handle = none ∨ Act.close ∉ after)
    (outside : o.inConnMap = false) (opens : Opens h o e 0 0 w) :
    wp (callback h msg after) (fun _ => Opens h o e 0 0) Never w := by
  unfold callback
  rw [wp_bind, wp_atSlot_derefSocket opens.socket_live]
  unfold connCallback
  rw [wp_bind]
  refine (opens.call fun _ => connAddRef_opening).call fun _ w opens => ?_
  rw [wp_bind]
  refine (handleMsg_opens msg spares outside opens).call fun _ w opens => ?_
  rw [wp_bind]
  refine (acts_opens after own spared outside opens).call fun _ w opens => ?_
  exact opens.call fun _ => connReleaseRef_opening

theorem socketOnRead_opens (input : Input) (avail : input.avail = true)
    (spares : (Msg.read input.reading).Spares h o.handle) (own : ∀ a ∈ input.afterRead, a.own h = true)
    (spared : o.handle = none ∨ Act.close ∉ input.afterRead) (calm : Calm o.state) (outside : o.inConnMap = false)
    (opens : Opens h o e 0 0 w) : wp (socketOnRead h input) (fun _ => Opens h o e 0 0) Never w := by
  have connects : o.state ≠ .listening := calm.not_listening
  have running : o.state ≠ .peerClosing := by rcases calm with is | is <;> rw [is] <;> nofun
  unfold socketOnRead
  rw [wp_bind, wp_atSlot_derefSocket opens.socket_live, wp_ite, if_neg connects, wp_ite,
    if_neg (fun none => none avail), wp_bind]
  refine (callback_opens (.read input.reading) spares own spared outside opens).call fun _ w opens => ?_
  rw [wp_bind, wp_atSlot_derefSocket opens.socket_live, wp_ite, if_neg running]
  exact opens

theorem socketOnWrite_opens (output : Output)
    (noClose : o.state = .connecting → output.error = false ∧ output.tcpLoop = false)
    (own : ∀ a ∈ output.after, a.own h = true) (spared : o.handle = none ∨ Act.close ∉ output.after)
    (calm : Calm o.state) (outside : o.inConnMap = false) (opens : Opens h o e 0 0 w) :
    wp (socketOnWrite h output) (fun _ => Opens h { o with state := .connected } e 0 0) Never w := by
  unfold socketOnWrite
  rw [wp_bind, wp_atSlot_derefSocket opens.socket_live]
  rcases calm with connecting | connected
  · obtain ⟨noError, noLoop⟩ := noClose connecting
    rw [connecting, noError, noLoop, if_neg Bool.false_ne_true, if_neg Bool.false_ne_true, wp_bind]
    refine (opens.call fun _ => setState_opening .connected).call fun _ w opens => ?_
    exact callback_opens (.confirm output.sends) trivial own spared outside opens
  · have same : { o with state := .connected } = o := by
      obtain ⟨state, handle, inSocketMap, inConnMap⟩ := o
      cases connected
      rfl
    rw [connected, same]
    exact callback_opens (.write output.sends) trivial own spared outside opens

/-- An entry whose callbacks do not close the connection. -/
structure Ready.Spares (h : NetHandle) (o : Stand) (ready : Ready) : Prop where
  own : ready.own h = true
  noClose : ready.NoClose (o.state = .connecting)
  spares : o.handle = none ∧ ready.OnePkt ∨ o.handle = some h ∧ ready.NoCall

theorem Ready.Spares.acts_own {ready : Ready} (spares : ready.Spares h o) : ∀ a ∈ ready.acts, a.own h = true := by
  have own := spares.own
  simp only [Ready.own, Bool.and_eq_true, List.all_eq_true, List.mem_append] at own
  exact fun a member => own.2 a (.inl member)

theorem Ready.Spares.acts_spared {ready : Ready} (spares : ready.Spares h o) :
    o.handle = none ∨ Act.close ∉ ready.acts := by
  rcases spares.spares with none | some
  · exact .inl none.1
  · exact .inr some.2.acts

theorem Ready.Spares.handle {ready : Ready} (spares : ready.Spares h o) : ready.handle = h := by
  have own := spares.own
  simp only [Ready.own, Bool.and_eq_true] at own
  exact of_decide_eq_true own.1

theorem Ready.mem_acts_of_pkt {ready : Ready} {input : Input} (is : ready.input = some input) {pkt : PktScript}
    (member : pkt ∈ input.reading.pkts) {a : Act} (acts : a ∈ pkt.acts) : a ∈ ready.acts := by
  simp only [Ready.acts, is, Option.map_some, Option.getD_some, List.mem_append, List.mem_flatMap]
  exact .inl (.inl ⟨pkt, member, acts⟩)

theorem Ready.mem_acts_of_afterRead {ready : Ready} {input : Input} (is : ready.input = some input) {a : Act}
    (member : a ∈ input.afterRead) : a ∈ ready.acts := by
  simp only [Ready.acts, is, Option.map_some, Option.getD_some, List.mem_append]
  exact .inl (.inr member)

theorem Ready.mem_acts_of_after {ready : Ready} {output : Output} (is : ready.output = some output) {a : Act}
    (member : a ∈ output.after) : a ∈ ready.acts := by
  simp only [Ready.acts, is, Option.map_some, Option.getD_some, List.mem_append]
  exact .inr member

theorem Ready.Spares.reading {ready : Ready} {input : Input} (spares : ready.Spares h o)
    (is : ready.input = some input) : (Msg.read input.reading).Spares h o.handle := by
  refine ⟨(spares.noClose.input input is).2, fun pkt member a acts => ?_, ?_⟩
  · exact spares.acts_own a (Ready.mem_acts_of_pkt is member acts)
  · rcases spares.spares with ⟨unassigned, one⟩ | ⟨assigned, noCall⟩
    · exact .inl ⟨unassigned, one input is⟩
    · refine .inr ⟨assigned, noCall.malformed input is, fun pkt member => ⟨noCall.throws input is pkt member, ?_⟩⟩
      exact fun acts => noCall.acts (Ready.mem_acts_of_pkt is member acts)

theorem dispatch_opens {ready : Ready} (spares : ready.Spares h o) (calm : Calm o.state)
    (outside : o.inConnMap = false) (opens : Opens h o 0 0 0 w) :
    wp (dispatch ready) (fun _ w => ∃ state, Calm state ∧ Opens h { o with state } 0 0 0 w) Never w := by
  unfold dispatch
  rw [spares.handle, wp_bind]
  refine (opens.call fun _ => socketAddRef_opening).call fun _ w opens => ?_
  rw [wp_bind]
  refine wp.call (wp_option_forM (fun input is => ?_) opens) fun _ w opens => ?_
  · exact socketOnRead_opens input (spares.noClose.input input is).1 (spares.reading is)
      (fun a member => spares.acts_own a (Ready.mem_acts_of_afterRead is member))
      (spares.acts_spared.imp_right fun none member => none (Ready.mem_acts_of_afterRead is member))
      calm outside opens
  rw [spares.noClose.hup]
  cases is : ready.output with
  | none => exact (opens.call fun _ => socketReleaseRef_opening).call fun _ w opens => ⟨o.state, calm, opens⟩
  | some output =>
    have written : wp (socketOnWrite h output) (fun _ => Opens h { o with state := .connected } 1 0 0) Never w :=
      socketOnWrite_opens output (fun connecting => spares.noClose.output output is (decide_eq_true connecting))
        (fun a member => spares.acts_own a (Ready.mem_acts_of_after is member))
        (spares.acts_spared.imp_right fun none member => none (Ready.mem_acts_of_after is member))
        calm outside opens
    rw [wp_bind]
    refine written.call fun _ w opens => ?_
    exact (opens.call fun _ => socketReleaseRef_opening).call fun _ w opens => ⟨.connected, .inr rfl, opens⟩

theorem visit_opens {timedOut : Bool} {closes : Nat} (spares : o.handle = none ∨ timedOut = false ∧ closes = 0)
    (calm : Calm o.state) (outside : o.inConnMap = false) (opens : Opens h o 0 0 0 w) :
    wp (visit ⟨h, timedOut, closes⟩) (fun _ => Opens h o 0 0 0) Never w := by
  have connects : o.state ≠ .listening := calm.not_listening
  unfold visit
  rw [wp_bind, wp_get, wp_ite]
  split
  · unfold socketOnTimer
    rw [wp_bind, wp_atSlot_derefSocket opens.socket_live, wp_ite, if_pos connects]
    refine callback_opens (.timer timedOut) (spares.imp_right And.left) (fun a member => ?_)
      (spares.imp_right fun none member => ?_) outside opens
    · rw [List.eq_of_mem_replicate member]
      rfl
    · rw [none.2] at member
      cases member
  · exact opens

theorem sendPosted_opens (opens : Opens h o 0 0 0 w) : wp (sendPosted h) (fun _ => Opens h o 0 0 0) Never w := by
  unfold sendPosted
  rw [wp_bind, wp_get, wp_ite]
  split
  · exact opens.call fun _ => connSend_opening
  · exact opens

end Netter.Loop
