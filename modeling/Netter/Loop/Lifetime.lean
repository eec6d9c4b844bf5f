import Netter.Loop.States

/-!
# One life for each connection

The invariant of the loop puts a `Fit` on every handle, with the references that the calls running at
the moment hold. Callbacks keep it whatever they do to their own connection and to others, and so
does every step of the loop: a run never uses a deleted object, and between two steps the two tables
agree with the connections that are open.
-/

namespace Netter.Loop

open Lib

variable {h : NetHandle} {e f n : Nat}

/-- What the running calls hold of each handle: the references to its socket and to its connection, and
the packets still to parse. -/
abbrev Held := NetHandle → Nat × Nat × Nat

/-- No call is running. -/
def quiet : Held := fun _ => (0, 0, 0)

/-- The calls that are running are about `h`. -/
def hold (h : NetHandle) (e f n : Nat) : Held := fun k => if k = h then (e, f, n) else (0, 0, 0)

theorem hold_self (h : NetHandle) : hold h e f n h = (e, f, n) := if_pos rfl

theorem hold_zero (h : NetHandle) : hold h 0 0 0 = quiet := by
  funext k
  exact ite_self _

/-- A handle that has a connection, which may be known to be closed. -/
structure Known where
  handle : NetHandle
  closed : Bool

/-- What is known stays true: a connection is not opened again. -/
structure Known.Holds (k : Known) (s : Slot) : Prop where
  made : s.conn.isAbsent = false
  unmapped : k.closed = true → s.inSocketMap = false

/-- The invariant of the loop. An entry that is still to be handled had a registered socket when it was
returned, and loses it only to a recorded close. `conns` is what is known of some of the connections. -/
structure Inv (held : Held) (entries : List NetHandle) (conns : List Known) (w : World) : Prop where
  fit : ∀ k, Fit k (held k).1 (held k).2.1 (held k).2.2 (w.slot k)
  pending : w.pending = entries
  used : ∀ k ∈ entries, (w.slot k).inSocketMap = true ∨ 0 < (w.slot k).tally.socketCloses
  crossings : w.crossings = [] ↔ ∀ k ∈ entries, (w.slot k).inSocketMap = true
  dispatched : ∀ d ∈ w.dispatched, d.2 = true
  known : ∀ k ∈ conns, k.Holds (w.slot k.handle)

/-- A property of every slot, shown for the one that changes and for the others. -/
theorem World.forall_setSlot {P : NetHandle → Slot → Prop} {w : World} {h : NetHandle} {t : Slot} (here : P h t)
    (others : ∀ k, k ≠ h → P k (w.slot k)) (k : NetHandle) : P k ((w.setSlot h t).slot k) := by
  by_cases at_h : k = h
  · subst at_h
    rw [World.setSlot_slot]
    exact here
  · rw [World.setSlot_slot_ne w t at_h]
    exact others k at_h

/-- What the change leaves as it was. -/
theorem World.setSlot_congr {α : Type} (field : Slot → α) {w : World} {h : NetHandle} {t : Slot}
    (same : field t = field (w.slot h)) (k : NetHandle) : field ((w.setSlot h t).slot k) = field (w.slot k) :=
  World.forall_setSlot (P := fun k s => field s = field (w.slot k)) same (fun _ _ => rfl) k

@[simp] theorem World.setSlot_self (w : World) (h : NetHandle) : w.setSlot h (w.slot h) = w := by
  have same : (fun k => if k = h then w.slot h else w.slot k) = w.slot := by
    funext k
    split
    · next at_h => rw [at_h]
    · rfl
  unfold World.setSlot
  rw [same]

theorem World.setSlot_setSlot (w : World) (h : NetHandle) (s t : Slot) :
    (w.setSlot h s).setSlot h t = w.setSlot h t := by
  have same : (fun k => if k = h then t else if k = h then s else w.slot k) =
      fun k => if k = h then t else w.slot k := by
    funext k
    split <;> rfl
  unfold World.setSlot
  rw [same]

variable {held : Held} {entries : List NetHandle} {conns : List Known} {w : World}

theorem hold_ne {k : NetHandle} (other : k ≠ h) : hold h e f n k = (0, 0, 0) := if_neg other

/-- A slot that changes under the running calls about it. -/
theorem Fit.setSlot {e' f' n' : Nat} {t : Slot}
    (fits : ∀ k, Fit k (hold h e f n k).1 (hold h e f n k).2.1 (hold h e f n k).2.2 (w.slot k))
    (fit : Fit h e' f' n' t) (k : NetHandle) :
    Fit k (hold h e' f' n' k).1 (hold h e' f' n' k).2.1 (hold h e' f' n' k).2.2 ((w.setSlot h t).slot k) := by
  revert k
  apply World.forall_setSlot
  · rw [hold_self]
    exact fit
  · intro k other
    have at_k := fits k
    rw [hold_ne other] at at_k ⊢
    exact at_k

theorem Inv.here (inv : Inv (hold h e f n) entries conns w) : Fit h e f n (w.slot h) := by
  have fit := inv.fit h
  rwa [hold_self] at fit

theorem Inv.setSlot {e' f' n' : Nat} (inv : Inv (hold h e f n) entries conns w) {t : Slot} (fit : Fit h e' f' n' t)
    (frame : Frame (w.slot h) t) : Inv (hold h e' f' n') entries conns (w.setSlot h t) := by
  have mapped := World.setSlot_congr (·.inSocketMap) frame.inSocketMap
  have closes := World.setSlot_congr (·.tally.socketCloses) frame.socketCloses
  have made := World.setSlot_congr (·.conn.isAbsent) frame.conn
  constructor
  · exact Fit.setSlot inv.fit fit
  · exact inv.pending
  · intro k member
    rw [mapped, closes]
    exact inv.used k member
  · simp only [mapped]
    exact inv.crossings
  · exact inv.dispatched
  · intro k member
    obtain ⟨before, closed⟩ := inv.known k member
    exact ⟨(made k.handle).trans before, fun isClosed => (mapped k.handle).trans (closed isClosed)⟩

/-- A call on the slot of the running calls. -/
theorem Inv.call {α : Type} {op : SlotM α} {e' f' n' : Nat} (inv : Inv (hold h e f n) entries conns w)
    (spec : wp op (fun _ t => Fit h e' f' n' t ∧ Frame (w.slot h) t) Never (w.slot h)) :
    wp (atSlot h op)
      (fun _ w' => Inv (hold h e' f' n') entries conns w' ∧ Frame (w.slot h) (w'.slot h)) Never w := by
  unfold atSlot
  rw [wp_zoom]
  refine spec.call fun _ t post => ⟨inv.setSlot post.1 post.2, ?_⟩
  rw [World.setSlot_slot]
  exact post.2

theorem wp_atSlot_derefSocket {socket : Socket} {Q : Socket → World → Prop} {E : Stop → World → Prop}
    (live : (w.slot h).socket = .live socket) : wp (atSlot h derefSocket) Q E w ↔ Q socket w := by
  simp only [atSlot, wp_zoom, derefSocket, live, Cell.get, wp_bind, wp_get, wp_ofExcept_ok, World.setSlot_self]

theorem wp_atSlot_derefConn {conn : Conn} {Q : Conn → World → Prop} {E : Stop → World → Prop}
    (live : (w.slot h).conn = .live conn) : wp (atSlot h derefConn) Q E w ↔ Q conn w := by
  simp only [atSlot, wp_zoom, derefConn, live, Cell.get, wp_bind, wp_get, wp_ofExcept_ok, World.setSlot_self]

/-! ## Closing and creating -/

/-- A connection that leaves the table takes its pending entry with it into the record. -/
theorem Inv.setClosed {closed : Bool} (inv : Inv held entries conns w) {t : Slot}
    (closes : Closes h (held h).1 (held h).2.1 (held h).2.2 closed t) :
    Inv held entries conns
      { w.setSlot h t with crossings := if h ∈ w.pending then w.crossings ++ [h] else w.crossings } := by
  have used := World.forall_setSlot (h := h)
    (P := fun k s => k ∈ entries → s.inSocketMap = true ∨ 0 < s.tally.socketCloses)
    (fun _ => .inr (closes.socketCloses ▸ Nat.one_pos)) fun k _ member => inv.used k member
  have known := World.forall_setSlot (h := h) (P := fun k s => ∀ known ∈ conns, known.handle = k → known.Holds s)
    (fun _ _ _ => ⟨closes.fit.conn_made closes.socketCloses, fun _ => closes.inSocketMap⟩)
    fun k _ known member at_k => at_k ▸ inv.known known member
  refine ⟨?_, inv.pending, used, ?_, inv.dispatched, fun k member => known k.handle k member rfl⟩
  · exact World.forall_setSlot closes.fit fun k _ => inv.fit k
  · rw [inv.pending]
    by_cases crossed : h ∈ entries
    · rw [if_pos crossed]
      refine ⟨fun none => absurd none (by simp), fun all => ?_⟩
      have mapped := all h crossed
      rw [World.setSlot_slot, closes.inSocketMap] at mapped
      cases mapped
    · rw [if_neg crossed, inv.crossings]
      refine forall₂_congr fun k member => ?_
      have other : k ≠ h := fun at_h => crossed (at_h ▸ member)
      rw [World.setSlot_slot_ne w t other]

/-- What `Close` leaves: the connection is in neither table. -/
def Gone (held : Held) (entries : List NetHandle) (conns : List Known) (h : NetHandle) (w : World) : Prop :=
  Inv held entries conns w ∧ (w.slot h).inSocketMap = false

theorem close_registered {s : Slot} (inv : Inv held entries conns w)
    (closes : wp connClose (Closes h (held h).1 (held h).2.1 (held h).2.2) Never s) :
    wp (close h) (fun _ => Gone held entries conns h) Never (w.setSlot h s) := by
  unfold close atSlot
  rw [wp_bind, wp_zoom, World.setSlot_slot]
  refine closes.call fun closed t post => ?_
  rw [World.setSlot_setSlot, post.closed, if_pos rfl, wp_modify]
  refine ⟨inv.setClosed post, ?_⟩
  have unmapped := post.inSocketMap
  rwa [← World.setSlot_slot w h t] at unmapped

theorem close_inv {conn : Conn} (inv : Inv held entries conns w) (live : (w.slot h).conn = .live conn) :
    wp (close h) (fun _ => Gone held entries conns h) Never w := by
  cases (inv.fit h).usable live with
  | up state isOpen reads is =>
    rw [← World.setSlot_self w h]
    apply close_registered inv
    rw [is]
    exact connClose_registered state isOpen false
  | down g unparsed seen _ is =>
    unfold close atSlot
    rw [wp_bind, wp_zoom, is]
    refine connClose_closed.call fun closed t post => ?_
    obtain ⟨rfl, rfl⟩ := post
    rw [← is, World.setSlot_self, if_neg Bool.false_ne_true, wp_pure]
    refine ⟨inv, ?_⟩
    rw [is]

theorem closeHandle_inv (inv : Inv held entries conns w) : wp (closeHandle h) (fun _ => Inv held entries conns) Never w := by
  unfold closeHandle
  rw [wp_bind, wp_get, wp_ite]
  split
  · next mapped =>
    obtain ⟨conn, live⟩ := (inv.fit h).conn_live_of_inConnMap mapped
    exact (close_inv inv live).call fun _ _ gone => gone.1
  · exact inv

theorem create_inv {op : SlotM Unit} (creates : Creates h op) (inv : Inv held entries conns w) :
    wp (create h op) (fun _ => Inv held entries conns) Never w := by
  unfold create
  rw [wp_bind, wp_get, wp_ite]
  split
  · next unused =>
    obtain ⟨noSocket, noConn, noPkt, eq⟩ := (inv.fit h).eq_fresh unused
    have unknown : ∀ k ∈ entries, k ≠ h := by
      intro k member at_h
      have used := inv.used k member
      rw [at_h, eq] at used
      rcases used with mapped | closed
      · cases mapped
      · cases closed
    unfold atSlot
    rw [wp_zoom, eq]
    refine creates.call fun _ t post => ⟨?_, inv.pending, ?_, ?_, inv.dispatched, ?_⟩
    · apply World.forall_setSlot
      · rw [noSocket, noConn, noPkt]
        exact post.1
      · exact fun k _ => inv.fit k
    · intro k member
      rw [World.setSlot_slot_ne w t (unknown k member)]
      exact inv.used k member
    · have crossings := inv.crossings
      refine crossings.trans (forall₂_congr fun k member => ?_)
      rw [World.setSlot_slot_ne w t (unknown k member)]
    · intro k member
      have other : k.handle ≠ h := by
        intro at_h
        have made := (inv.known k member).made
        rw [at_h, eq] at made
        cases made
      rw [World.setSlot_slot_ne w t other]
      exact inv.known k member
  · exact inv

/-! ## What is known of a connection -/

/-- What is known of `h` after a call that was to close it, if `asked`. -/
def ended (h : NetHandle) (asked : Bool) (conns : List Known) : List Known :=
  if asked then ⟨h, true⟩ :: conns else conns

theorem Inv.fewer {fewer : List Known} (inv : Inv held entries conns w) (inside : ∀ k ∈ fewer, k ∈ conns) :
    Inv held entries fewer w :=
  ⟨inv.fit, inv.pending, inv.used, inv.crossings, inv.dispatched, fun k member => inv.known k (inside k member)⟩

theorem Inv.forget {asked : Bool} (inv : Inv held entries (ended h asked conns) w) : Inv held entries conns w := by
  refine inv.fewer fun k member => ?_
  unfold ended
  split
  · exact List.mem_cons_of_mem _ member
  · exact member

theorem Inv.also {asked again : Bool} (inv : Inv held entries (ended h again (ended h asked conns)) w) :
    Inv held entries (ended h (asked || again) conns) w := by
  refine inv.fewer fun k member => ?_
  cases asked <;> cases again
  · exact member
  · exact member
  · exact member
  · exact List.mem_cons_of_mem _ member

theorem Inv.ended (asked : Bool) (inv : Inv held entries conns w) (made : (w.slot h).conn.isAbsent = false)
    (unmapped : (w.slot h).inSocketMap = false) : Inv held entries (ended h asked conns) w := by
  cases asked with
  | false => exact inv
  | true =>
    refine ⟨inv.fit, inv.pending, inv.used, inv.crossings, inv.dispatched, fun k member => ?_⟩
    rcases List.mem_cons.mp member with rfl | other
    · exact ⟨made, fun _ => unmapped⟩
    · exact inv.known k other

/-- A connection that a running call holds has been made. -/
theorem Inv.made (inv : Inv (hold h e (f + 1) n) entries conns w) : (w.slot h).conn.isAbsent = false := by
  obtain ⟨conn, live⟩ := inv.here.conn_live (Nat.succ_pos f)
  rw [live]
  rfl

theorem Gone.ended (asked : Bool) (gone : Gone (hold h e (f + 1) n) entries conns h w) :
    Inv (hold h e (f + 1) n) entries (ended h asked conns) w := gone.1.ended asked gone.1.made gone.2

/-! ## Callbacks -/

theorem act_inv (a : Act) (inv : Inv (hold h e (f + 1) n) entries conns w) :
    wp (act h a) (fun _ => Inv (hold h e (f + 1) n) entries (ended h (a == .close) conns)) Never w := by
  obtain ⟨conn, live⟩ := inv.here.conn_live (Nat.succ_pos f)
  cases a with
  | close => exact (close_inv inv live).call fun _ _ gone => gone.ended true
  | send => exact (inv.call (connSend_fit inv.here live)).call fun _ _ post => post.1
  | closeHandle k => exact closeHandle_inv inv
  | connect k => exact create_inv connectSocket_creates inv

theorem acts_inv (acts : List Act) (inv : Inv (hold h e (f + 1) n) entries conns w) :
    wp (acts.forM (act h)) (fun _ => Inv (hold h e (f + 1) n) entries (ended h (acts.any (· == .close)) conns)) Never w := by
  induction acts generalizing conns w with
  | nil => exact inv
  | cons a acts ih =>
    rw [wp_forM_cons, List.any_cons]
    refine (act_inv a inv).call fun _ w inv => ?_
    exact (ih inv).call fun _ _ inv => inv.also

/-- A closed connection has nothing left to parse. -/
theorem Inv.parsed (inv : Inv (hold h e (f + 1) n) entries conns w) (unmapped : (w.slot h).inSocketMap = false) :
    Inv (hold h e (f + 1) 0) entries conns w := by
  obtain ⟨conn, live⟩ := inv.here.conn_live (Nat.succ_pos f)
  have fit : Fit h e (f + 1) 0 (w.slot h) := by
    cases inv.here.usable live with
    | up state isOpen reads is =>
      rw [is] at unmapped
      cases unmapped
    | down g unparsed seen held is =>
      rw [is, held]
      exact .down e (g + 1) 0 unparsed seen
  have same := inv.setSlot fit ⟨rfl, rfl, rfl⟩
  rwa [World.setSlot_self] at same

/-- An override throws, or closes the connection. -/
def PktScript.closes (pkt : PktScript) : Bool := pkt.acts.any (· == .close) || pkt.throws

/-- The parse loop ends with every packet parsed or with the connection closed, as it does when something is to close it. -/
theorem connParsePkt_inv (malformed : Bool) (pkts : List PktScript)
    (inv : Inv (hold h e (f + 1) pkts.length) entries conns w) :
    wp (connParsePkt h malformed pkts)
      (fun _ => Inv (hold h e (f + 1) 0) entries (ended h (pkts.any PktScript.closes || malformed) conns)) Never w := by
  induction pkts generalizing conns w with
  | nil =>
    obtain ⟨conn, live⟩ := inv.here.conn_live (Nat.succ_pos f)
    cases malformed with
    | true => exact (close_inv inv live).call fun _ _ gone => gone.ended true
    | false => exact inv
  | cons pkt pkts ih =>
    obtain ⟨conn, live⟩ := inv.here.conn_live (Nat.succ_pos f)
    unfold connParsePkt
    rw [wp_bind]
    refine (inv.call (setUnparsed_fit pkts.length inv.here live)).call fun _ w post => ?_
    rw [wp_bind]
    refine (acts_inv pkt.acts post.1).call fun _ w inv => ?_
    obtain ⟨conn, live⟩ := inv.here.conn_live (Nat.succ_pos f)
    rw [wp_ite, List.any_cons]
    split
    · exact (close_inv inv.forget live).call fun _ _ gone => (gone.1.parsed gone.2).ended _ gone.1.made gone.2
    · next returns =>
      rw [wp_bind, wp_atSlot_derefConn live, wp_ite]
      split
      · next closed =>
        have unmapped := inv.here.unmapped_of_closed live closed
        exact (inv.forget.parsed unmapped).ended _ inv.made unmapped
      · rw [PktScript.closes, eq_false_of_ne_true returns, Bool.or_false, Bool.or_assoc]
        exact (ih inv).call fun _ _ inv => inv.also

def Msg.isRead : Msg → Bool
  | .read _ => true
  | _ => false

/-- A message after which the connection is closed. -/
def Msg.closes : Msg → Bool
  | .read reading => reading.pkts.any PktScript.closes || reading.malformed
  | .close => true
  | .timer timedOut => timedOut
  | _ => false

theorem handleMsg_inv (msg : Msg) (called : msg.isRead = true → 0 < e) (mapped : (w.slot h).inSocketMap = true)
    (inv : Inv (hold h e (f + 1) 0) entries conns w) :
    wp (handleMsg h msg) (fun _ => Inv (hold h e (f + 1) 0) entries (ended h msg.closes conns)) Never w := by
  obtain ⟨conn, live⟩ := inv.here.conn_live (Nat.succ_pos f)
  cases msg with
  | confirm sends => exact (inv.call (connOnConfirm_fit sends inv.here mapped live)).call fun _ _ post => post.1
  | write sends => exact (inv.call (connOnWrite_fit sends inv.here mapped live)).call fun _ _ post => post.1
  | read reading =>
    unfold handleMsg
    rw [wp_bind]
    refine (inv.call (connRecvData_fit reading.peerClosed inv.here mapped live (called rfl))).call fun _ w post => ?_
    have inv := post.1
    obtain ⟨conn, live⟩ := inv.here.conn_live (Nat.succ_pos f)
    rw [wp_bind]
    refine (inv.call (setUnparsed_fit reading.pkts.length inv.here live)).call fun _ w post => ?_
    exact connParsePkt_inv reading.malformed reading.pkts post.1
  | close =>
    obtain ⟨state, isOpen, reads, is⟩ := inv.here.registered mapped live
    unfold handleMsg atSlot noteClose
    rw [wp_bind, wp_zoom, wp_modify, is]
    refine wp.call (close_registered inv ?_) fun _ _ gone => gone.ended true
    rw [hold_self]
    exact connClose_registered state isOpen true
  | timer timedOut =>
    cases timedOut with
    | true => exact (close_inv inv live).call fun _ _ gone => gone.ended true
    | false => exact inv

/-- **`conn_callback`.** The reference it takes keeps the connection alive until it returns. -/
theorem connCallback_inv {conn : Conn} (msg : Msg) (after : List Act) (called : msg.isRead = true → 0 < e)
    (mapped : (w.slot h).inSocketMap = true) (live : (w.slot h).conn = .live conn)
    (inv : Inv (hold h e 0 0) entries conns w) :
    wp (connCallback h msg after)
      (fun _ => Inv (hold h e 0 0) entries (ended h (msg.closes || after.any (· == .close)) conns)) Never w := by
  unfold connCallback
  rw [wp_bind]
  refine (inv.call (connAddRef_fit inv.here live)).call fun _ w post => ?_
  obtain ⟨inv, frame⟩ := post
  rw [wp_bind]
  refine (handleMsg_inv msg called (frame.inSocketMap.trans mapped) inv).call fun _ w inv => ?_
  rw [wp_bind]
  refine (acts_inv after inv).call fun _ w inv => ?_
  exact (inv.call (connReleaseRef_fit inv.here)).call fun _ _ post => post.1.also

/-- The callback of a connection: what it keeps, and whether it closes the connection. -/
theorem callback_conn {states : SocketState → Prop} (msg : Msg) (after : List Act) (called : msg.isRead = true → 0 < e)
    (mapped : (w.slot h).inSocketMap = true) (kept : w.Kept h states) (inv : Inv (hold h e 0 0) entries conns w) :
    wp (callback h msg after) (fun _ w =>
      Inv (hold h e 0 0) entries (ended h (msg.closes || after.any (· == .close)) conns) w ∧
        w.Kept h (afterRecv msg.peerClosed states)) Never w := by
  obtain ⟨socket, live, is⟩ := inv.here.conn_callback mapped kept.made
  obtain ⟨conn, connLive⟩ := inv.here.conn_live_of_callback mapped live is
  unfold callback
  rw [wp_bind, wp_atSlot_derefSocket live, is]
  exact ((connCallback_inv msg after called mapped connLive inv).and (connCallback_kept msg after kept)).mono
    (fun _ _ both => both) fun _ _ impossible => impossible.1

/-- `connect_callback` prints an error. -/
theorem callback_listener {msg : Msg} {after : List Act} {Q : Unit → World → Prop} {E : Stop → World → Prop}
    (listens : (w.slot h).Listens) (inv : Inv (hold h e 0 0) entries conns w) (post : Q ⟨⟩ w) :
    wp (callback h msg after) Q E w := by
  obtain ⟨socket, live, is⟩ := inv.here.connect_callback listens
  unfold callback
  rw [wp_bind, wp_atSlot_derefSocket live, is]
  exact post

/-! ## Events of a connection -/

def Input.closes (input : Input) : Bool :=
  !input.avail || input.reading.peerClosed || (Msg.read input.reading).closes || input.afterRead.any (· == .close)

def Output.closes (state : SocketState) (output : Output) : Bool :=
  state = .connecting && (output.error || output.tcpLoop) || output.after.any (· == .close)

/-- An entry of `events` after which the connection is closed. -/
def Ready.closes (state : SocketState) (ready : Ready) : Bool :=
  ready.input.any Input.closes || ready.output.any (Output.closes state) || ready.hup.isSome

/-- A connection whose socket has left the map is closed, whatever was to close it. -/
theorem Inv.ended_of_unmapped (asked : Bool) (inv : Inv held entries conns w) (made : (w.slot h).conn.isAbsent = false)
    (unmapped : (w.slot h).inSocketMap = false) {states : SocketState → Prop} :
    Inv held entries (Loop.ended h asked conns) w ∧ w.Kept h states :=
  ⟨inv.ended asked made unmapped, .of_unmapped made unmapped⟩

/-- What is known of a connection that has been closed. -/
theorem Inv.closed (inv : Inv held entries (Loop.ended h true conns) w) :
    (w.slot h).conn.isAbsent = false ∧ (w.slot h).inSocketMap = false := by
  obtain ⟨made, unmapped⟩ := inv.known ⟨h, true⟩ List.mem_cons_self
  exact ⟨made, unmapped rfl⟩

theorem Inv.ended_of_closed (asked : Bool) (inv : Inv held entries (Loop.ended h true conns) w)
    {states : SocketState → Prop} : Inv held entries (Loop.ended h asked conns) w ∧ w.Kept h states :=
  inv.forget.ended_of_unmapped asked inv.closed.1 inv.closed.2

theorem socketOnRead_conn {state : SocketState} (input : Input) (calm : Calm state) (mapped : (w.slot h).inSocketMap = true)
    (kept : w.Kept h (· = state)) (inv : Inv (hold h (e + 1) 0 0) entries conns w) :
    wp (socketOnRead h input) (fun _ w =>
      Inv (hold h (e + 1) 0 0) entries (ended h input.closes conns) w ∧ w.Kept h (· = state)) Never w := by
  obtain ⟨socket, live, is⟩ := kept.state mapped
  unfold socketOnRead
  rw [wp_bind, wp_atSlot_derefSocket live, wp_ite, if_neg (is ▸ calm.not_listening), wp_ite]
  split
  · exact (callback_conn .close input.afterClose nofun mapped kept inv).call fun _ _ post => post.1.ended_of_closed _
  · next avail =>
    rw [wp_bind]
    refine (callback_conn (.read input.reading) input.afterRead (fun _ => Nat.succ_pos e) mapped kept inv).call fun _ w post => ?_
    obtain ⟨inv, kept⟩ := post
    obtain ⟨socket, live⟩ := inv.here.socket_live (Nat.succ_pos e)
    rw [wp_bind, wp_atSlot_derefSocket live, wp_ite]
    split
    · next peerClosing =>
      have mapped := inv.here.inSocketMap_of_state live (by rw [peerClosing]; nofun)
      refine (callback_conn .close input.afterClose nofun mapped kept inv.forget).call fun _ _ post => ?_
      exact post.1.ended_of_closed _
    · next open_ =>
      -- The socket is in the state in which it was, or it has left the map.
      by_cases unmapped : (w.slot h).inSocketMap = false
      · exact inv.forget.ended_of_unmapped _ kept.made unmapped
      · obtain ⟨socket', live', same⟩ := kept.state (by simpa using unmapped)
        obtain rfl : socket = socket' := Cell.live.inj (live.symm.trans live')
        have noFin : input.reading.peerClosed = false := by
          by_contra fin
          have fin : input.reading.peerClosed = true := by simpa using fin
          rw [Msg.peerClosed, fin] at same
          exact open_ same
        rw [Msg.peerClosed, noFin] at kept
        have avail : input.avail = true := not_not.mp avail
        rw [Input.closes, avail, noFin]
        exact ⟨inv, kept⟩

theorem socketOnClose_conn {state : SocketState} (after : List Act) (calm : Calm state) (kept : w.Kept h (· = state))
    (inv : Inv (hold h (e + 1) 0 0) entries conns w) :
    wp (socketOnClose h after) (fun _ => Inv (hold h (e + 1) 0 0) entries (ended h true conns)) Never w := by
  obtain ⟨socket, live⟩ := inv.here.socket_live (Nat.succ_pos e)
  unfold socketOnClose
  rw [wp_bind, wp_atSlot_derefSocket live, wp_ite]
  split
  · next closing =>
    refine inv.ended true kept.made ?_
    by_contra mapped
    obtain ⟨socket', live', is⟩ := kept.state (by simpa using mapped)
    obtain rfl : socket = socket' := Cell.live.inj (live.symm.trans live')
    rw [← is, closing] at calm
    rcases calm with not | not <;> cases not
  · next running =>
    have mapped := inv.here.inSocketMap_of_state live running
    rw [wp_bind]
    have set := inv.call (setState_fit .closing inv.here mapped ⟨nofun, nofun⟩)
    have keeps := wp_atSlot_kept (setState_kept .closing kept)
    refine (set.and keeps).mono (fun _ w post => ?_) fun _ _ impossible => impossible.1.elim
    obtain ⟨⟨inv, frame⟩, kept⟩ := post
    exact (callback_conn .close after nofun (frame.inSocketMap.trans mapped) kept inv).call fun _ _ post => post.1

theorem socketOnWrite_conn {state : SocketState} (output : Output) (calm : Calm state) (kept : w.Kept h (· = state))
    (inv : Inv (hold h (e + 1) 0 0) entries conns w) :
    wp (socketOnWrite h output) (fun _ w => Inv (hold h (e + 1) 0 0) entries (ended h (output.closes state) conns) w ∧
      ∃ state, Calm state ∧ w.Kept h (· = state)) Never w := by
  obtain ⟨socket, live⟩ := inv.here.socket_live (Nat.succ_pos e)
  by_cases unmapped : (w.slot h).inSocketMap = false
  · -- The entry comes too late: the socket is closed.
    have closing : socket.state = .closing := by
      by_contra running
      rw [inv.here.inSocketMap_of_state live running] at unmapped
      cases unmapped
    unfold socketOnWrite
    rw [wp_bind, wp_atSlot_derefSocket live, closing]
    exact ⟨inv.ended _ kept.made unmapped, state, calm, kept⟩
  · have mapped : (w.slot h).inSocketMap = true := by simpa using unmapped
    obtain ⟨socket', live', is⟩ := kept.state mapped
    obtain rfl : socket = socket' := Cell.live.inj (live.symm.trans live')
    unfold socketOnWrite
    rw [wp_bind, wp_atSlot_derefSocket live, is]
    rcases calm with rfl | rfl
    · rw [wp_ite]
      split
      · refine (callback_conn .close output.after nofun mapped kept inv).call fun _ _ post => ?_
        obtain ⟨inv, kept⟩ := post.1.ended_of_closed (output.closes .connecting)
        exact ⟨inv, .connecting, .inl rfl, kept⟩
      · next fine =>
        rw [wp_ite]
        split
        · refine (socketOnClose_conn output.after (.inl rfl) kept inv).call fun _ _ inv => ?_
          obtain ⟨inv, kept⟩ := inv.ended_of_closed (output.closes .connecting)
          exact ⟨inv, .connecting, .inl rfl, kept⟩
        · next loops =>
          rw [wp_bind]
          have set := inv.call (setState_fit .connected inv.here mapped (.of_calm (.inr rfl)))
          have keeps := wp_atSlot_kept (setState_kept .connected kept)
          refine (set.and keeps).mono (fun _ w post => ?_) fun _ _ impossible => impossible.1.elim
          obtain ⟨⟨inv, frame⟩, kept⟩ := post
          refine (callback_conn (.confirm output.sends) output.after nofun (frame.inSocketMap.trans mapped) kept inv).call
            fun _ _ post => ?_
          rw [Output.closes, eq_false_of_ne_true fine, eq_false_of_ne_true loops]
          exact ⟨post.1, .connected, .inr rfl, post.2⟩
    · refine (callback_conn (.write output.sends) output.after nofun mapped kept inv).call fun _ _ post => ?_
      exact ⟨post.1, .connected, .inr rfl, post.2⟩

/-- **An event of a connection.** Its socket is as it may be between two steps again, or the connection is closed, as it is
when something of the entry is to close it. -/
theorem dispatch_conn {state : SocketState} {ready : Ready} (calm : Calm state)
    (mapped : (w.slot ready.handle).inSocketMap = true) (kept : w.Kept ready.handle (· = state))
    (inv : Inv quiet entries conns w) :
    wp (dispatch ready) (fun _ => Inv quiet entries (ended ready.handle (ready.closes state) conns)) Never w := by
  rw [← hold_zero ready.handle] at inv ⊢
  unfold dispatch
  rw [wp_bind]
  have held := inv.call (socketAddRef_fit inv.here mapped)
  refine (held.and (atSlot_kept socketAddRef_kept w kept)).mono (fun _ w post => ?_) fun _ _ impossible => impossible.1.elim
  obtain ⟨⟨inv, frame⟩, kept⟩ := post
  have mapped := frame.inSocketMap.trans mapped
  have read : wp (ready.input.forM (socketOnRead ready.handle)) (fun _ w =>
      Inv (hold ready.handle 1 0 0) entries (ended ready.handle (ready.input.any Input.closes) conns) w ∧
        w.Kept ready.handle (· = state)) Never w := by
    cases ready.input with
    | none => exact ⟨inv, kept⟩
    | some input => exact socketOnRead_conn input calm mapped kept inv
  rw [wp_bind]
  refine read.call fun _ w post => ?_
  obtain ⟨inv, kept⟩ := post
  have written : wp (ready.output.forM (socketOnWrite ready.handle)) (fun _ w =>
      Inv (hold ready.handle 1 0 0) entries
        (ended ready.handle (ready.input.any Input.closes || ready.output.any (Output.closes state)) conns) w ∧
      ∃ state, Calm state ∧ w.Kept ready.handle (· = state)) Never w := by
    cases ready.output with
    | none =>
      rw [Option.any_none, Bool.or_false]
      exact ⟨inv, state, calm, kept⟩
    | some output => exact (socketOnWrite_conn output calm kept inv).call fun _ _ post => ⟨post.1.also, post.2⟩
  rw [wp_bind]
  refine written.call fun _ w post => ?_
  obtain ⟨inv, state', calm, kept⟩ := post
  have hung : wp (ready.hup.forM (socketOnClose ready.handle)) (fun _ w =>
      Inv (hold ready.handle 1 0 0) entries (ended ready.handle (ready.closes state) conns) w ∧
        w.Kept ready.handle Calm) Never w := by
    unfold Ready.closes
    cases ready.hup with
    | none =>
      rw [Option.isSome_none, Bool.or_false]
      exact ⟨inv, kept.mono fun _ is => is ▸ calm⟩
    | some after =>
      refine (socketOnClose_conn after calm kept inv).call fun _ _ inv => ?_
      exact ⟨inv.also, .of_unmapped inv.closed.1 inv.closed.2⟩
  rw [wp_bind]
  refine hung.call fun _ w post => ?_
  obtain ⟨inv, kept⟩ := post
  refine (inv.call (socketReleaseRef_fit inv.here fun state isOpen is _ => ?_)).call fun _ _ post => post.1
  obtain ⟨socket, live, calm⟩ := kept.state (by rw [is])
  rw [is] at live
  cases live
  exact calm

/-! ## Events of a listener -/

theorem socketOnRead_listener (input : Input) (listens : (w.slot h).Listens)
    (inv : Inv (hold h (e + 1) 0 0) entries conns w) :
    wp (socketOnRead h input) (fun _ w => Inv (hold h (e + 1) 0 0) entries conns w ∧ (w.slot h).Listens) Never w := by
  obtain ⟨socket, live, is⟩ := inv.here.connect_callback listens
  unfold socketOnRead
  rw [wp_bind, wp_atSlot_derefSocket live, wp_ite]
  split
  · rw [is]
    refine wp_forM (fun k _ w post => ?_) ⟨inv, listens⟩
    obtain ⟨inv, listens⟩ := post
    obtain ⟨socket, live, -⟩ := inv.here.connect_callback listens
    have used : (w.slot h).isFresh = false := by
      rw [Slot.isFresh, live]
      rfl
    refine ((create_inv acceptSocket_creates inv).and (create_other used)).mono (fun _ w post => ?_)
      fun _ _ impossible => impossible.1
    exact ⟨post.1, post.2 ▸ listens⟩
  · rw [wp_ite]
    split
    · exact callback_listener listens inv ⟨inv, listens⟩
    · rw [wp_bind]
      refine callback_listener listens inv ?_
      rw [wp_bind, wp_atSlot_derefSocket live, wp_ite]
      split
      · exact callback_listener listens inv ⟨inv, listens⟩
      · exact ⟨inv, listens⟩

/-- The state of a listener changes, and nobody is told. -/
theorem setState_listener {state : SocketState} {msg : Msg} {after : List Act} (reads : state ≠ .listening)
    (listens : (w.slot h).Listens) (inv : Inv (hold h (e + 1) 0 0) entries conns w) :
    wp (atSlot h (setState state) >>= fun _ => callback h msg after)
      (fun _ w => Inv (hold h (e + 1) 0 0) entries conns w ∧ (w.slot h).Listens) Never w := by
  rw [wp_bind]
  refine (inv.call (setState_fit state inv.here listens.mapped ⟨reads, nofun⟩)).call fun _ w post => ?_
  obtain ⟨inv, frame⟩ := post
  have listens : (w.slot h).Listens := ⟨frame.conn.trans listens.absent, frame.inSocketMap.trans listens.mapped⟩
  exact callback_listener listens inv ⟨inv, listens⟩

theorem socketOnClose_listener (after : List Act) (listens : (w.slot h).Listens)
    (inv : Inv (hold h (e + 1) 0 0) entries conns w) :
    wp (socketOnClose h after) (fun _ w => Inv (hold h (e + 1) 0 0) entries conns w ∧ (w.slot h).Listens) Never w := by
  obtain ⟨socket, live, is⟩ := inv.here.connect_callback listens
  unfold socketOnClose
  rw [wp_bind, wp_atSlot_derefSocket live, wp_ite]
  split
  · exact ⟨inv, listens⟩
  · exact setState_listener nofun listens inv

theorem socketOnWrite_listener (output : Output) (listens : (w.slot h).Listens)
    (inv : Inv (hold h (e + 1) 0 0) entries conns w) :
    wp (socketOnWrite h output) (fun _ w => Inv (hold h (e + 1) 0 0) entries conns w ∧ (w.slot h).Listens) Never w := by
  obtain ⟨socket, live, is⟩ := inv.here.connect_callback listens
  unfold socketOnWrite
  rw [wp_bind, wp_atSlot_derefSocket live]
  cases socket.state with
  | idle => exact ⟨inv, listens⟩
  | listening => exact ⟨inv, listens⟩
  | peerClosing => exact ⟨inv, listens⟩
  | closing => exact ⟨inv, listens⟩
  | connected => exact callback_listener listens inv ⟨inv, listens⟩
  | connecting =>
    rw [wp_ite]
    split
    · exact callback_listener listens inv ⟨inv, listens⟩
    · rw [wp_ite]
      split
      · exact socketOnClose_listener output.after listens inv
      · exact setState_listener nofun listens inv

theorem dispatch_listener {ready : Ready} (listens : (w.slot ready.handle).Listens) (inv : Inv quiet entries conns w) :
    wp (dispatch ready) (fun _ => Inv quiet entries conns) Never w := by
  rw [← hold_zero ready.handle] at inv ⊢
  unfold dispatch
  rw [wp_bind]
  refine (inv.call (socketAddRef_fit inv.here listens.mapped)).call fun _ w post => ?_
  obtain ⟨inv, frame⟩ := post
  have listens : (w.slot ready.handle).Listens := ⟨frame.conn.trans listens.absent, frame.inSocketMap.trans listens.mapped⟩
  rw [wp_bind]
  refine wp.call (wp_option_forM (I := fun w => Inv (hold ready.handle 1 0 0) entries conns w ∧ (w.slot ready.handle).Listens)
    (fun input _ => socketOnRead_listener input listens inv) ⟨inv, listens⟩) fun _ w post => ?_
  obtain ⟨inv, listens⟩ := post
  rw [wp_bind]
  refine wp.call (wp_option_forM (I := fun w => Inv (hold ready.handle 1 0 0) entries conns w ∧ (w.slot ready.handle).Listens)
    (fun output _ => socketOnWrite_listener output listens inv) ⟨inv, listens⟩) fun _ w post => ?_
  obtain ⟨inv, listens⟩ := post
  rw [wp_bind]
  refine wp.call (wp_option_forM (I := fun w => Inv (hold ready.handle 1 0 0) entries conns w ∧ (w.slot ready.handle).Listens)
    (fun after _ => socketOnClose_listener after listens inv) ⟨inv, listens⟩) fun _ w post => ?_
  obtain ⟨inv, listens⟩ := post
  refine (inv.call (socketReleaseRef_fit inv.here fun state isOpen is _ => ?_)).call fun _ _ post => post.1
  have absent := listens.absent
  rw [is] at absent
  cases absent

/-! ## Steps -/

/-- A registered socket is that of a listener, or of a connection between two steps. -/
theorem Inv.listens_or_kept (inv : Inv quiet entries conns w) (mapped : (w.slot h).inSocketMap = true) :
    (w.slot h).Listens ∨ ∃ state, Calm state ∧ w.Kept h (· = state) := by
  have fit : Fit h 0 0 0 (w.slot h) := inv.fit h
  unfold World.Kept
  revert mapped
  generalize w.slot h = s at fit
  intro mapped
  cases fit with
  | fresh => cases mapped
  | down => cases mapped
  | listener => exact .inl ⟨rfl, rfl⟩
  | up e f n state isOpen running => exact .inr ⟨state, running.calm rfl, rfl, fun _ => ⟨_, rfl, rfl⟩⟩

theorem dispatch_inv (ready : Ready) (mapped : (w.slot ready.handle).inSocketMap = true)
    (inv : Inv quiet entries conns w) : wp (dispatch ready) (fun _ => Inv quiet entries conns) Never w := by
  rcases inv.listens_or_kept mapped with listens | ⟨state, calm, kept⟩
  · exact dispatch_listener listens inv
  · exact (dispatch_conn calm mapped kept inv).call fun _ _ inv => inv.forget

/-- The timer closes a connection that has been silent for too long. -/
theorem visit_conn {state : SocketState} (v : Visit) (calm : Calm state) (kept : w.Kept v.handle (· = state))
    (inv : Inv quiet entries conns w) :
    wp (visit v) (fun _ => Inv quiet entries (ended v.handle (v.timedOut || 0 < v.closes) conns)) Never w := by
  rw [← hold_zero v.handle] at inv ⊢
  unfold visit
  rw [wp_bind, wp_get, wp_ite]
  split
  · next mapped =>
    obtain ⟨socket, live, is⟩ := kept.state mapped
    unfold socketOnTimer
    rw [wp_bind, wp_atSlot_derefSocket live, wp_ite, if_pos (is ▸ calm.not_listening)]
    refine (callback_conn (.timer v.timedOut) _ nofun mapped kept inv).call fun _ _ post => ?_
    have closes : (List.replicate v.closes Act.close).any (· == .close) = decide (0 < v.closes) := by
      cases v.closes with
      | zero => rfl
      | succ n => simp [List.replicate_succ]
    rw [closes] at post
    exact post.1
  · next unmapped => exact inv.ended _ kept.made (by simpa using unmapped)

theorem visit_inv (v : Visit) (inv : Inv quiet entries conns w) : wp (visit v) (fun _ => Inv quiet entries conns) Never w := by
  by_cases mapped : (w.slot v.handle).inSocketMap = true
  · rcases inv.listens_or_kept mapped with listens | ⟨state, calm, kept⟩
    · rw [← hold_zero v.handle] at inv ⊢
      obtain ⟨socket, live, -⟩ := inv.here.connect_callback listens
      unfold visit socketOnTimer
      rw [wp_bind, wp_get, wp_ite, if_pos mapped, wp_bind, wp_atSlot_derefSocket live, wp_ite]
      split
      · exact callback_listener listens inv inv
      · exact inv
    · exact (visit_conn v calm kept inv).call fun _ _ inv => inv.forget
  · unfold visit
    rw [wp_bind, wp_get, wp_ite, if_neg mapped]
    exact inv

theorem sendPosted_inv (h : NetHandle) (inv : Inv quiet entries conns w) :
    wp (sendPosted h) (fun _ => Inv quiet entries conns) Never w := by
  rw [← hold_zero h] at inv ⊢
  unfold sendPosted
  rw [wp_bind, wp_get, wp_ite]
  split
  · next mapped =>
    obtain ⟨conn, live⟩ := inv.here.conn_live_of_inConnMap mapped
    exact (inv.call (connSend_fit inv.here live)).call fun _ _ post => post.1
  · exact inv

theorem step_inv (step : Step) (inv : Inv quiet entries conns w) : wp step.exec (fun _ => Inv quiet entries conns) Never w := by
  cases step with
  | listen h => exact create_inv listenSocket_creates inv
  | connect h => exact create_inv connectSocket_creates inv
  | register h => exact create_inv acceptSocket_creates inv
  | dispatch ready =>
    unfold Step.exec
    rw [wp_bind, wp_get, wp_ite]
    split
    · next mapped => exact dispatch_inv ready mapped inv
    · exact inv
  | timer visits => exact wp_forM (fun v _ _ inv => visit_inv v inv) inv
  | posted pkts closes =>
    unfold Step.exec
    rw [wp_bind]
    refine (wp_forM (fun h _ _ inv => sendPosted_inv h inv) inv).call fun _ w inv => ?_
    exact wp_forM (fun h _ _ inv => closeHandle_inv inv) inv

theorem World.init_inv : Inv quiet [] [] World.init :=
  ⟨fun _ => .fresh, rfl, nofun, ⟨fun _ => nofun, fun _ => rfl⟩, nofun, nofun⟩

theorem runSteps_inv (steps : List Step) : wp (runSteps steps) (fun _ => Inv quiet [] []) Never World.init :=
  wp_forM (fun step _ _ inv => step_inv step inv) World.init_inv

end Netter.Loop
