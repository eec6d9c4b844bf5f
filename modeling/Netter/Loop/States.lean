import Netter.Loop.Fit

/-!
# The state of a socket during a call

A call about a connection changes the state of its socket only where `recv` has returned 0 and where the connection is
closed, and neither does a call about another one.
-/

namespace Netter.Loop

open Lib

@[simp] theorem World.setSlot_slot (w : World) (h : NetHandle) (s : Slot) : (w.setSlot h s).slot h = s := if_pos rfl

theorem World.setSlot_slot_ne (w : World) {h k : NetHandle} (s : Slot) (other : k ≠ h) :
    (w.setSlot h s).slot k = w.slot k := if_neg other

/-- The connection has been made, and while its socket is registered it is in one of the states. -/
structure Slot.Kept (states : SocketState → Prop) (s : Slot) : Prop where
  made : s.conn.isAbsent = false
  state : s.inSocketMap = true → ∃ socket, s.socket = .live socket ∧ states socket.state

variable {h k : NetHandle} {states states' : SocketState → Prop} {s : Slot} {w : World}

theorem Slot.Kept.mono (kept : s.Kept states) (weaker : ∀ state, states state → states' state) : s.Kept states' := by
  refine ⟨kept.made, fun mapped => ?_⟩
  obtain ⟨socket, live, state⟩ := kept.state mapped
  exact ⟨socket, live, weaker _ state⟩

theorem Slot.Kept.of_unmapped (made : s.conn.isAbsent = false) (unmapped : s.inSocketMap = false) : s.Kept states :=
  ⟨made, fun mapped => absurd (unmapped.symm.trans mapped) Bool.false_ne_true⟩

/-- A closed connection has no registered socket. -/
theorem Slot.Kept.unmapped (kept : s.Kept fun _ => False) : s.inSocketMap = false := by
  by_contra mapped
  obtain ⟨_, _, none⟩ := kept.state (by simpa using mapped)
  exact none

/-! ## Calls about the connection -/

theorem derefSocket_kept : Keeps (Slot.Kept states) derefSocket := by
  intro s kept
  rw [derefSocket, wp_bind, wp_get]
  cases s.socket <;> first | exact kept | exact trivial

theorem derefConn_kept : Keeps (Slot.Kept states) derefConn := by
  intro s kept
  rw [derefConn, wp_bind, wp_get]
  cases s.conn <;> first | exact kept | exact trivial

theorem setConn_kept (conn : Conn) : Keeps (Slot.Kept states) (setConn conn) := fun _ kept => ⟨rfl, kept.state⟩

theorem connAddRef_kept : Keeps (Slot.Kept states) connAddRef := derefConn_kept.bind fun _ => setConn_kept _

theorem connReleaseRef_kept : Keeps (Slot.Kept states) connReleaseRef := by
  refine derefConn_kept.bind fun conn => ?_
  intro s kept
  split
  · exact trivial
  · exact ⟨rfl, kept.state⟩
  · exact setConn_kept _ s kept

theorem setUnparsed_kept (unparsed : Nat) : Keeps (Slot.Kept states) (setUnparsed unparsed) :=
  derefConn_kept.bind fun _ => setConn_kept _

theorem connSend_kept : Keeps (Slot.Kept states) connSend := by
  refine derefConn_kept.bind fun conn => ?_
  split
  · exact derefSocket_kept.discard
  · exact fun _ kept => kept

theorem connOnConfirm_kept (sends : Bool) : Keeps (Slot.Kept states) (connOnConfirm sends) := by
  refine derefConn_kept.bind fun conn => (setConn_kept _).bind fun _ => ?_
  cases sends with
  | true => exact connSend_kept
  | false => exact fun _ kept => kept

theorem connOnWrite_kept (sends : Bool) : Keeps (Slot.Kept states) (connOnWrite sends) := by
  refine derefConn_kept.discard.bind fun _ => ?_
  cases sends with
  | true => exact derefSocket_kept.discard
  | false => exact fun _ kept => kept

theorem noteClose_kept : Keeps (Slot.Kept states) noteClose := by
  intro s kept
  rw [noteClose, wp_modify]
  exact ⟨kept.made, kept.state⟩

theorem setState_kept (state : SocketState) (kept : s.Kept states) :
    wp (setState state) (fun _ t => t.Kept (· = state)) (fun _ _ => True) s := by
  rw [setState, wp_bind]
  refine (derefSocket_kept s kept).mono (fun socket t kept => ?_) fun _ _ h => h
  exact ⟨kept.made, fun _ => ⟨_, rfl, rfl⟩⟩

/-- `recv` may have returned 0. -/
def afterRecv (peerClosed : Bool) (states : SocketState → Prop) : SocketState → Prop :=
  if peerClosed then (· = .peerClosing) else states

theorem connRecvData_kept (peerClosed : Bool) (kept : s.Kept states) :
    wp (connRecvData peerClosed) (fun _ t => t.Kept (afterRecv peerClosed states)) (fun _ _ => True) s := by
  rw [connRecvData, wp_bind]
  refine (derefConn_kept.discard s kept).mono (fun _ t kept => ?_) fun _ _ h => h
  cases peerClosed with
  | true => exact setState_kept .peerClosing kept
  | false => exact derefSocket_kept.discard t kept

theorem socketReleaseRef_closed : Keeps (Slot.Kept fun _ => False) socketReleaseRef := by
  refine derefSocket_kept.bind fun socket => ?_
  intro s kept
  split
  · exact trivial
  · exact .of_unmapped kept.made kept.unmapped
  · exact .of_unmapped kept.made kept.unmapped

theorem socketClose_closed (kept : s.Kept states) :
    wp socketClose (fun _ t => t.Kept fun _ => False) (fun _ _ => True) s := by
  rw [socketClose, wp_bind]
  refine (setState_kept .closing kept).mono (fun _ t kept => ?_) fun _ _ h => h
  rw [wp_bind, wp_modify]
  exact socketReleaseRef_closed _ (.of_unmapped kept.made rfl)

theorem socketAddRef_kept : Keeps (Slot.Kept states) socketAddRef := by
  intro s kept
  rw [socketAddRef, derefSocket, wp_bind, wp_bind, wp_get]
  cases live : s.socket with
  | absent => exact trivial
  | freed => exact trivial
  | live socket =>
    refine ⟨kept.made, fun mapped => ⟨_, rfl, ?_⟩⟩
    obtain ⟨socket', live', state⟩ := kept.state mapped
    rw [Cell.live.inj (live.symm.trans live')]
    exact state

/-- `Close` passes a connection over or takes its socket out of the map. -/
theorem connClose_kept : Keeps (Slot.Kept states) connClose := by
  refine derefConn_kept.bind fun conn => ?_
  intro s kept
  rw [wp_ite]
  split
  · exact kept
  · rw [wp_bind, wp_modify, wp_bind]
    have start : Slot.Kept states { s with inConnMap := false } := ⟨kept.made, kept.state⟩
    refine (socketClose_closed start).mono (fun _ t closed => ?_) fun _ _ h => h
    have rest : Keeps (Slot.Kept fun _ => False) (do
        let conn ← derefConn
        setConn { conn with handle := none, isOpen := false }
        connReleaseRef
        return true) :=
      derefConn_kept.bind fun _ => (setConn_kept _).bind fun _ => connReleaseRef_kept.bind fun _ _ kept => kept
    exact (rest t closed).mono (fun _ _ kept => kept.mono fun _ none => none.elim) fun _ _ h => h

/-! ## Calls in the loop -/

/-- What is said of one slot of the world. -/
def World.Kept (h : NetHandle) (states : SocketState → Prop) (w : World) : Prop := (w.slot h).Kept states

theorem wp_of_all {ε σ α : Type} {x : EStateM ε σ α} {P : σ → Prop} (all : ∀ t, P t) {s : σ} :
    wp x (fun _ => P) (fun _ _ => True) s := by
  unfold wp
  cases x.run s with
  | ok a t => exact all t
  | error e t => trivial

/-- A call about one handle leaves what is said of another. -/
theorem atSlot_ne {α : Type} {op : SlotM α} {P : Slot → Prop} (other : h ≠ k) :
    Keeps (fun w : World => P (w.slot h)) (atSlot k op) := by
  intro w kept
  rw [atSlot, wp_zoom]
  refine wp_of_all (P := fun t => P ((w.setSlot k t).slot h)) fun t => ?_
  rw [World.setSlot_slot_ne w t other]
  exact kept

theorem wp_atSlot_kept {α : Type} {op : SlotM α} (own : wp op (fun _ t => t.Kept states') (fun _ _ => True) (w.slot h)) :
    wp (atSlot h op) (fun _ => World.Kept h states') (fun _ _ => True) w := by
  rw [atSlot, wp_zoom]
  refine own.mono (fun _ t kept => ?_) fun _ _ h => h
  unfold World.Kept
  rw [World.setSlot_slot]
  exact kept

theorem atSlot_kept {α : Type} {op : SlotM α} (own : Keeps (Slot.Kept states) op) :
    Keeps (World.Kept h states) (atSlot k op) := by
  by_cases at_h : h = k
  · subst at_h
    exact fun w kept => wp_atSlot_kept (own _ kept)
  · exact atSlot_ne at_h

theorem close_kept : Keeps (World.Kept h states) (close k) := by
  refine (atSlot_kept connClose_kept).bind fun closed => ?_
  cases closed <;> exact fun _ kept => kept

theorem closeHandle_kept : Keeps (World.Kept h states) (closeHandle k) := by
  intro w kept
  rw [closeHandle, wp_bind, wp_get, wp_ite]
  split
  · exact close_kept w kept
  · exact kept

/-- A new handle is another one. -/
theorem create_other {op : SlotM Unit} (used : (w.slot h).isFresh = false) :
    wp (create k op) (fun _ t => t.slot h = w.slot h) (fun _ _ => True) w := by
  rw [create, wp_bind, wp_get, wp_ite]
  split
  · next fresh =>
    have other : h ≠ k := by
      rintro rfl
      rw [used] at fresh
      cases fresh
    rw [atSlot, wp_zoom]
    exact wp_of_all (P := fun t => (w.setSlot k t).slot h = w.slot h) fun t => World.setSlot_slot_ne w t other
  · exact rfl

theorem create_kept {op : SlotM Unit} : Keeps (World.Kept h states) (create k op) := by
  intro w kept
  have used : (w.slot h).isFresh = false := by
    rw [Slot.isFresh, kept.made, Bool.and_false]
  refine (create_other used).mono (fun _ t same => ?_) fun _ _ h => h
  unfold World.Kept
  rw [same]
  exact kept

theorem act_kept (a : Act) : Keeps (World.Kept h states) (act h a) := by
  cases a with
  | close => exact close_kept
  | send => exact atSlot_kept connSend_kept
  | closeHandle k => exact closeHandle_kept
  | connect k => exact create_kept

theorem acts_kept (acts : List Act) : Keeps (World.Kept h states) (acts.forM (act h)) :=
  fun _ kept => wp_forM (fun a _ w kept => act_kept a w kept) kept

theorem connParsePkt_kept (malformed : Bool) (pkts : List PktScript) :
    Keeps (World.Kept h states) (connParsePkt h malformed pkts) := by
  induction pkts with
  | nil =>
    cases malformed with
    | true => exact close_kept
    | false => exact fun _ kept => kept
  | cons pkt pkts ih =>
    refine (atSlot_kept (setUnparsed_kept _)).bind fun _ => (acts_kept pkt.acts).bind fun _ => ?_
    split
    · exact close_kept
    · refine (atSlot_kept derefConn_kept).bind fun conn => ?_
      split
      · exact fun _ kept => kept
      · exact ih

/-- Whether `recv` returns 0 before the call of `conn_callback` has returned. -/
def Msg.peerClosed : Msg → Bool
  | .read reading => reading.peerClosed
  | _ => false

theorem handleMsg_kept (msg : Msg) (kept : w.Kept h states) :
    wp (handleMsg h msg) (fun _ => World.Kept h (afterRecv msg.peerClosed states)) (fun _ _ => True) w := by
  cases msg with
  | confirm sends => exact atSlot_kept (connOnConfirm_kept sends) w kept
  | write sends => exact atSlot_kept (connOnWrite_kept sends) w kept
  | read reading =>
    rw [handleMsg, wp_bind]
    refine (wp_atSlot_kept (connRecvData_kept reading.peerClosed kept)).mono (fun _ w kept => ?_) fun _ _ h => h
    exact ((atSlot_kept (setUnparsed_kept _)).bind fun _ => connParsePkt_kept _ _) w kept
  | close => exact ((atSlot_kept noteClose_kept).bind fun _ => close_kept) w kept
  | timer timedOut =>
    cases timedOut with
    | true => exact close_kept w kept
    | false => exact kept

theorem connCallback_kept (msg : Msg) (after : List Act) (kept : w.Kept h states) :
    wp (connCallback h msg after) (fun _ => World.Kept h (afterRecv msg.peerClosed states)) (fun _ _ => True) w := by
  rw [connCallback, wp_bind]
  refine (atSlot_kept connAddRef_kept w kept).mono (fun _ w kept => ?_) fun _ _ h => h
  rw [wp_bind]
  refine (handleMsg_kept msg kept).mono (fun _ w kept => ?_) fun _ _ h => h
  exact ((acts_kept after).bind fun _ => atSlot_kept connReleaseRef_kept) w kept

end Netter.Loop
