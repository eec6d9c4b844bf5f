import Netter.Accept.Introduced
import Netter.Dispatch.Model
import Netter.Loop.Lifetime
import Netter.Outlive
import Netter.Sockets.Model

/-!
# How far a connection has come

The models of a connection have one thing in common: it is made, confirmed, closed and destroyed, in this order. `ConnStage` says
how far it has come, and `Close` is the same step of it in each of them. In the loop no connection goes back, whatever is
dispatched and whatever the overrides do, and a step changes only the connections of finitely many handles.
-/

namespace Netter

open Lib

inductive ConnStage where
  | absent
  | connecting
  | opened
  | closed
  | destroyed
  deriving DecidableEq

namespace ConnStage

def rank : ConnStage → Nat
  | .absent => 0
  | .connecting => 1
  | .opened => 2
  | .closed => 3
  | .destroyed => 4

instance : LE ConnStage where
  le a b := a.rank ≤ b.rank

instance (a b : ConnStage) : Decidable (a ≤ b) := inferInstanceAs (Decidable (a.rank ≤ b.rank))

theorem absent_le (stage : ConnStage) : .absent ≤ stage := Nat.zero_le stage.rank

theorem le_refl (stage : ConnStage) : stage ≤ stage := Nat.le_refl stage.rank

theorem le_trans {a b c : ConnStage} (first : a ≤ b) (next : b ≤ c) : a ≤ c := Nat.le_trans (n := a.rank) first next

/-- `Close`, which a connection that is closed passes over. -/
def close : ConnStage → ConnStage
  | .connecting | .opened => .closed
  | stage => stage

/-- The stage of a registered connection. -/
def ofOpen (isOpen : Bool) : ConnStage := if isOpen then .opened else .connecting

theorem ofOpen_le_opened (isOpen : Bool) : ofOpen isOpen ≤ .opened := by cases isOpen <;> decide

theorem ofOpen_le_closed (isOpen : Bool) : ofOpen isOpen ≤ .closed := by cases isOpen <;> decide

theorem close_ofOpen (isOpen : Bool) : (ofOpen isOpen).close = .closed := by cases isOpen <;> rfl

end ConnStage

/-! ## `Close` of one connection -/

def ConnState.stage (s : ConnState) : ConnStage :=
  if s.conn.handle = invalidHandle then .closed else .ofOpen s.conn.isOpen

theorem BaseConn.close_stage (s : ConnState) : wp close (fun _ t => t.stage = s.stage.close) Never s := by
  simp only [close, record, wp_bind, wp_get, wp_ite]
  split
  next closed =>
    rw [wp_pure, ConnState.stage, if_pos closed]
    rfl
  next registered =>
    rw [wp_set, wp_modify, ConnState.stage, ConnState.stage, if_pos rfl, if_neg registered, ConnStage.close_ofOpen]

def Dispatch.State.stage (s : Dispatch.State) : ConnStage := if s.registered then .ofOpen s.isOpen else .closed

theorem Dispatch.State.close_stage (s : Dispatch.State) : s.close.stage = s.stage.close := by
  unfold close stage
  split
  · exact (ConnStage.close_ofOpen _).symm
  · rfl

/-- A connection has a handle to close once `OnConnect` has registered it. -/
def Outlive.Life.stage : Outlive.Life → ConnStage
  | .absent | .made => .absent
  | .registered => .opened
  | .closed => .closed

theorem Outlive.State.baseClose_stage (s : Outlive.State) : s.baseClose.life.stage = s.life.stage.close := by
  unfold baseClose
  cases life : s.life with
  | registered => rfl
  | absent => exact congrArg Life.stage life
  | made => exact congrArg Life.stage life
  | closed => exact congrArg Life.stage life

def Accept.View.stage (v : Accept.View) : ConnStage := if v.inConnMap then .opened else if v.history = [] then .absent else .closed

theorem Accept.Inv.close_stage {n : Nat} {s : Accept.State} (inv : Accept.Inv n s) (h : NetHandle) :
    ((s.close n h).view n h).stage = (s.view n h).stage.close := by
  rw [Accept.State.close_eq, Accept.State.view_patch (List.forall_mem_nil _), List.append_nil]
  have stage := inv.stage h
  generalize s.view n h = v at stage
  cases stage <;> rfl

def Sockets.State.stage (s : Sockets.State) (baseSocket : Nat) : ConnStage :=
  if baseSocket ∈ s.conns then .opened else if baseSocket ∈ s.destroyed then .closed else .absent

theorem Sockets.close_stage (n : Nat) (s : Sockets.State) (baseSocket : Nat) :
    ((Sockets.Step.close baseSocket).exec n s).stage baseSocket = (s.stage baseSocket).close := by
  unfold Sockets.Step.exec
  dsimp only
  split
  next holds =>
    have out : baseSocket ∉ s.conns.filter (· != baseSocket) := fun member => by simpa using List.of_mem_filter member
    have gone : baseSocket ∈ s.destroyed ++ [baseSocket] := List.mem_append_right _ List.mem_cons_self
    rw [State.stage, State.stage, if_pos holds]
    exact (if_neg out).trans (if_pos gone)
  next lacks =>
    rw [State.stage, if_neg lacks]
    split <;> rfl

namespace Loop

def Conn.stage (conn : Conn) : ConnStage := if conn.handle.isSome then .ofOpen conn.isOpen else .closed

def Slot.stage (s : Slot) : ConnStage :=
  match s.conn with
  | .absent => .absent
  | .live conn => conn.stage
  | .freed => .destroyed

variable {h k : NetHandle} {s t : Slot} {w w₀ : World} {α β : Type}

theorem Fit.stage_of_closed {e f n : Nat} (fit : Fit h e (f + 1) n s) (unmapped : s.inSocketMap = false)
    (closes : s.tally.socketCloses = 1) : s.stage = .closed := by
  cases fit with
  | up => cases unmapped
  | down => rfl

/-- While a call holds the connection, `Close` is the step that it is in the other models. -/
theorem connClose_stage {e f n : Nat} (fit : Fit h e (f + 1) n s) : wp connClose (fun _ t => t.stage = s.stage.close) Never s := by
  obtain ⟨conn, live⟩ := fit.conn_live (Nat.succ_pos f)
  cases fit.usable live with
  | up state isOpen running is =>
    rw [is]
    refine (connClose_registered (h := h) (e := e) (f := f + 1) (n := n) state isOpen false).call fun _ t post => ?_
    rw [post.fit.stage_of_closed post.inSocketMap post.socketCloses]
    exact (ConnStage.close_ofOpen isOpen).symm
  | down g unparsed seen held is =>
    rw [is]
    refine connClose_closed.call fun _ t post => ?_
    rw [post.2]
    rfl

/-! ## Calls about a connection -/

/-- The call does not take the connection back. -/
def Onward (op : SlotM α) : Prop := ∀ s, wp op (fun _ t => s.stage ≤ t.stage) (fun _ _ => True) s

theorem Onward.bind {op : SlotM α} {rest : α → SlotM β} (first : Onward op) (next : ∀ a, Onward (rest a)) :
    Onward (op >>= rest) := by
  intro s
  rw [wp_bind]
  refine (first s).mono (fun a t ahead => ?_) fun _ _ h => h
  exact (next a t).mono (fun _ _ more => ConnStage.le_trans ahead more) fun _ _ h => h

theorem Onward.discard {op : SlotM α} (onward : Onward op) : Onward (discard op) := fun s => (wp_discard op).mpr (onward s)

/-- A connection that is used is live. -/
theorem Onward.derefConn {rest : Conn → SlotM α}
    (next : ∀ conn s, s.conn = .live conn → wp (rest conn) (fun _ t => conn.stage ≤ t.stage) (fun _ _ => True) s) :
    Onward (derefConn >>= rest) := by
  intro s
  rw [wp_bind, Loop.derefConn, wp_bind, wp_get]
  cases live : s.conn with
  | absent => exact trivial
  | freed => exact trivial
  | live conn =>
    have same : s.stage = conn.stage := by rw [Slot.stage, live]
    rw [same]
    exact next conn s live

theorem derefSocket_onward : Onward derefSocket := by
  intro s
  rw [derefSocket, wp_bind, wp_get]
  cases s.socket with
  | live socket => exact s.stage.le_refl
  | absent => exact trivial
  | freed => exact trivial

theorem derefConn_onward : Onward derefConn := by
  intro s
  rw [derefConn, wp_bind, wp_get]
  cases s.conn <;> first | exact s.stage.le_refl | exact trivial

theorem setSocket_onward (socket : Socket) : Onward (setSocket socket) := fun s => s.stage.le_refl

theorem socketAddRef_onward : Onward socketAddRef := derefSocket_onward.bind fun _ => setSocket_onward _

theorem socketReleaseRef_onward : Onward socketReleaseRef := by
  refine derefSocket_onward.bind fun socket s => ?_
  split
  · exact trivial
  · exact s.stage.le_refl
  · exact s.stage.le_refl

theorem setState_onward (state : SocketState) : Onward (setState state) := derefSocket_onward.bind fun _ => setSocket_onward _

theorem socketClose_onward : Onward socketClose := by
  refine (setState_onward .closing).bind fun _ s => ?_
  rw [wp_bind, wp_modify]
  exact socketReleaseRef_onward _

theorem connAddRef_onward : Onward connAddRef := .derefConn fun conn _ _ => conn.stage.le_refl

theorem setUnparsed_onward (unparsed : Nat) : Onward (setUnparsed unparsed) := .derefConn fun conn _ _ => conn.stage.le_refl

theorem Conn.stage_le_destroyed (conn : Conn) : conn.stage ≤ .destroyed := by
  unfold stage
  split
  · cases conn.isOpen <;> decide
  · decide

theorem Conn.stage_le_closed (conn : Conn) : conn.stage ≤ .closed := by
  unfold stage
  split
  · exact ConnStage.ofOpen_le_closed conn.isOpen
  · exact ConnStage.le_refl .closed

theorem connReleaseRef_onward : Onward connReleaseRef := by
  refine .derefConn fun conn s _ => ?_
  split
  · exact trivial
  · exact conn.stage_le_destroyed
  · exact conn.stage.le_refl

theorem connSend_onward : Onward connSend := by
  refine .derefConn fun conn s live => ?_
  have same : s.stage = conn.stage := by rw [Slot.stage, live]
  rw [wp_ite, ← same]
  split
  · exact derefSocket_onward.discard s
  · exact s.stage.le_refl

/-- The `CONFIRM` opens a connection that is not closed. -/
theorem connOnConfirm_onward (sends : Bool) : Onward (connOnConfirm sends) := by
  refine .derefConn fun conn s live => ?_
  have opened : conn.stage ≤ Conn.stage { conn with isOpen := true } := by
    unfold Conn.stage
    split
    · exact ConnStage.ofOpen_le_opened conn.isOpen
    · exact ConnStage.le_refl .closed
  rw [wp_bind, setConn, wp_modify]
  cases sends with
  | false => exact opened
  | true => exact (connSend_onward _).mono (fun _ _ more => ConnStage.le_trans opened more) fun _ _ h => h

theorem connOnWrite_onward (sends : Bool) : Onward (connOnWrite sends) := by
  refine derefConn_onward.discard.bind fun _ => ?_
  cases sends with
  | true => exact derefSocket_onward.discard
  | false => exact fun s => s.stage.le_refl

theorem connRecvData_onward (peerClosed : Bool) : Onward (connRecvData peerClosed) := by
  refine derefConn_onward.discard.bind fun _ => ?_
  cases peerClosed with
  | true => exact setState_onward .peerClosing
  | false => exact derefSocket_onward.discard

theorem noteClose_onward : Onward noteClose := fun s => s.stage.le_refl

theorem connClose_onward : Onward connClose := by
  refine .derefConn fun conn s live => ?_
  have same : s.stage = conn.stage := by rw [Slot.stage, live]
  rw [← same, wp_ite]
  split
  · exact s.stage.le_refl
  · rw [wp_bind, wp_modify, wp_bind]
    have rest : Onward (do
        let conn ← derefConn
        setConn { conn with handle := none, isOpen := false }
        connReleaseRef
        return true) := by
      refine .derefConn fun conn t _ => ?_
      rw [wp_bind, setConn, wp_modify, wp_bind]
      exact (connReleaseRef_onward _).mono (fun _ _ more => ConnStage.le_trans conn.stage_le_closed more) fun _ _ h => h
    refine (socketClose_onward _).mono (fun _ t ahead => ?_) fun _ _ h => h
    exact (rest t).mono (fun _ _ more => ConnStage.le_trans ahead more) fun _ _ h => h

/-! ## Calls in the loop -/

/-- No connection has gone back, and only those of some handles have gone on. -/
structure Ahead (w₀ w : World) : Prop where
  onward : ∀ k, (w₀.slot k).stage ≤ (w.slot k).stage
  few : ∃ touched : List NetHandle, ∀ k, k ∉ touched → (w.slot k).stage = (w₀.slot k).stage

theorem Ahead.refl (w : World) : Ahead w w := ⟨fun k => (w.slot k).stage.le_refl, [], fun _ _ => rfl⟩

theorem Ahead.setSlot (ahead : Ahead w₀ w) (later : (w₀.slot k).stage ≤ t.stage) : Ahead w₀ (w.setSlot k t) := by
  obtain ⟨onward, touched, few⟩ := ahead
  refine ⟨World.forall_setSlot (P := fun j s => (w₀.slot j).stage ≤ s.stage) later fun j _ => onward j, k :: touched, ?_⟩
  intro j untouched
  rw [World.setSlot_slot_ne w t (List.ne_of_not_mem_cons untouched)]
  exact few j (List.not_mem_of_not_mem_cons untouched)

theorem atSlot_ahead {op : SlotM α} (onward : Onward op) : Keeps (Ahead w₀) (atSlot k op) := by
  intro w ahead
  rw [atSlot, wp_zoom]
  refine (onward (w.slot k)).mono (fun _ t more => ?_) fun _ _ h => h
  exact ahead.setSlot (ConnStage.le_trans (ahead.onward k) more)

theorem close_ahead : Keeps (Ahead w₀) (close k) := by
  refine (atSlot_ahead connClose_onward).bind fun closed => ?_
  cases closed <;> exact fun _ ahead => ⟨ahead.onward, ahead.few⟩

/-- What is done for a connection or a socket that is found. -/
theorem found_ahead {x : LoopM Unit} (found : World → Bool) (keeps : Keeps (Ahead w₀) x) :
    Keeps (Ahead w₀) (do if found (← get) then x) := by
  intro w ahead
  rw [wp_bind, wp_get, wp_ite]
  split
  · exact keeps w ahead
  · exact ahead

theorem closeHandle_ahead : Keeps (Ahead w₀) (closeHandle k) := found_ahead (fun w => (w.slot k).inConnMap) close_ahead

/-- A new connection comes out of nothing. -/
theorem create_ahead {op : SlotM Unit} : Keeps (Ahead w₀) (create k op) := by
  intro w ahead
  rw [create, wp_bind, wp_get, wp_ite]
  split
  · next fresh =>
    have absent : (w.slot k).stage = .absent := by
      obtain ⟨-, noConn⟩ := Bool.and_eq_true_iff.mp fresh
      unfold Slot.stage
      cases conn : (w.slot k).conn with
      | absent => rfl
      | live => rw [conn] at noConn; cases noConn
      | freed => rw [conn] at noConn; cases noConn
    rw [atSlot, wp_zoom]
    refine wp_of_all (P := fun t => Ahead w₀ (w.setSlot k t)) fun t => ahead.setSlot ?_
    exact ConnStage.le_trans (absent ▸ ahead.onward k) t.stage.absent_le
  · exact ahead

theorem act_ahead (a : Act) : Keeps (Ahead w₀) (act h a) := by
  cases a with
  | close => exact close_ahead
  | send => exact atSlot_ahead connSend_onward
  | closeHandle k => exact closeHandle_ahead
  | connect k => exact create_ahead

theorem acts_ahead (acts : List Act) : Keeps (Ahead w₀) (acts.forM (act h)) :=
  fun _ ahead => wp_forM (fun a _ w ahead => act_ahead a w ahead) ahead

theorem connParsePkt_ahead (malformed : Bool) (pkts : List PktScript) : Keeps (Ahead w₀) (connParsePkt h malformed pkts) := by
  induction pkts with
  | nil =>
    cases malformed with
    | true => exact close_ahead
    | false => exact fun _ ahead => ahead
  | cons pkt pkts ih =>
    refine (atSlot_ahead (setUnparsed_onward _)).bind fun _ => (acts_ahead pkt.acts).bind fun _ => ?_
    split
    · exact close_ahead
    · refine (atSlot_ahead derefConn_onward).bind fun conn => ?_
      split
      · exact fun _ ahead => ahead
      · exact ih

theorem handleMsg_ahead (msg : Msg) : Keeps (Ahead w₀) (handleMsg h msg) := by
  cases msg with
  | confirm sends => exact atSlot_ahead (connOnConfirm_onward sends)
  | write sends => exact atSlot_ahead (connOnWrite_onward sends)
  | read reading =>
    exact (atSlot_ahead (connRecvData_onward _)).bind fun _ =>
      (atSlot_ahead (setUnparsed_onward _)).bind fun _ => connParsePkt_ahead _ _
  | close => exact (atSlot_ahead noteClose_onward).bind fun _ => close_ahead
  | timer timedOut =>
    cases timedOut with
    | true => exact close_ahead
    | false => exact fun _ ahead => ahead

theorem callback_ahead (msg : Msg) (after : List Act) : Keeps (Ahead w₀) (callback h msg after) := by
  refine (atSlot_ahead derefSocket_onward).bind fun socket => ?_
  split
  · exact fun _ ahead => ahead
  · exact (atSlot_ahead connAddRef_onward).bind fun _ => (handleMsg_ahead msg).bind fun _ =>
      (acts_ahead after).bind fun _ => atSlot_ahead connReleaseRef_onward

theorem socketOnRead_ahead (input : Input) : Keeps (Ahead w₀) (socketOnRead h input) := by
  refine (atSlot_ahead derefSocket_onward).bind fun socket => ?_
  split
  · exact fun _ ahead => wp_forM (fun _ _ w ahead => create_ahead w ahead) ahead
  · split
    · exact callback_ahead _ _
    · refine (callback_ahead _ _).bind fun _ => (atSlot_ahead derefSocket_onward).bind fun socket => ?_
      split
      · exact callback_ahead _ _
      · exact fun _ ahead => ahead

theorem socketOnClose_ahead (after : List Act) : Keeps (Ahead w₀) (socketOnClose h after) := by
  refine (atSlot_ahead derefSocket_onward).bind fun socket => ?_
  split
  · exact fun _ ahead => ahead
  · exact (atSlot_ahead (setState_onward _)).bind fun _ => callback_ahead _ _

theorem socketOnWrite_ahead (output : Output) : Keeps (Ahead w₀) (socketOnWrite h output) := by
  refine (atSlot_ahead derefSocket_onward).bind fun socket => ?_
  split
  · split
    · exact callback_ahead _ _
    · split
      · exact socketOnClose_ahead _
      · exact (atSlot_ahead (setState_onward _)).bind fun _ => callback_ahead _ _
  · exact callback_ahead _ _
  · exact fun _ ahead => ahead

theorem socketOnTimer_ahead (timedOut : Bool) (after : List Act) : Keeps (Ahead w₀) (socketOnTimer h timedOut after) := by
  refine (atSlot_ahead derefSocket_onward).bind fun socket => ?_
  split
  · exact callback_ahead _ _
  · exact fun _ ahead => ahead

theorem dispatch_ahead (ready : Ready) : Keeps (Ahead w₀) (dispatch ready) := by
  refine (atSlot_ahead socketAddRef_onward).bind fun _ => ?_
  refine Keeps.bind (fun _ ahead => wp_option_forM (fun input _ => socketOnRead_ahead input _ ahead) ahead) fun _ => ?_
  refine Keeps.bind (fun _ ahead => wp_option_forM (fun output _ => socketOnWrite_ahead output _ ahead) ahead) fun _ => ?_
  refine Keeps.bind (fun _ ahead => wp_option_forM (fun after _ => socketOnClose_ahead after _ ahead) ahead) fun _ => ?_
  exact atSlot_ahead socketReleaseRef_onward

theorem visit_ahead (v : Visit) : Keeps (Ahead w₀) (visit v) :=
  found_ahead (fun w => (w.slot v.handle).inSocketMap) (socketOnTimer_ahead _ _)

theorem sendPosted_ahead : Keeps (Ahead w₀) (sendPosted k) :=
  found_ahead (fun w => (w.slot k).inConnMap) (atSlot_ahead connSend_onward)

/-- **No step takes a connection back**, and it changes finitely many. -/
theorem step_ahead (step : Step) : Keeps (Ahead w₀) step.exec := by
  cases step with
  | listen h => exact create_ahead
  | connect h => exact create_ahead
  | register h => exact create_ahead
  | dispatch ready => exact found_ahead (fun w => (w.slot ready.handle).inSocketMap) (dispatch_ahead ready)
  | timer visits => exact fun _ ahead => wp_forM (fun v _ w ahead => visit_ahead v w ahead) ahead
  | posted pkts closes =>
    refine Keeps.bind (fun _ ahead => wp_forM (fun h _ w ahead => sendPosted_ahead w ahead) ahead) fun _ => ?_
    exact fun _ ahead => wp_forM (fun h _ w ahead => closeHandle_ahead w ahead) ahead

end Loop

end Netter
