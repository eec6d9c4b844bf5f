import Netter.Loop.Model

/-!
# The life of a handle

`Fit` says how far a handle has come: not used, a listener, a registered connection, or one that is
closed. It counts the references that running calls hold, and with them it decides both objects,
both table entries and what has happened only once. Every call of the socket and of the connection
keeps it, and none of them uses a deleted object.
-/

namespace Netter.Loop

open Lib

/-- A closed socket with `e` references left. -/
def heldSocket : Nat → Cell Socket
  | 0 => .freed
  | e + 1 => .live ⟨.closing, .connCallback, e + 1⟩

/-- A closed connection with `f` references left. -/
def heldConn (unparsed : Nat) : Nat → Cell Conn
  | 0 => .freed
  | f + 1 => .live ⟨none, false, unparsed, f + 1⟩

/-- What has happened to a closed connection: its objects go with their last references. -/
def closedTally (e f : Nat) : Tally := ⟨1, 1, if e = 0 then 1 else 0, if f = 0 then 1 else 0⟩

/-- The states between `Connect` or `CONNECT` and the first `CLOSE`. -/
def Calm (state : SocketState) : Prop := state = .connecting ∨ state = .connected

theorem Calm.not_listening {state : SocketState} (calm : Calm state) : state ≠ .listening := by
  rcases calm with is | is <;> rw [is] <;> nofun

/-- The states of the socket of a connection with `e` running calls: what they have begun to close they close. -/
structure Running (e : Nat) (state : SocketState) : Prop where
  reads : state ≠ .listening
  calm : e = 0 → Calm state

theorem Running.of_calm {e : Nat} {state : SocketState} (calm : Calm state) : Running e state :=
  ⟨calm.not_listening, fun _ => calm⟩

theorem Running.called {e e' : Nat} {state : SocketState} (running : Running e state) : Running (e' + 1) state :=
  ⟨running.reads, nofun⟩

/-- The slot of `h` while running calls hold `e` references to its socket and `f` to its connection, and
have `n` packets of its buffer still to parse. -/
inductive Fit (h : NetHandle) : Nat → Nat → Nat → Slot → Prop where
  | fresh : Fit h 0 0 0 .fresh
  | listener (e : Nat) (state : SocketState) :
      Fit h e 0 0 ⟨.live ⟨state, .connectCallback, e + 1⟩, .absent, true, false, .zero, false⟩
  | up (e f n : Nat) (state : SocketState) (isOpen : Bool) (running : Running e state) :
      Fit h e f n ⟨.live ⟨state, .connCallback, e + 1⟩, .live ⟨some h, isOpen, n, f + 1⟩,
        true, true, .zero, false⟩
  | down (e f n unparsed : Nat) (seen : Bool) :
      Fit h e f n ⟨heldSocket e, heldConn unparsed f, false, false, closedTally e f, seen⟩

/-- What a call other than `Close` leaves as it was. -/
structure Frame (s t : Slot) : Prop where
  inSocketMap : t.inSocketMap = s.inSocketMap
  socketCloses : t.tally.socketCloses = s.tally.socketCloses
  conn : t.conn.isAbsent = s.conn.isAbsent

variable {h : NetHandle} {e f n : Nat} {s : Slot}

/-- A reference keeps its object alive. -/
theorem Fit.socket_live (fit : Fit h e f n s) (held : 0 < e) : ∃ socket, s.socket = .live socket := by
  cases fit with
  | fresh => cases held
  | listener => exact ⟨_, rfl⟩
  | up => exact ⟨_, rfl⟩
  | down e =>
    cases e with
    | zero => cases held
    | succ e => exact ⟨_, rfl⟩

theorem Fit.conn_live (fit : Fit h e f n s) (held : 0 < f) : ∃ conn, s.conn = .live conn := by
  cases fit with
  | fresh => cases held
  | listener => cases held
  | up => exact ⟨_, rfl⟩
  | down e f =>
    cases f with
    | zero => cases held
    | succ f => exact ⟨_, rfl⟩

theorem Fit.conn_live_of_inConnMap (fit : Fit h e f n s) (mapped : s.inConnMap = true) :
    ∃ conn, s.conn = .live conn := by
  cases fit with
  | up => exact ⟨_, rfl⟩
  | fresh => cases mapped
  | listener => cases mapped
  | down => cases mapped

/-- `conn_callback` is set together with the connection it is called with. -/
theorem Fit.conn_live_of_callback {socket : Socket} (fit : Fit h e f n s) (mapped : s.inSocketMap = true)
    (live : s.socket = .live socket) (callback : socket.callback = .connCallback) :
    ∃ conn, s.conn = .live conn := by
  cases fit with
  | listener =>
    cases live
    cases callback
  | up => exact ⟨_, rfl⟩
  | fresh => cases mapped
  | down => cases mapped

/-- A socket in the map that has no connection. -/
structure Slot.Listens (s : Slot) : Prop where
  absent : s.conn.isAbsent = true
  mapped : s.inSocketMap = true

theorem Fit.connect_callback (fit : Fit h e f n s) (listens : s.Listens) :
    ∃ socket, s.socket = .live socket ∧ socket.callback = .connectCallback := by
  obtain ⟨absent, mapped⟩ := listens
  cases fit with
  | listener => exact ⟨_, rfl, rfl⟩
  | up => cases absent
  | fresh => cases mapped
  | down => cases mapped

theorem Fit.conn_callback (fit : Fit h e f n s) (mapped : s.inSocketMap = true) (made : s.conn.isAbsent = false) :
    ∃ socket, s.socket = .live socket ∧ socket.callback = .connCallback := by
  cases fit with
  | up => exact ⟨_, rfl, rfl⟩
  | listener => cases made
  | fresh => cases mapped
  | down => cases mapped

/-- A closed socket is in the state `SOCKET_STATE_CLOSING`, which stops every later callback. -/
theorem Fit.inSocketMap_of_state {socket : Socket} (fit : Fit h e f n s) (live : s.socket = .live socket)
    (state : socket.state ≠ .closing) : s.inSocketMap = true := by
  cases fit with
  | listener => rfl
  | up => rfl
  | fresh => cases live
  | down e =>
    cases e with
    | zero => cases live
    | succ e =>
      cases live
      exact absurd rfl state

/-- A connection that can be used is registered, or closed and held by a running call. -/
inductive Usable (h : NetHandle) (e f n : Nat) (s : Slot) : Prop where
  | up (state : SocketState) (isOpen : Bool) (running : Running e state)
      (is : s = ⟨.live ⟨state, .connCallback, e + 1⟩, .live ⟨some h, isOpen, n, f + 1⟩, true, true, .zero, false⟩)
  | down (g unparsed : Nat) (seen : Bool) (held : f = g + 1)
      (is : s = ⟨heldSocket e, .live ⟨none, false, unparsed, g + 1⟩, false, false, closedTally e (g + 1), seen⟩)

theorem Fit.usable {conn : Conn} (fit : Fit h e f n s) (live : s.conn = .live conn) : Usable h e f n s := by
  cases fit with
  | fresh => cases live
  | listener => cases live
  | up e f n state isOpen running => exact .up state isOpen running rfl
  | down e f n unparsed seen =>
    cases f with
    | zero => cases live
    | succ g => exact .down g unparsed seen rfl rfl

theorem Fit.unmapped_of_closed {conn : Conn} (fit : Fit h e f n s) (live : s.conn = .live conn)
    (closed : conn.handle.isNone = true) : s.inSocketMap = false := by
  cases fit.usable live with
  | up state isOpen running is =>
    rw [is] at live
    cases live
    cases closed
  | down g unparsed seen held is => rw [is]

/-! ## Calls -/

theorem socketAddRef_fit (fit : Fit h e f n s) (mapped : s.inSocketMap = true) :
    wp socketAddRef (fun _ t => Fit h (e + 1) f n t ∧ Frame s t) Never s := by
  cases fit with
  | fresh => cases mapped
  | down => cases mapped
  | listener e state => exact ⟨.listener (e + 1) state, ⟨rfl, rfl, rfl⟩⟩
  | up e f n state isOpen running => exact ⟨.up (e + 1) f n state isOpen running.called, ⟨rfl, rfl, rfl⟩⟩

/-- The last call has closed the connection, or left its socket as it is between two steps. -/
theorem socketReleaseRef_fit (fit : Fit h (e + 1) f n s)
    (calm : ∀ state isOpen, s = ⟨.live ⟨state, .connCallback, e + 2⟩, .live ⟨some h, isOpen, n, f + 1⟩,
      true, true, .zero, false⟩ → e = 0 → Calm state) :
    wp socketReleaseRef (fun _ t => Fit h e f n t ∧ Frame s t) Never s := by
  cases fit with
  | listener e state => exact ⟨.listener e state, ⟨rfl, rfl, rfl⟩⟩
  | up e f n state isOpen running =>
    exact ⟨.up e f n state isOpen ⟨running.reads, calm state isOpen rfl⟩, ⟨rfl, rfl, rfl⟩⟩
  | down e f n unparsed seen =>
    cases e with
    | zero => exact ⟨.down 0 f n unparsed seen, ⟨rfl, rfl, rfl⟩⟩
    | succ e => exact ⟨.down (e + 1) f n unparsed seen, ⟨rfl, rfl, rfl⟩⟩

theorem connAddRef_fit {conn : Conn} (fit : Fit h e f n s) (live : s.conn = .live conn) :
    wp connAddRef (fun _ t => Fit h e (f + 1) n t ∧ Frame s t) Never s := by
  cases fit.usable live with
  | up state isOpen running is =>
    rw [is]
    exact ⟨.up e (f + 1) n state isOpen running, ⟨rfl, rfl, rfl⟩⟩
  | down g unparsed seen held is =>
    rw [held, is]
    exact ⟨.down e (g + 2) n unparsed seen, ⟨rfl, rfl, rfl⟩⟩

theorem connReleaseRef_fit (fit : Fit h e (f + 1) n s) :
    wp connReleaseRef (fun _ t => Fit h e f n t ∧ Frame s t) Never s := by
  cases fit with
  | up e f n state isOpen running => exact ⟨.up e f n state isOpen running, ⟨rfl, rfl, rfl⟩⟩
  | down e f n unparsed seen =>
    cases f with
    | zero => exact ⟨.down e 0 n unparsed seen, ⟨rfl, rfl, rfl⟩⟩
    | succ f => exact ⟨.down e (f + 1) n unparsed seen, ⟨rfl, rfl, rfl⟩⟩

/-- A change of the state that a running call makes before the connection is closed. -/
theorem setState_fit (state : SocketState) (fit : Fit h e f n s) (mapped : s.inSocketMap = true)
    (running : Running e state) : wp (setState state) (fun _ t => Fit h e f n t ∧ Frame s t) Never s := by
  cases fit with
  | fresh => cases mapped
  | down => cases mapped
  | listener e _ => exact ⟨.listener e state, ⟨rfl, rfl, rfl⟩⟩
  | up e f n _ isOpen _ => exact ⟨.up e f n state isOpen running, ⟨rfl, rfl, rfl⟩⟩

theorem setUnparsed_fit {conn : Conn} (m : Nat) (fit : Fit h e f n s) (live : s.conn = .live conn) :
    wp (setUnparsed m) (fun _ t => Fit h e f m t ∧ Frame s t) Never s := by
  cases fit.usable live with
  | up state isOpen running is =>
    rw [is]
    exact ⟨.up e f m state isOpen running, ⟨rfl, rfl, rfl⟩⟩
  | down g unparsed seen held is =>
    rw [held, is]
    exact ⟨.down e (g + 1) m m seen, ⟨rfl, rfl, rfl⟩⟩

/-- A closed connection does not touch its socket: it is not open. -/
theorem connSend_fit {conn : Conn} (fit : Fit h e f n s) (live : s.conn = .live conn) :
    wp connSend (fun _ t => Fit h e f n t ∧ Frame s t) Never s := by
  cases fit.usable live with
  | up state isOpen running is =>
    rw [is]
    cases isOpen with
    | true => exact ⟨.up e f n state true running, ⟨rfl, rfl, rfl⟩⟩
    | false => exact ⟨.up e f n state false running, ⟨rfl, rfl, rfl⟩⟩
  | down g unparsed seen held is =>
    rw [held, is]
    exact ⟨.down e (g + 1) n unparsed seen, ⟨rfl, rfl, rfl⟩⟩

/-- A handler that starts on a registered connection. -/
theorem Fit.registered {conn : Conn} (fit : Fit h e f n s) (mapped : s.inSocketMap = true)
    (live : s.conn = .live conn) : ∃ state isOpen, Running e state ∧
      s = ⟨.live ⟨state, .connCallback, e + 1⟩, .live ⟨some h, isOpen, n, f + 1⟩, true, true, .zero, false⟩ := by
  cases fit.usable live with
  | up state isOpen running is => exact ⟨state, isOpen, running, is⟩
  | down g unparsed seen held is =>
    rw [is] at mapped
    cases mapped

theorem connRecvData_fit {conn : Conn} (peerClosed : Bool) (fit : Fit h e f n s) (mapped : s.inSocketMap = true)
    (live : s.conn = .live conn) (called : 0 < e) : wp (connRecvData peerClosed) (fun _ t => Fit h e f n t ∧ Frame s t) Never s := by
  obtain ⟨state, isOpen, running, rfl⟩ := fit.registered mapped live
  cases peerClosed with
  | true =>
    have running : Running e .peerClosing := ⟨nofun, fun none => absurd none (Nat.ne_of_gt called)⟩
    exact ⟨.up e f n .peerClosing isOpen running, ⟨rfl, rfl, rfl⟩⟩
  | false => exact ⟨.up e f n state isOpen running, ⟨rfl, rfl, rfl⟩⟩

theorem connOnConfirm_fit {conn : Conn} (sends : Bool) (fit : Fit h e f n s) (mapped : s.inSocketMap = true)
    (live : s.conn = .live conn) : wp (connOnConfirm sends) (fun _ t => Fit h e f n t ∧ Frame s t) Never s := by
  obtain ⟨state, isOpen, running, rfl⟩ := fit.registered mapped live
  cases sends <;> exact ⟨.up e f n state true running, ⟨rfl, rfl, rfl⟩⟩

theorem connOnWrite_fit {conn : Conn} (sends : Bool) (fit : Fit h e f n s) (mapped : s.inSocketMap = true)
    (live : s.conn = .live conn) : wp (connOnWrite sends) (fun _ t => Fit h e f n t ∧ Frame s t) Never s := by
  obtain ⟨state, isOpen, running, rfl⟩ := fit.registered mapped live
  cases sends <;> exact ⟨.up e f n state isOpen running, ⟨rfl, rfl, rfl⟩⟩

/-! ## `Close` -/

theorem Fit.conn_made (fit : Fit h e f n s) (closed : s.tally.socketCloses = 1) : s.conn.isAbsent = false := by
  cases fit with
  | fresh => cases closed
  | listener => cases closed
  | up => cases closed
  | down e f => cases f <;> rfl

/-- What `BaseSocket::Close` leaves of a registered socket. -/
theorem wp_socketClose {state : SocketState} {conn : Cell Conn} {mapped seen : Bool}
    {Q : Unit → Slot → Prop} {E : Stop → Slot → Prop}
    (post : Q ⟨⟩ ⟨heldSocket e, conn, false, mapped, ⟨1, 1, if e = 0 then 1 else 0, 0⟩, seen⟩) :
    wp socketClose Q E ⟨.live ⟨state, .connCallback, e + 1⟩, conn, true, mapped, .zero, seen⟩ := by
  cases e with
  | zero => exact post
  | succ e => exact post

/-- What `BaseConn::Close` says and leaves when it gets past its check. -/
structure Closes (h : NetHandle) (e f n : Nat) (closed : Bool) (t : Slot) : Prop where
  fit : Fit h e f n t
  closed : closed = true
  inSocketMap : t.inSocketMap = false
  socketCloses : t.tally.socketCloses = 1

/-- **`Close` of a registered connection**, also when it comes from a `CLOSE` callback. -/
theorem connClose_registered (state : SocketState) (isOpen seen : Bool) :
    wp connClose (Closes h e f n) Never
      ⟨.live ⟨state, .connCallback, e + 1⟩, .live ⟨some h, isOpen, n, f + 1⟩, true, true, .zero, seen⟩ := by
  simp only [connClose, derefConn, Cell.get, wp_bind, wp_get, wp_ofExcept_ok, Option.isNone_some,
    Bool.false_eq_true, if_false, wp_modify]
  apply wp_socketClose
  cases f with
  | zero => exact ⟨.down e 0 n n seen, rfl, rfl, rfl⟩
  | succ f => exact ⟨.down e (f + 1) n n seen, rfl, rfl, rfl⟩

/-- A closed connection is passed over. -/
theorem connClose_closed {g unparsed : Nat} {socket : Cell Socket} {mapped inMap seen : Bool} {tally : Tally} :
    wp connClose (fun closed t => closed = false ∧
      t = ⟨socket, .live ⟨none, false, unparsed, g⟩, mapped, inMap, tally, seen⟩) Never
      ⟨socket, .live ⟨none, false, unparsed, g⟩, mapped, inMap, tally, seen⟩ := ⟨rfl, rfl⟩

/-! ## New handles -/

theorem Fit.eq_fresh (fit : Fit h e f n s) (unused : s.isFresh = true) : e = 0 ∧ f = 0 ∧ n = 0 ∧ s = .fresh := by
  cases fit with
  | fresh => exact ⟨rfl, rfl, rfl, rfl⟩
  | listener => cases unused
  | up => cases unused
  | down e => cases e <;> cases unused

/-- What brings a new handle into the loop. -/
def Creates (h : NetHandle) (op : SlotM Unit) : Prop :=
  wp op (fun _ t => Fit h 0 0 0 t ∧ t.inSocketMap = true) Never .fresh

theorem connectSocket_creates : Creates h (connectSocket h) := ⟨.up 0 0 0 .connecting false (.of_calm (.inl rfl)), rfl⟩

theorem acceptSocket_creates : Creates h (acceptSocket .connectCallback h) :=
  ⟨.up 0 0 0 .connected true (.of_calm (.inr rfl)), rfl⟩

theorem listenSocket_creates : Creates h listenSocket := ⟨.listener 0 .listening, rfl⟩

end Netter.Loop
