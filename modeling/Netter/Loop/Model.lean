import Netter.Lib.Wp
import Netter.Conn.Model

/-!
# The event loop

One event loop with the sockets and connections it owns. No two of them share a handle, so a handle
stands for one `BaseSocket` and, unless it listens, one `BaseConn`: a `Slot` holds the two objects,
their entries in `socket_map_` and `conn_map`, and a count of what may happen only once. Objects are
used through their cells, and a use after the deletion is undefined behaviour.

The bytes and the clocks are left out, as is the wakeup socket. What the kernel answers and what an
override of a callback does are part of the input; an override calls back into the library in any
way it likes. A `Connect` whose socket cannot be opened registers nothing, and is left out too.
-/

namespace Netter.Loop

open Lib

/-- A heap object over its life. -/
inductive Cell (α : Type) where
  | absent
  | live (object : α)
  | freed

/-- A use of the object. -/
def Cell.get {α : Type} : Cell α → Except Stop α
  | live object => .ok object
  | _ => .error .undefined

/-- The object has not been made. -/
def Cell.isAbsent {α : Type} : Cell α → Bool
  | .absent => true
  | _ => false

/-- `m_callback` of a socket. -/
inductive CallbackFn where
  | connectCallback
  | connCallback
  deriving DecidableEq

/-- A `BaseSocket`. -/
structure Socket where
  state : SocketState
  callback : CallbackFn
  refCount : Nat

/-- A `BaseConn`; `handle` is `none` for `NETLIB_INVALID_HANDLE`. -/
structure Conn where
  handle : Option NetHandle
  isOpen : Bool
  /-- The complete packets in `m_in_buf` that `HandlePkt` has not been called with. -/
  unparsed : Nat
  refCount : Nat

structure Tally where
  /-- Calls of `BaseSocket::Close`. -/
  socketCloses : Nat
  /-- `close(m_socket)`. -/
  fdCloses : Nat
  socketDeletes : Nat
  connDeletes : Nat

def Tally.zero : Tally := ⟨0, 0, 0, 0⟩

structure Slot where
  socket : Cell Socket
  conn : Cell Conn
  inSocketMap : Bool
  inConnMap : Bool
  tally : Tally
  /-- A `CLOSE` callback has been delivered to the connection. -/
  closeSeen : Bool

/-- A handle that no socket has yet. -/
def Slot.fresh : Slot := ⟨.absent, .absent, false, false, .zero, false⟩

def Slot.isFresh (s : Slot) : Bool := s.socket.isAbsent && s.conn.isAbsent

abbrev SlotM := EStateM Stop Slot

/-! ## `BaseSocket` -/

def derefSocket : SlotM Socket := do MonadExcept.ofExcept (← get).socket.get

def setSocket (socket : Socket) : SlotM Unit := modify fun s => { s with socket := .live socket }

def socketAddRef : SlotM Unit := do
  let socket ← derefSocket
  setSocket { socket with refCount := socket.refCount + 1 }

/-- The last release deletes the object. A count that would go below zero ends the run. -/
def socketReleaseRef : SlotM Unit := do
  let socket ← derefSocket
  match socket.refCount with
  | 0 => throw .undefined
  | 1 => modify fun s =>
      { s with socket := .freed, tally := { s.tally with socketDeletes := s.tally.socketDeletes + 1 } }
  | n + 2 => setSocket { socket with refCount := n + 1 }

def setState (state : SocketState) : SlotM Unit := do
  let socket ← derefSocket
  setSocket { socket with state }

/-- `BaseSocket::Close`. -/
def socketClose : SlotM Unit := do
  setState .closing
  modify fun s =>
    { s with
      inSocketMap := false
      tally := { s.tally with
        socketCloses := s.tally.socketCloses + 1
        fdCloses := s.tally.fdCloses + 1 } }
  socketReleaseRef

/-! ## `BaseConn` -/

def derefConn : SlotM Conn := do MonadExcept.ofExcept (← get).conn.get

def setConn (conn : Conn) : SlotM Unit := modify fun s => { s with conn := .live conn }

def connAddRef : SlotM Unit := do
  let conn ← derefConn
  setConn { conn with refCount := conn.refCount + 1 }

def connReleaseRef : SlotM Unit := do
  let conn ← derefConn
  match conn.refCount with
  | 0 => throw .undefined
  | 1 => modify fun s =>
      { s with conn := .freed, tally := { s.tally with connDeletes := s.tally.connDeletes + 1 } }
  | n + 2 => setConn { conn with refCount := n + 1 }

/-- `BaseConn::Close`; says whether it got past the check of `m_handle`. -/
def connClose : SlotM Bool := do
  if (← derefConn).handle.isNone then
    return false
  modify fun s => { s with inConnMap := false }
  socketClose
  let conn ← derefConn
  setConn { conn with handle := none, isOpen := false }
  connReleaseRef
  return true

/-- `Send` and `SendPkt`: a connection that is not open does not touch its socket. -/
def connSend : SlotM Unit := do
  if (← derefConn).isOpen then
    discard derefSocket

/-- `_RecvData`; `recv` may have returned 0 in the end. -/
def connRecvData (peerClosed : Bool) : SlotM Unit := do
  discard derefConn
  if peerClosed then
    setState .peerClosing
  else
    discard derefSocket

def setUnparsed (unparsed : Nat) : SlotM Unit := do
  let conn ← derefConn
  setConn { conn with unparsed }

/-- Records that a `CLOSE` callback has come. -/
def noteClose : SlotM Unit := modify fun s => { s with closeSeen := true }

/-- `BaseConn::OnConfirm`, with or without packets that wait. -/
def connOnConfirm (sends : Bool) : SlotM Unit := do
  let conn ← derefConn
  setConn { conn with isOpen := true }
  if sends then
    connSend

/-- `BaseConn::OnWrite`, with or without a backlog. -/
def connOnWrite (sends : Bool) : SlotM Unit := do
  discard derefConn
  if sends then
    discard derefSocket

/-! ## Registration -/

/-- `AddEvent(fd, … | SOCKET_ADD_CONN, this)` in the loop thread. -/
def addEvent : SlotM Unit := do
  discard derefSocket
  modify fun s => { s with inSocketMap := true }

/-- `BaseSocket::Connect` up to `AddEvent`, for a new socket and a connection without a handle. -/
def openSocket : SlotM Unit :=
  modify fun s =>
    { s with socket := .live ⟨.connecting, .connCallback, 1⟩, conn := .live ⟨none, false, 0, 1⟩ }

/-- `m_handle = …` in `BaseConn::Connect`. -/
def assignHandle (handle : NetHandle) : SlotM Unit := do
  let conn ← derefConn
  setConn { conn with handle := some handle }

/-- `conn_map.insert(make_pair(m_handle, this))`. -/
def insertConn : SlotM Unit := do
  discard derefConn
  modify fun s => { s with inConnMap := true }

/-- `BaseConn::OnConnect`. -/
def connOnConnect (handle : NetHandle) : SlotM Unit := do
  let conn ← derefConn
  setConn { conn with isOpen := true, handle := some handle }
  insertConn
  let socket ← derefSocket
  setSocket { socket with callback := .connCallback }

/-- `BaseSocket::OnConnect`; only `connect_callback` knows the message. -/
def socketOnConnect (handle : NetHandle) : SlotM Unit := do
  match (← derefSocket).callback with
  | .connCallback => return
  | .connectCallback => do
    modify fun s => { s with conn := .live ⟨none, false, 0, 1⟩ }
    connOnConnect handle

/-- An accepted socket with the callback of its listener, as its loop registers it. -/
def acceptSocket (callback : CallbackFn) (handle : NetHandle) : SlotM Unit := do
  modify fun s => { s with socket := .live ⟨.connected, callback, 1⟩ }
  addEvent
  socketOnConnect handle

/-- `BaseConn::Connect` in the loop thread. -/
def connectSocket (handle : NetHandle) : SlotM Unit := do
  openSocket
  addEvent
  assignHandle handle
  insertConn

/-- `BaseSocket::Listen`. -/
def listenSocket : SlotM Unit := do
  modify fun s => { s with socket := .live ⟨.listening, .connectCallback, 1⟩ }
  addEvent

/-! ## The loop -/

structure World where
  slot : NetHandle → Slot
  /-- The entries of `events` that are still to be handled. -/
  pending : List NetHandle
  /-- The connections that were closed while an entry of their socket was still to be handled. -/
  crossings : List NetHandle
  /-- The entries handled so far, and whether the socket was in `socket_map_` then. -/
  dispatched : List (NetHandle × Bool)

def World.init : World := ⟨fun _ => .fresh, [], [], []⟩

def World.setSlot (w : World) (h : NetHandle) (s : Slot) : World :=
  { w with slot := fun k => if k = h then s else w.slot k }

abbrev LoopM := EStateM Stop World

def atSlot {α : Type} (h : NetHandle) (x : SlotM α) : LoopM α := zoom (·.slot h) (·.setSlot h ·) x

/-- A new handle is not one in use. -/
def create (h : NetHandle) (x : SlotM Unit) : LoopM Unit := do
  if ((← get).slot h).isFresh then
    atSlot h x

/-- `BaseConn::Close`. -/
def close (h : NetHandle) : LoopM Unit := do
  if ← atSlot h connClose then
    modify fun w => { w with crossings := if h ∈ w.pending then w.crossings ++ [h] else w.crossings }

/-- `BaseConn::CloseHandle` in the loop thread. -/
def closeHandle (h : NetHandle) : LoopM Unit := do
  if ((← get).slot h).inConnMap then
    close h

/-- What an override may do with its own connection and with others. -/
inductive Act where
  | close
  | send
  | closeHandle (handle : NetHandle)
  | connect (handle : NetHandle)
  deriving DecidableEq

def act (h : NetHandle) : Act → LoopM Unit
  | .close => close h
  | .send => atSlot h connSend
  | .closeHandle k => closeHandle k
  | .connect k => create k (connectSocket k)

/-- `HandlePkt` for one packet; an exception ends the parse loop. -/
structure PktScript where
  acts : List Act
  throws : Bool

structure Reading where
  /-- `recv` returns 0 in the end. -/
  peerClosed : Bool
  /-- The complete packets in the buffer. -/
  pkts : List PktScript
  /-- `ReadPacket` throws on what follows them. -/
  malformed : Bool

/-- `_ParsePkt`. -/
def connParsePkt (h : NetHandle) (malformed : Bool) : List PktScript → LoopM Unit
  | [] => do
    if malformed then
      close h
  | pkt :: pkts => do
    atSlot h (setUnparsed pkts.length)
    pkt.acts.forM (act h)
    if pkt.throws then
      close h
    else if (← atSlot h derefConn).handle.isNone then
      return
    else
      connParsePkt h malformed pkts

/-- A message of `conn_callback`, with what its handler meets. -/
inductive Msg where
  | confirm (sends : Bool)
  | read (reading : Reading)
  | write (sends : Bool)
  | close
  | timer (timedOut : Bool)

/-- The handlers of `BaseConn`. -/
def handleMsg (h : NetHandle) : Msg → LoopM Unit
  | .confirm sends => atSlot h (connOnConfirm sends)
  | .read reading => do
    atSlot h (connRecvData reading.peerClosed)
    atSlot h (setUnparsed reading.pkts.length)
    connParsePkt h reading.malformed reading.pkts
  | .write sends => atSlot h (connOnWrite sends)
  | .close => do
    atSlot h noteClose
    close h
  | .timer timedOut => do
    if timedOut then
      close h

/-- `conn_callback`; an override goes on with `after` when the handler of `BaseConn` has returned. -/
def connCallback (h : NetHandle) (msg : Msg) (after : List Act) : LoopM Unit := do
  atSlot h connAddRef
  handleMsg h msg
  after.forM (act h)
  atSlot h connReleaseRef

/-- `m_callback(m_callback_data, msg, …)`; `connect_callback` prints an error for these messages. -/
def callback (h : NetHandle) (msg : Msg) (after : List Act) : LoopM Unit := do
  match (← atSlot h derefSocket).callback with
  | .connectCallback => return
  | .connCallback => connCallback h msg after

/-- What `BaseSocket::OnRead` meets: the sockets `accept` gives, or the readable bytes. -/
structure Input where
  accepted : List NetHandle
  avail : Bool
  reading : Reading
  afterRead : List Act
  afterClose : List Act

/-- What `BaseSocket::OnWrite` meets. -/
structure Output where
  error : Bool
  tcpLoop : Bool
  sends : Bool
  after : List Act

/-- `BaseSocket::OnRead`. -/
def socketOnRead (h : NetHandle) (input : Input) : LoopM Unit := do
  let socket ← atSlot h derefSocket
  if socket.state = .listening then
    input.accepted.forM fun k => create k (acceptSocket socket.callback k)
  else if ¬ input.avail then
    callback h .close input.afterClose
  else do
    callback h (.read input.reading) input.afterRead
    if (← atSlot h derefSocket).state = .peerClosing then
      callback h .close input.afterClose

/-- `BaseSocket::OnClose`. -/
def socketOnClose (h : NetHandle) (after : List Act) : LoopM Unit := do
  if (← atSlot h derefSocket).state = .closing then
    return
  atSlot h (setState .closing)
  callback h .close after

/-- `BaseSocket::OnWrite`. -/
def socketOnWrite (h : NetHandle) (output : Output) : LoopM Unit := do
  match (← atSlot h derefSocket).state with
  | .connecting => do
    if output.error then
      callback h .close output.after
    else if output.tcpLoop then
      socketOnClose h output.after
    else do
      atSlot h (setState .connected)
      callback h (.confirm output.sends) output.after
  | .connected => callback h (.write output.sends) output.after
  | _ => return

/-- `BaseSocket::OnTimer`. -/
def socketOnTimer (h : NetHandle) (timedOut : Bool) (after : List Act) : LoopM Unit := do
  if (← atSlot h derefSocket).state ≠ .listening then
    callback h (.timer timedOut) after

/-- An entry of `events`: `EPOLLIN`, `EPOLLOUT`, and one of `EPOLLPRI`, `EPOLLERR`, `EPOLLHUP`. -/
structure Ready where
  handle : NetHandle
  input : Option Input
  output : Option Output
  hup : Option (List Act)

/-- The body of the `for` loop of `Start`. -/
def dispatch (ready : Ready) : LoopM Unit := do
  atSlot ready.handle socketAddRef
  ready.input.forM (socketOnRead ready.handle)
  ready.output.forM (socketOnWrite ready.handle)
  ready.hup.forM (socketOnClose ready.handle)
  atSlot ready.handle socketReleaseRef

/-- A socket that `EventLoop::OnTimer` comes to, and how often its override closes the connection. -/
structure Visit where
  handle : NetHandle
  timedOut : Bool
  closes : Nat

/-- The next socket of `EventLoop::OnTimer`; one that was closed is no longer in the map. -/
def visit (v : Visit) : LoopM Unit := do
  if ((← get).slot v.handle).inSocketMap then
    socketOnTimer v.handle v.timedOut (List.replicate v.closes .close)

/-- A packet in the first loop of `loop_callback`. -/
def sendPosted (h : NetHandle) : LoopM Unit := do
  if ((← get).slot h).inConnMap then
    atSlot h connSend

/-- What the loop does next. -/
inductive Step where
  | listen (handle : NetHandle)
  /-- `Connect` in the loop thread. -/
  | connect (handle : NetHandle)
  /-- An accepted socket that the listener's loop has posted. -/
  | register (handle : NetHandle)
  | dispatch (ready : Ready)
  | timer (visits : List Visit)
  /-- `loop_callback`: posted packets and posted closes. -/
  | posted (pkts closes : List NetHandle)

def Step.exec : Step → LoopM Unit
  | .listen h => create h listenSocket
  | .connect h => create h (connectSocket h)
  | .register h => create h (acceptSocket .connectCallback h)
  | .dispatch ready => do
    if ((← get).slot ready.handle).inSocketMap then
      Loop.dispatch ready
  | .timer visits => visits.forM visit
  | .posted pkts closes => do
    pkts.forM sendPosted
    closes.forM closeHandle

def runSteps (steps : List Step) : LoopM Unit := steps.forM Step.exec

/-! ## What can be seen between two steps -/

/-- The handle is in `socket_map_`, with a socket that belongs to a connection. -/
def Slot.inSocketMapAsConn (s : Slot) : Bool :=
  match s.socket with
  | .live socket => s.inSocketMap && socket.callback = .connCallback
  | _ => false

/-- There is a connection, and it has not been closed. -/
def Slot.connOpen (s : Slot) : Bool :=
  match s.conn with
  | .live conn => conn.handle.isSome
  | _ => false

/-- There has been a connection, and it has been closed. -/
def Slot.connClosed (s : Slot) : Bool :=
  match s.conn with
  | .absent => false
  | .live conn => conn.handle.isNone
  | .freed => true

end Netter.Loop
