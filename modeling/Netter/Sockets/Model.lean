import Netter.Accept.Model

/-!
# Who holds a socket

A `BaseSocket` is made by `start_listen`, by `BaseConn::Connect` and for an accepted connection. `AddEvent` hands
it over to its loop, at once in the loop thread and through `register_event_list_` from another thread, and `Close`
destroys it. No other code keeps hold of it: what is in none of these places is never destroyed.
-/

namespace Netter.Sockets

open Accept (LoopId getIoResource)

/-- The members of a `BaseSocket` that its registration goes by. -/
structure BaseSocket where
  handle : NetHandle
  eventLoop : LoopId

/-- A `RegisterEvent` with `SOCKET_ADD_CONN`; sockets are counted in the order in which they are made. -/
structure RegisterEvent where
  baseSocket : Nat
  /-- `SOCKET_CONNECT_CB`. -/
  connectCb : Bool

/-- An `EventLoop`, with the `conn_map` of the same index. -/
structure EventLoop where
  socketMap : List (NetHandle × Nat)
  registerEventList : List RegisterEvent
  /-- The list that `_RegiterEventList` has swapped out. -/
  eventList : List RegisterEvent
  connMap : List NetHandle

structure State where
  loops : LoopId → EventLoop
  baseSockets : Nat → BaseSocket
  /-- How many sockets have been made. -/
  made : Nat
  /-- The sockets of connections that have not been closed. -/
  conns : List Nat
  destroyed : List Nat

def State.init : State := ⟨fun _ => ⟨[], [], [], []⟩, fun _ => ⟨0, .main⟩, 0, [], []⟩

/-- Which of its system calls `BaseSocket::Listen` comes through. -/
structure ListenCalls where
  socket : Bool
  bind : Bool
  listen : Bool

/-- `BaseSocket::Listen` does not return `NETLIB_INVALID_HANDLE`. -/
def ListenCalls.succeeds (calls : ListenCalls) : Bool :=
  if !calls.socket then false
  else if !calls.bind then false
  else if !calls.listen then false
  else true

/-- The same for `BaseSocket::Connect`, which `BaseConn::Connect` calls without a local address to bind to; a
`connect` that is in progress has not failed. -/
structure ConnectCalls where
  socket : Bool
  connect : Bool

def ConnectCalls.succeeds (calls : ConnectCalls) : Bool :=
  if !calls.socket then false
  else if !calls.connect then false
  else true

namespace State

variable (s : State)

def setLoop (loop : LoopId) (el : EventLoop) : State := { s with loops := Function.update s.loops loop el }

/-- `new BaseSocket()`, and the loop that it is going to be given to. -/
def new (handle : NetHandle) (loop : LoopId) : State :=
  { s with baseSockets := Function.update s.baseSockets s.made ⟨handle, loop⟩, made := s.made + 1 }

/-- A connection enters `conn_map` under the handle of its socket; `insert` leaves an entry that is there. -/
def enter (ioThreadNum : Nat) (baseSocket : Nat) : State :=
  let handle := (s.baseSockets baseSocket).handle
  let home := getIoResource ioThreadNum handle
  let el := s.loops home
  { s.setLoop home { el with connMap := if handle ∈ el.connMap then el.connMap else el.connMap ++ [handle] } with
    conns := s.conns ++ [baseSocket] }

/-- The handle is in `socket_map_`. -/
def taken (loop : LoopId) (handle : NetHandle) : Bool := (s.loops loop).socketMap.any (·.1 == handle)

/-- The socket is in the `socket_map_` of its loop. -/
def registered (baseSocket : Nat) : Bool :=
  (s.loops (s.baseSockets baseSocket).eventLoop).socketMap.any (·.2 == baseSocket)

/-- `socket_map_.insert`. -/
def insert (loop : LoopId) (baseSocket : Nat) : State :=
  let handle := (s.baseSockets baseSocket).handle
  let el := s.loops loop
  if s.taken loop handle then s else s.setLoop loop { el with socketMap := el.socketMap ++ [(handle, baseSocket)] }

/-- `AddEvent` in the loop thread. In the `CONNECT` callback `connect_callback` makes a connection for the socket. -/
def addEvent (ioThreadNum : Nat) (loop : LoopId) (event : RegisterEvent) : State :=
  let inserted := s.insert loop event.baseSocket
  if event.connectCb then inserted.enter ioThreadNum event.baseSocket else inserted

/-- `AddEvent` in another thread. -/
def postEvent (loop : LoopId) (event : RegisterEvent) : State :=
  let el := s.loops loop
  s.setLoop loop { el with registerEventList := el.registerEventList ++ [event] }

/-- `BaseConn::Close`, which closes and releases the socket. -/
def close (ioThreadNum : Nat) (baseSocket : Nat) : State :=
  let socket := s.baseSockets baseSocket
  let home := getIoResource ioThreadNum socket.handle
  let erased := s.setLoop home
    { s.loops home with connMap := (s.loops home).connMap.filter (· != socket.handle) }
  let el := erased.loops socket.eventLoop
  { erased.setLoop socket.eventLoop { el with socketMap := el.socketMap.filter (·.1 != socket.handle) } with
    conns := s.conns.filter (· != baseSocket)
    destroyed := s.destroyed ++ [baseSocket] }

end State

inductive Step where
  /-- `start_listen`, in the thread of the main loop or in another one; `handle` is drawn by the constructor. -/
  | startListen (inLoopThread : Bool) (handle : NetHandle) (calls : ListenCalls)
  /-- `BaseConn::Connect`, in the thread of the loop that the handle picks or in another one. -/
  | connect (inLoopThread : Bool) (handle : NetHandle) (calls : ConnectCalls)
  /-- A round of `_AcceptNewSocket` in the main loop. -/
  | accept (handle : NetHandle)
  /-- The locked swap of `_RegiterEventList`. -/
  | swap (loop : LoopId)
  /-- The next entry of the swapped list. -/
  | register (loop : LoopId)
  /-- `BaseConn::Close` of the connection with this socket. -/
  | close (baseSocket : Nat)

/-- One that cannot be taken changes nothing. After a failed attempt `start_listen` just returns, and
`BaseConn::Connect` deletes the connection. -/
def Step.exec (ioThreadNum : Nat) (s : State) : Step → State
  | .startListen inLoopThread handle calls =>
    let made := s.new handle .main
    if calls.succeeds then
      if inLoopThread then made.addEvent ioThreadNum .main ⟨s.made, false⟩ else made.postEvent .main ⟨s.made, false⟩
    else made
  | .connect inLoopThread handle calls =>
    let loop := getIoResource ioThreadNum handle
    let made := s.new handle loop
    if calls.succeeds then
      let added :=
        if inLoopThread then made.addEvent ioThreadNum loop ⟨s.made, false⟩ else made.postEvent loop ⟨s.made, false⟩
      added.enter ioThreadNum s.made
    else made
  | .accept handle =>
    let loop := getIoResource ioThreadNum handle
    let made := s.new handle loop
    if loop = .main then made.addEvent ioThreadNum loop ⟨s.made, true⟩ else made.postEvent loop ⟨s.made, true⟩
  | .swap loop =>
    let el := s.loops loop
    if el.eventList.isEmpty then
      s.setLoop loop { el with registerEventList := [], eventList := el.registerEventList }
    else s
  | .register loop =>
    let el := s.loops loop
    match el.eventList with
    | [] => s
    | event :: rest => (s.setLoop loop { el with eventList := rest }).addEvent ioThreadNum loop event
  | .close baseSocket => if baseSocket ∈ s.conns then s.close ioThreadNum baseSocket else s

/-- An attempt that fails at one of its system calls. -/
def Step.fails : Step → Bool
  | .startListen _ _ calls => !calls.succeeds
  | .connect _ _ calls => !calls.succeeds
  | _ => false

/-- Every loop of `g_event_loops`. -/
def allLoops (ioThreadNum : Nat) : List LoopId := .main :: (List.range ioThreadNum).map .io

/-- How often the loop holds the socket: in `socket_map_` and in registrations that are pending. -/
def EventLoop.holds (el : EventLoop) (baseSocket : Nat) : Nat :=
  el.socketMap.countP (·.2 == baseSocket) + el.registerEventList.countP (·.baseSocket == baseSocket) +
    el.eventList.countP (·.baseSocket == baseSocket)

/-- In how many places the socket is, the grave included. -/
def State.places (s : State) (ioThreadNum : Nat) (baseSocket : Nat) : Nat :=
  ((allLoops ioThreadNum).map fun loop => (s.loops loop).holds baseSocket).sum + s.destroyed.count baseSocket

/-- Each socket that was ever made is registered in one loop, or has one registration pending, or is destroyed. -/
def State.Conserved (s : State) (ioThreadNum : Nat) : Prop :=
  ∀ baseSocket < s.made, s.places ioThreadNum baseSocket = 1

/-- The attempt does not fail, the handle is not taken where a socket is registered, and a connection that is closed
has been registered. -/
def Step.Keeps (ioThreadNum : Nat) (s : State) : Step → Prop
  | .startListen inLoopThread handle calls => calls.succeeds = true ∧ (inLoopThread = true → s.taken .main handle = false)
  | .connect inLoopThread handle calls =>
    calls.succeeds = true ∧ (inLoopThread = true → s.taken (getIoResource ioThreadNum handle) handle = false)
  | .accept handle => getIoResource ioThreadNum handle = .main → s.taken .main handle = false
  | .swap _ => True
  | .register loop => ∀ event ∈ (s.loops loop).eventList.head?, s.taken loop (s.baseSockets event.baseSocket).handle = false
  | .close baseSocket => baseSocket ∈ s.conns → s.registered baseSocket = true

end Netter.Sockets
