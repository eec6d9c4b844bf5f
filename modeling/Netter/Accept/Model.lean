import Mathlib.Logic.Function.Basic
import Netter.Lib.Run
import Netter.Loop.Model

/-!
# Accepted sockets on their way to a loop

The main loop accepts for a listener; each accepted socket belongs to the I/O loop that its handle
picks, or to the main loop when there is no I/O loop. `AddEvent` registers it in the loop thread, and
from another thread it puts it into `register_event_list_`, which the loop swaps out and goes through.
The socket comes with the callback of the listener and gets its own in the `CONNECT` callback. A
handle stands for its `BaseSocket` and for its connection, as new handles are distinct.
-/

namespace Netter.Accept

open Loop (CallbackFn)

/-- The loops of `g_event_loops`. -/
inductive LoopId where
  | main
  | io (index : Nat)
  deriving DecidableEq

/-- `GetIOResource`, for the loops and for the connection maps; a handle is not negative. -/
def getIoResource (ioThreadNum : Nat) (h : NetHandle) : LoopId :=
  if 0 < ioThreadNum then .io (h.toNatClampNeg % ioThreadNum) else .main

inductive Msg where
  | connect
  | read
  | write
  | close
  | timer
  deriving DecidableEq

/-- What happens to an accepted socket. -/
inductive Event where
  /-- A new entry of `socket_map_`. -/
  | inserted (loop : LoopId) (handle : NetHandle)
  | delivered (loop : LoopId) (handle : NetHandle) (msg : Msg) (callback : CallbackFn)
  /-- `new T()`, and `OnConnect` has put it into `conn_map`. -/
  | created (loop : LoopId) (handle : NetHandle)
  deriving DecidableEq

def Event.handle : Event → NetHandle
  | .inserted _ h => h
  | .delivered _ h _ _ => h
  | .created _ h => h

/-- An `EventLoop`, with the `conn_map` of the same index. -/
structure EventLoop where
  registerEventList : List NetHandle
  /-- The list that `_RegiterEventList` has swapped out. -/
  eventList : List NetHandle
  /-- The sockets whose events `epoll_wait` reports. -/
  polled : NetHandle → Bool
  socketMap : NetHandle → Bool
  connMap : NetHandle → Bool

structure State where
  loops : LoopId → EventLoop
  /-- `m_callback` of the sockets that are there. -/
  sockets : NetHandle → Option CallbackFn
  /-- The socket that `_AcceptNewSocket` has made and not passed to `AddEvent` yet. -/
  accepting : Option NetHandle
  accepted : List NetHandle
  trace : List Event

def State.init : State :=
  ⟨fun _ => ⟨[], [], fun _ => false, fun _ => false, fun _ => false⟩, fun _ => none, none, [], []⟩

namespace State

variable (s : State)

def setLoop (loop : LoopId) (el : EventLoop) : State := { s with loops := Function.update s.loops loop el }

def setSocket (h : NetHandle) (socket : Option CallbackFn) : State :=
  { s with sockets := Function.update s.sockets h socket }

def record (event : Event) : State := { s with trace := s.trace ++ [event] }

/-- `BaseConn::Close`: the entries of the connection and its socket go, and the socket is deleted. -/
def close (ioThreadNum : Nat) (h : NetHandle) : State :=
  let home := getIoResource ioThreadNum h
  let el := s.loops home
  (s.setLoop home { el with
    polled := Function.update el.polled h false
    socketMap := Function.update el.socketMap h false
    connMap := Function.update el.connMap h false }).setSocket h none

/-- `connect_callback` with `CONNECT`: `BaseConn::OnConnect` of a new connection. -/
def onConnect (ioThreadNum : Nat) (h : NetHandle) : State :=
  let home := getIoResource ioThreadNum h
  let el := s.loops home
  let entered := if el.connMap h then s else s.record (.created home h)
  (entered.setLoop home { el with connMap := Function.update el.connMap h true }).setSocket h (some .connCallback)

/-- `m_callback` is called in a loop. A connection closes in `CLOSE`, and it may in any other callback. -/
def deliver (ioThreadNum : Nat) (loop : LoopId) (h : NetHandle) (msg : Msg) (closes : Bool) : State :=
  match s.sockets h with
  | none => s
  | some callback =>
    let called := s.record (.delivered loop h msg callback)
    match callback, msg with
    | .connectCallback, .connect =>
      let connected := called.onConnect ioThreadNum h
      if closes then connected.close ioThreadNum h else connected
    | .connectCallback, _ => called
    | .connCallback, .connect => called
    | .connCallback, .close => called.close ioThreadNum h
    | .connCallback, _ => if closes then called.close ioThreadNum h else called

/-- `AddEvent` in the loop thread, with `SOCKET_ADD_CONN` and `SOCKET_CONNECT_CB`. -/
def addEvent (ioThreadNum : Nat) (loop : LoopId) (h : NetHandle) (closes : Bool) : State :=
  let el := s.loops loop
  let inserted := if el.socketMap h then s else s.record (.inserted loop h)
  (inserted.setLoop loop { el with
    polled := Function.update el.polled h true
    socketMap := Function.update el.socketMap h true }).deliver ioThreadNum loop h .connect closes

end State

/-- A step of a loop; one that cannot be taken changes nothing. -/
inductive Step where
  /-- `accept` gives a descriptor, and its `BaseSocket` gets a new handle. -/
  | accept (handle : NetHandle)
  /-- `AddEvent` of the accepted socket; in the loop thread an override of `OnConnect` may close it. -/
  | addEvent (closes : Bool)
  /-- The locked swap of `_RegiterEventList`. -/
  | swap (loop : LoopId)
  /-- The next entry of the swapped list. -/
  | register (loop : LoopId) (closes : Bool)
  /-- A message for an entry of `epoll_wait`: anything but `CONNECT` and `TIMER`. -/
  | dispatch (loop : LoopId) (handle : NetHandle) (msg : Msg) (closes : Bool)
  /-- `OnTimer` comes to an entry of `socket_map_`. -/
  | timer (loop : LoopId) (handle : NetHandle) (closes : Bool)
  /-- A posted close, or `CloseHandle` in the loop thread. -/
  | closeHandle (handle : NetHandle)

def Step.exec (ioThreadNum : Nat) (s : State) : Step → State
  | .accept h =>
    if s.accepting = none ∧ h ∉ s.accepted then
      { s.setSocket h (some .connectCallback) with accepting := some h, accepted := s.accepted ++ [h] }
    else s
  | .addEvent closes =>
    match s.accepting with
    | none => s
    | some h =>
      let home := getIoResource ioThreadNum h
      let given := { s with accepting := none }
      -- `IsInLoopThread`: `_AcceptNewSocket` runs in the main loop.
      if home = .main then given.addEvent ioThreadNum home h closes
      else
        let el := s.loops home
        given.setLoop home { el with registerEventList := el.registerEventList ++ [h] }
  | .swap loop =>
    let el := s.loops loop
    if el.eventList = [] then s.setLoop loop { el with registerEventList := [], eventList := el.registerEventList }
    else s
  | .register loop closes =>
    let el := s.loops loop
    match el.eventList with
    | [] => s
    | h :: rest => (s.setLoop loop { el with eventList := rest }).addEvent ioThreadNum loop h closes
  | .dispatch loop h msg closes =>
    if (s.loops loop).polled h ∧ msg ≠ .connect ∧ msg ≠ .timer then s.deliver ioThreadNum loop h msg closes else s
  | .timer loop h closes => if (s.loops loop).socketMap h then s.deliver ioThreadNum loop h .timer closes else s
  | .closeHandle h =>
    if (s.loops (getIoResource ioThreadNum h)).connMap h then s.close ioThreadNum h else s

/-- The state after a run with `ioThreadNum` I/O threads. -/
def runAccept (ioThreadNum : Nat) (steps : List Step) : State := Lib.run (Step.exec ioThreadNum) .init steps

end Netter.Accept
