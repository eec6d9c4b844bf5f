import Netter.Lib.Run
import Netter.Conn.Receive

/-!
# Events of one socket

One connection in its loop, with the kernel's side of its socket as a receive queue and a FIN flag.
What `epoll_wait` reports for the socket is a mask, and its bits are dispatched in turn. Each system
call is one step, so that bytes and the FIN may arrive before any of them. `m_in_buf` is the list of
its readable bytes; what it does with memory is left to the modules about buffers and connections.
-/

namespace Netter.Dispatch

open PktBase BaseConn

/-- The bits of an entry of `epoll_wait`: `EPOLLIN`, `EPOLLOUT`, and one of `EPOLLPRI`, `EPOLLERR`,
`EPOLLHUP`. -/
structure Entry where
  input : Bool
  output : Bool
  hup : Bool

/-- Where the loop stands with the socket. -/
inductive Pc where
  /-- Elsewhere, or in `epoll_wait`. -/
  | idle
  /-- In `BaseSocket::OnRead`, before `ioctl(FIONREAD)`. -/
  | onRead
  /-- In the loop of `_RecvData`, before `Recv`. -/
  | recvData
  /-- In the loop of `_ParsePkt`, before `ReadPacket`. -/
  | parsePkt
  /-- In `OnRead` after the `READ` callback. -/
  | readDone
  /-- Before the test of `EPOLLOUT`. -/
  | onWrite
  /-- Before the test of the other bits. -/
  | onClose
  deriving DecidableEq

inductive Event where
  /-- The callbacks `CONFIRM`, `READ`, `WRITE` and `CLOSE`. -/
  | confirm
  | read
  | write
  | close
  /-- `HandlePkt`, and `m_open` at that time. -/
  | handled (pkt : Received) (isOpen : Bool)
  /-- `Send` drops a reply because the connection, which has not been closed, is not open. -/
  | dropped
  deriving DecidableEq

/-- What `HandlePkt` does to its connection: `SendPkt(pkt)` or `Close()`. -/
inductive Act where
  | reply
  | close
  deriving DecidableEq

/-- A call of `HandlePkt`, and whether it ends with a `PktException`. -/
structure Handling where
  acts : List Act
  throws : Bool

/-- What is not known to the program: the result of `getsockopt(SO_ERROR)`, whether the socket is connected to
itself, and the handler. -/
structure Answer where
  error : Bool
  tcpLoop : Bool
  handling : Handling

structure State where
  /-- The kernel's side. -/
  queue : List UInt8
  fin : Bool
  socket : SocketState
  /-- `m_handle` is valid; then the socket is in the loop. -/
  registered : Bool
  isOpen : Bool
  inBuf : List UInt8
  pc : Pc
  entry : Entry
  /-- All that `recv` has given, and whether `FIONREAD` or `recv` has given 0. -/
  received : List UInt8
  noticed : Bool
  trace : List Event

/-- A connection whose socket has just been registered, by `Connect` or after `accept`. -/
def State.start (socket : SocketState) (isOpen : Bool) : State :=
  ⟨[], false, socket, true, isOpen, [], .idle, ⟨false, false, false⟩, [], false, []⟩

def State.connecting : State := .start .connecting false

def State.connected : State := .start .connected true

namespace State

variable (s : State)

def record (event : Event) : State := { s with trace := s.trace ++ [event] }

/-- `BaseConn::Close`. -/
def close : State := if s.registered then { s with registered := false, isOpen := false, socket := .closing } else s

/-- `m_callback` with `CLOSE`: `BaseConn::OnClose`. -/
def callClose : State := (s.record .close).close

/-- A call of `HandlePkt` with its acts. -/
def runActs (s : State) : List Act → State
  | [] => s
  | .reply :: acts => runActs (if s.isOpen || !s.registered then s else s.record .dropped) acts
  | .close :: acts => runActs s.close acts

/-- A round of the loop in `_ParsePkt`. -/
def parsePkt (handling : Handling) : State :=
  match frameAt s.inBuf with
  | .incomplete => { s with pc := .readDone }
  | .malformed _ => { s.close with pc := .readDone }
  | .packet len =>
    let handled := (s.record (.handled (receivedAt s.inBuf len) s.isOpen)).runActs handling.acts
    if handling.throws then { handled.close with pc := .readDone }
    else
      let read := { handled with inBuf := handled.inBuf.drop len.toNat }
      if read.registered then read else { read with pc := .readDone }

/-- `Recv(buf, kReadBufSize)` in the loop of `_RecvData`. -/
def recvData : State :=
  if s.queue.isEmpty then
    { s with
      socket := if s.fin then .peerClosing else s.socket
      noticed := s.noticed || s.fin
      pc := .parsePkt }
  else
    let bytes := s.queue.take kReadBufSize.toNat
    { s with
      queue := s.queue.drop kReadBufSize.toNat
      inBuf := s.inBuf ++ bytes
      received := s.received ++ bytes }

/-- `BaseSocket::OnWrite`. -/
def socketOnWrite (answer : Answer) : State :=
  match s.socket with
  | .connecting =>
    if answer.error then s.callClose
    else if answer.tcpLoop then { s with socket := .closing }.callClose
    else { s.record .confirm with socket := .connected, isOpen := true }
  | .connected => s.record .write
  | _ => s

/-- `BaseSocket::OnClose`. -/
def socketOnClose : State :=
  match s.socket with
  | .closing => s
  | _ => { s with socket := .closing }.callClose

/-- The next step of the loop with the socket. -/
def advance (answer : Answer) : State :=
  match s.pc with
  | .idle => s
  | .onRead =>
    if s.queue.isEmpty then { s.callClose with noticed := true, pc := .onWrite }
    else { s.record .read with pc := .recvData }
  | .recvData => s.recvData
  | .parsePkt => s.parsePkt answer.handling
  | .readDone => { (if s.socket = .peerClosing then s.callClose else s) with pc := .onWrite }
  | .onWrite => { (if s.entry.output then s.socketOnWrite answer else s) with pc := .onClose }
  | .onClose => { (if s.entry.hup then s.socketOnClose else s) with pc := .idle }

end State

/-- A step of the kernel or of the loop; one that cannot be taken changes nothing. -/
inductive Step where
  | arrive (bytes : List UInt8)
  | fin
  /-- `epoll_wait` has an entry for the socket. -/
  | report (entry : Entry)
  | advance (answer : Answer)
  /-- A timeout, a posted close or a `CloseHandle`. -/
  | close

def Step.exec (s : State) : Step → State
  | .arrive bytes => if s.fin then s else { s with queue := s.queue ++ bytes }
  | .fin => { s with fin := true }
  | .report entry =>
    if s.pc = .idle ∧ s.registered then { s with entry, pc := if entry.input then .onRead else .onWrite } else s
  | .advance answer => s.advance answer
  | .close => if s.pc = .idle then s.close else s

end Netter.Dispatch
