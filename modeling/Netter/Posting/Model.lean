import Netter.Lib.Before
import Netter.Conn.Model

/-!
# `SendPkt` by handle

The packets that threads send through a handle, and the loop that owns the connections. Another
thread appends its packet to `pkt_list` under the mutex; the loop swaps the list out and goes through
it; a call in the loop thread takes the same way past the lists. A packet is known by its place on
the heap, and the record of what happens to packets is kept in a trace. What `SendPkt` of a
connection does with the bytes is left to the module about sending.
-/

namespace Netter.Posting

/-- The caller of `SendPkt(handle, pkt)`. -/
inductive Thread where
  | loop
  | other (number : Nat)
  deriving DecidableEq

/-- A heap packet with the call it comes from. -/
structure Pkt where
  serial : Nat
  handle : NetHandle
  thread : Thread
  deriving DecidableEq

structure Conn where
  isOpen : Bool
  waitPktList : List Pkt

/-- A handle over time: registered in `conn_map`, taken out of it by `Close`, and destroyed. -/
inductive Life where
  | absent
  | registered (conn : Conn)
  | closed (conn : Conn)
  | destroyed

inductive Event where
  | posted (pkt : Pkt)
  /-- The packet's turn has come, and its connection is registered, and open or not. -/
  | processed (pkt : Pkt) (isOpen : Bool)
  /-- `conn->SendPkt(pkt)`. -/
  | submitted (pkt : Pkt)
  /-- `OnConfirm` of a connection that is not closed. -/
  | confirmed (handle : NetHandle)
  deriving DecidableEq

structure State where
  /-- The heap: serials from `next` on are unused. -/
  next : Nat
  freed : List Pkt
  pktList : List Pkt
  tmpPktList : List Pkt
  conns : NetHandle → Life
  trace : List Event

def State.init : State := ⟨0, [], [], [], fun _ => .absent, []⟩

abbrev PostM := EStateM Stop State

def record (event : Event) : PostM Unit := modify fun s => { s with trace := s.trace ++ [event] }

def setLife (h : NetHandle) (life : Life) : PostM Unit :=
  modify fun s => { s with conns := fun k => if k = h then life else s.conns k }

/-- Any use of a packet. -/
def usePkt (pkt : Pkt) : PostM Unit := do
  if pkt ∈ (← get).freed then
    throw .undefined

def deletePkt (pkt : Pkt) : PostM Unit := do
  usePkt pkt
  modify fun s => { s with freed := s.freed ++ [pkt] }

/-- `conn->SendPkt(pkt); delete pkt;`. -/
def submit (pkt : Pkt) : PostM Unit := do
  usePkt pkt
  record (.submitted pkt)
  deletePkt pkt

/-- Records that the packet's turn has come. -/
def noteTurn (pkt : Pkt) : PostM Unit := do
  match (← get).conns pkt.handle with
  | .registered conn => record (.processed pkt conn.isOpen)
  | _ => return

/-- What `loop_callback` and `SendPkt(handle, pkt)` in the loop thread do with a packet. -/
def process (pkt : Pkt) : PostM Unit := do
  match (← get).conns pkt.handle with
  | .registered conn => do
    if conn.isOpen then
      submit pkt
    else
      setLife pkt.handle (.registered { conn with waitPktList := conn.waitPktList ++ [pkt] })
  | _ => deletePkt pkt

/-- `SendPkt(handle, pkt)` with a new packet. -/
def sendPkt (thread : Thread) (h : NetHandle) : PostM Unit := do
  let pkt : Pkt := ⟨(← get).next, h, thread⟩
  modify fun s => { s with next := s.next + 1 }
  record (.posted pkt)
  match thread with
  | .loop => do
    noteTurn pkt
    process pkt
  | .other _ => modify fun s => { s with pktList := s.pktList ++ [pkt] }

/-- The locked swap of `loop_callback`. -/
def swap : PostM Unit := modify fun s => { s with tmpPktList := s.pktList, pktList := [] }

/-- A round of the first loop of `loop_callback`. -/
def processNext : PostM Unit := do
  match (← get).tmpPktList with
  | [] => return
  | pkt :: rest => do
    modify fun s => { s with tmpPktList := rest }
    noteTurn pkt
    process pkt

def onConfirm (h : NetHandle) (conn : Conn) : PostM Unit := do
  setLife h (.registered { conn with isOpen := true })
  conn.waitPktList.forM submit
  setLife h (.registered ⟨true, []⟩)
  record (.confirmed h)

/-- `BaseConn::~BaseConn`. -/
def destroy (h : NetHandle) (conn : Conn) : PostM Unit := do
  conn.waitPktList.forM deletePkt
  setLife h .destroyed

/-- A call of some thread or a step of the loop. A `CONFIRM` is not delivered to a closed connection, and
it is destroyed when the last reference to it goes. -/
inductive Step where
  /-- A connection is registered: accepted and open, or connecting. -/
  | register (handle : NetHandle) (isOpen : Bool)
  /-- `SendPkt(handle, pkt)` with the handle of a connection that has been registered. -/
  | sendPkt (thread : Thread) (handle : NetHandle)
  | swap
  | processNext
  | onConfirm (handle : NetHandle)
  | close (handle : NetHandle)
  | destroy (handle : NetHandle)

def Step.exec : Step → PostM Unit
  | .register h isOpen => do
    if let .absent := (← get).conns h then
      setLife h (.registered ⟨isOpen, []⟩)
  | .sendPkt thread h => do
    match (← get).conns h with
    | .absent => return
    | _ => Posting.sendPkt thread h
  | .swap => do
    if (← get).tmpPktList = [] then
      Posting.swap
  | .processNext => Posting.processNext
  | .onConfirm h => do
    match (← get).conns h with
    | .registered conn => Posting.onConfirm h conn
    | _ => return
  | .close h => do
    match (← get).conns h with
    | .registered conn => setLife h (.closed { conn with isOpen := false })
    | _ => return
  | .destroy h => do
    match (← get).conns h with
    | .closed conn => Posting.destroy h conn
    | _ => return

def run (steps : List Step) : PostM Unit := steps.forM Step.exec

/-! ## The trace -/

def postedPkt : Event → Option Pkt
  | .posted pkt => some pkt
  | _ => none

def submittedPkt : Event → Option Pkt
  | .submitted pkt => some pkt
  | _ => none

def State.posted (s : State) : List Pkt := s.trace.filterMap postedPkt

def State.submitted (s : State) : List Pkt := s.trace.filterMap submittedPkt

end Netter.Posting
