import Netter.Loop.Lifetime

/-!
# `Connect` on another thread

Thread A calls `BaseConn::Connect` for a socket that belongs to a loop on another thread: it opens the
socket, posts the registration, returns the handle from `BaseSocket::Connect`, assigns it to
`m_handle` and inserts the connection into `conn_map`. The loop may register the socket and call
back from the second step on. Before `m_handle` is assigned a connection passes over every `Close`
and stops parsing after one packet; between that and the insertion a `Close` deletes what thread A
is about to insert. In a run without these three, `Connect` leaves the table correct.
-/

namespace Netter.Loop

open Lib

/-- How far thread A has come. -/
inductive Progress where
  | start
  | opened
  | posted
  | returned
  | assigned
  | inserted
  deriving DecidableEq

structure Shared where
  world : World
  progress : Progress
  /-- The socket is in `register_event_list_`. -/
  queued : Bool

def Shared.init : Shared := ⟨World.init, .start, false⟩

abbrev SharedM := EStateM Stop Shared

def inLoop {α : Type} (x : LoopM α) : SharedM α := zoom Shared.world (fun c world => { c with world }) x

def Shared.slot (c : Shared) (h : NetHandle) : Slot := c.world.slot h

/-- The next step of thread A in `Connect`; the handle of the new socket is `h`. -/
def advance (h : NetHandle) : SharedM Unit := do
  match (← get).progress with
  | .start => do
    inLoop (atSlot h openSocket)
    modify fun c => { c with progress := .opened }
  | .opened => modify fun c => { c with progress := .posted, queued := true }
  | .posted => modify fun c => { c with progress := .returned }
  | .returned => do
    inLoop (atSlot h (assignHandle h))
    modify fun c => { c with progress := .assigned }
  | .assigned => do
    inLoop (atSlot h insertConn)
    modify fun c => { c with progress := .inserted }
  | .inserted => return

/-- `_RegiterEventList` for the new socket. -/
def registerQueued (h : NetHandle) : SharedM Unit := do
  if (← get).queued then
    modify fun c => { c with queued := false }
    inLoop (atSlot h addEvent)

/-! ## The callbacks of the new connection -/

/-- An act on the connection itself. -/
def Act.own (h : NetHandle) : Act → Bool
  | .close => true
  | .send => true
  | .closeHandle k => k = h
  | .connect _ => false

/-- What the overrides of `READ`, `CONFIRM` and `WRITE` do. -/
def Ready.acts (ready : Ready) : List Act :=
  (ready.input.map fun i => i.reading.pkts.flatMap PktScript.acts ++ i.afterRead).getD [] ++
    (ready.output.map Output.after).getD []

/-- What the overrides of `CLOSE` do. -/
def Ready.closeActs (ready : Ready) : List Act := (ready.input.map Input.afterClose).getD [] ++ ready.hup.getD []

/-- An event of the new socket whose callbacks keep to their own connection. -/
def Ready.own (h : NetHandle) (ready : Ready) : Bool :=
  ready.handle = h && (ready.acts ++ ready.closeActs).all (Act.own h)

/-- A step of thread A or of the loop. -/
inductive Move where
  | advance
  | register
  | dispatch (ready : Ready)
  | timer (timedOut : Bool) (closes : Nat)
  | posted (pkts closes : Nat)

def Move.exec (h : NetHandle) : Move → SharedM Unit
  | .advance => Loop.advance h
  | .register => registerQueued h
  | .dispatch ready => do
    if ready.own h ∧ ((← get).slot h).inSocketMap then
      inLoop (Loop.dispatch ready)
  | .timer timedOut closes => inLoop (visit ⟨h, timedOut, closes⟩)
  | .posted pkts closes => inLoop (Step.posted (List.replicate pkts h) (List.replicate closes h)).exec

def runMoves (h : NetHandle) (moves : List Move) : SharedM Unit := moves.forM (Move.exec h)

/-- What `Connect` promises about the slot of the new connection. -/
structure Correct (progress : Progress) (s : Slot) : Prop where
  /-- There is no deleted connection in `conn_map`. -/
  table : s.inConnMap = true → ∃ conn, s.conn = .live conn
  /-- A `CLOSE` callback has closed the connection. -/
  closes : s.closeSeen = true → s.tally.socketCloses = 1
  /-- A `READ` callback has left no packet of an open connection. -/
  parses : ∀ conn, s.conn = .live conn → s.tally.socketCloses = 0 → conn.unparsed = 0
  /-- When `Connect` has returned, an open connection is in `conn_map`. -/
  entry : progress = .inserted → s.tally.socketCloses = 0 → s.inConnMap = true

/-! ## The condition -/

def Slot.connecting (s : Slot) : Bool :=
  match s.socket with
  | .live socket => socket.state = .connecting
  | _ => false

/-- The socket does not call `CLOSE`. -/
structure Ready.NoClose (connecting : Bool) (ready : Ready) : Prop where
  input : ∀ i, ready.input = some i → i.avail = true ∧ i.reading.peerClosed = false
  output : ∀ o, ready.output = some o → connecting = true → o.error = false ∧ o.tcpLoop = false
  hup : ready.hup = none

/-- Neither `_ParsePkt` nor an override closes the connection. -/
structure Ready.NoCall (ready : Ready) : Prop where
  malformed : ∀ i, ready.input = some i → i.reading.malformed = false
  throws : ∀ i, ready.input = some i → ∀ pkt ∈ i.reading.pkts, pkt.throws = false
  acts : Act.close ∉ ready.acts

/-- At most one complete packet is there to read. -/
def Ready.OnePkt (ready : Ready) : Prop := ∀ i, ready.input = some i → i.reading.pkts.length ≤ 1

/-- `m_handle` is assigned. -/
def Progress.hasHandle : Progress → Bool
  | .assigned => true
  | .inserted => true
  | _ => false

/-- Before `m_handle` is assigned: no `CLOSE` callback, and no `READ` of two packets. From then on: no
`Close` before the connection is in `conn_map` and its socket is registered. -/
def Move.Meets (h : NetHandle) (c : Shared) : Move → Prop
  | .advance => True
  | .register => True
  | .dispatch ready => (c.slot h).inSocketMap = true →
      (c.progress.hasHandle = false → ready.NoClose (c.slot h).connecting ∧ ready.OnePkt) ∧
        (c.progress = .assigned → ready.NoClose (c.slot h).connecting ∧ ready.NoCall)
  | .timer timedOut closes => (c.slot h).inSocketMap = true → c.progress = .assigned → timedOut = false ∧ closes = 0
  | .posted _ closes => c.queued = true → c.progress = .inserted → closes = 0

/-- Every step of the run meets the condition in the state it starts from. -/
def RunMeets (h : NetHandle) : List Move → Shared → Prop
  | [], _ => True
  | move :: moves, c => move.Meets h c ∧ ∀ c', (move.exec h).run c = .ok ⟨⟩ c' → RunMeets h moves c'

end Netter.Loop
