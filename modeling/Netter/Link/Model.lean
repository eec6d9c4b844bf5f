import Netter.Lib.Run
import Netter.Conn.Receive
import Netter.Conn.Send
import Netter.Pkt.Header

/-!
# Two connections

Two `BaseConn`s at the ends of one TCP connection. What the kernel has accepted from one of them and `recv` has not
given to the other is in flight. The `HandlePkt` of each side answers a packet with packets of its own, as those of the
two test programs do, and packets may be posted to a side at any time. Which bytes arrive together, and how much of a
send the kernel takes, is part of the input.

Errors of the sockets, timeouts and closes are left out: a run ends before the first of them.
-/

namespace Netter

open Lib PktBase

namespace BaseConn

/-! ## `_ParsePkt` for any override -/

/-- The `while` loop of `_ParsePkt`, with an override of `HandlePkt` that may do anything. -/
def parseLoopWith (handlePkt : PktBase → ConnM Unit) : Nat → ConnM Unit
  | 0 => throw .undefined
  | fuel + 1 => do
    let s ← get
    let inBuf := s.conn.inBuf
    let next ← MonadExcept.ofExcept
      (PktBase.readPacket inBuf.buffer.cells inBuf.readOffset inBuf.getReadableLen)
    match next with
    | none => return
    | some pkt => do
      let pktLen := pkt.getLength
      handlePkt pkt
      modify fun s => { s with conn := { s.conn with inBuf := s.conn.inBuf.readNull pktLen } }
      record (.deleted (packets s.trace).length)
      if (← get).conn.handle = invalidHandle then
        return
      parseLoopWith handlePkt fuel

def parsePktWith (handlePkt : PktBase → ConnM Unit) : ConnM Unit :=
  tryCatch
    (do
      parseLoopWith handlePkt ((← get).conn.inBuf.getReadableLen.toNat + 1)
      let s ← get
      let inBuf ← orUndefined s.conn.inBuf.resetOffset
      set { s with conn := { s.conn with inBuf } })
    fun
      | .throws ex => catchPkt ex
      | .undefined => throw .undefined

def onReadWith (handlePkt : PktBase → ConnM Unit) : ConnM Unit := do
  recvData ((← get).socket.recvs.length + 1)
  parsePktWith handlePkt

theorem parseLoop_eq (handlePkt : HandlePkt) (fuel : Nat) :
    parseLoop handlePkt fuel = parseLoopWith (callHandlePkt handlePkt) fuel := by
  induction fuel with
  | zero => rfl
  | succ fuel ih =>
    unfold parseLoop parseLoopWith
    generalize parseLoop handlePkt fuel = rest at ih ⊢
    subst ih
    rfl

/-- The overrides that only write into their packet or close the connection are among them. -/
theorem onRead_eq (handlePkt : HandlePkt) : onRead handlePkt = onReadWith (callHandlePkt handlePkt) := by
  have loops : parseLoop handlePkt = parseLoopWith (callHandlePkt handlePkt) := funext (parseLoop_eq handlePkt)
  unfold onRead onReadWith parsePkt parsePktWith
  generalize parseLoop handlePkt = loop at loops ⊢
  subst loops
  rfl

/-! ## Overrides that send -/

/-- A `HandlePkt` that sends packets of its own for the one it gets. -/
def answer (reply : Received → List HeapPkt) (pkt : PktBase) : ConnM Unit := do
  let s ← get
  let bytes ← orUndefined (load (pkt.getBuffer s.conn.inBuf.buffer.cells) 0 pkt.getLength.toNat)
  record (.handled ⟨pkt.header, bytes⟩)
  sendWaiting (reply ⟨pkt.header, bytes⟩)

/-- `BaseConn::SendPkt(handle, pkt)` in the loop thread, and an item of `loop_callback`. -/
def sendPktByHandle (pkt : HeapPkt) : ConnM Unit := do
  if (← get).conn.isOpen then
    discard <| sendPkt pkt.pkt
  else
    addToWaitPktList pkt

/-- `BaseSocket::OnWrite` without an error of the socket. -/
def socketOnWrite : ConnM Unit := do
  match (← get).socket.state with
  | .connecting => do
    modify fun s => { s with socket := { s.socket with state := .connected } }
    onConfirm
  | .connected => onWrite
  | _ => return

end BaseConn

/-- `PktHeartBeat()`, unless an allocation wraps. -/
def PktBase.newHeartBeat : Option PktBase := do
  let pkt ← setup pktIdHeartbeat []
  let (pkt, _) ← pkt.writeHeader Block.empty
  return pkt

theorem PktBase.newHeartBeat_isSome : PktBase.newHeartBeat.isSome = true := by decide

/-- A new `PktHeartBeat`. -/
def heartBeat : HeapPkt where
  pkt := newHeartBeat.get newHeartBeat_isSome
  own := by decide
  wf := by constructor <;> decide

/-- `ServConn::HandlePkt`, without its statistics. -/
def ServConn.handlePkt : PktBase → ConnM Unit := BaseConn.answer fun _ => [heartBeat]

/-- `NbClientConn::HandlePkt`. -/
def NbClientConn.handlePkt : PktBase → ConnM Unit := BaseConn.answer fun _ => [heartBeat]

/-! ## The two ends -/

inductive Side where
  | client
  | server
  deriving DecidableEq

def Side.other : Side → Side
  | .client => .server
  | .server => .client

@[simp] theorem Side.other_other (side : Side) : side.other.other = side := by cases side <;> rfl

theorem Side.eq_other_of_ne {side k : Side} (ne : k ≠ side) : k = side.other := by
  cases side <;> cases k <;> first | rfl | exact absurd rfl ne

structure Link where
  conn : Side → ConnState
  /-- How many of the bytes that the other side's kernel has accepted `recv` has given to this side. -/
  taken : Side → Nat
  /-- The packets that have been posted or sent at a side, in order. -/
  handed : Side → List HeapPkt

/-- What one side's event loop does. -/
inductive LinkStep where
  /-- A packet posted with `SendPkt(handle, pkt)`. -/
  | post (side : Side) (pkt : HeapPkt) (sends : List Int)
  /-- `READ`, with what `recv` gives. -/
  | readable (side : Side) (recvs : List Chunk) (sends : List Int)
  /-- `BaseSocket::OnWrite`. -/
  | writable (side : Side) (sends : List Int)

/-- The side whose loop takes the step. -/
def LinkStep.side : LinkStep → Side
  | .post side _ _ => side
  | .readable side _ _ => side
  | .writable side _ => side

namespace Link

variable (l : Link)

/-- After a call at a side: its connection, how many bytes `recv` has given, and the packets handed over. -/
def update (side : Side) (t : ConnState) (count : Nat) (pkts : List HeapPkt) : Link where
  conn k := if k = side then t else l.conn k
  taken k := if k = side then l.taken k + count else l.taken k
  handed k := if k = side then l.handed k ++ pkts else l.handed k

/-- On the way to a side. -/
def inFlight (side : Side) : List UInt8 := (l.conn side.other).socket.sent.drop (l.taken side)

/-- A side with what the kernel is going to answer. -/
def asked (side : Side) (recvs : List Chunk) (sends : List Int) : ConnState :=
  { l.conn side with socket := { (l.conn side).socket with recvs, sends } }

/-- A call at a side, which must not end with undefined behaviour or an exception. -/
def call (side : Side) (recvs : List Chunk) (sends : List Int) (x : ConnM Unit) : Option ConnState :=
  match x.run (l.asked side recvs sends) with
  | .ok _ t => some t
  | .error _ _ => none

/-- The packets that were handled between two states of a connection. -/
def handledSince (s t : ConnState) : List Received := (packets t.trace).drop (packets s.trace).length

variable (reply : Side → Received → List HeapPkt)

/-- A step; bytes that are not in flight cannot be received. -/
def exec : LinkStep → Option Link
  | .post side pkt sends =>
    (l.call side [] sends (BaseConn.sendPktByHandle pkt)).map fun t => l.update side t 0 [pkt]
  | .readable side recvs sends =>
    if BaseConn.chunkBytes recvs <+: l.inFlight side then
      (l.call side recvs sends (BaseConn.onReadWith (BaseConn.answer (reply side)))).map fun t =>
        l.update side t (BaseConn.chunkBytes recvs).length ((handledSince (l.conn side) t).flatMap (reply side))
    else some l
  | .writable side sends => (l.call side [] sends BaseConn.socketOnWrite).map fun t => l.update side t 0 []

/-- The server has accepted the connection, and the client waits for its `CONFIRM`. -/
def start (handle : Side → NetHandle) : Link where
  conn
    | .client => ⟨{ BaseConn.init with handle := handle .client }, ⟨.connecting, [], false, [], [], true⟩, []⟩
    | .server => ⟨{ BaseConn.init with handle := handle .server, isOpen := true }, ⟨.connected, [], false, [], [], true⟩, []⟩
  taken _ := 0
  handed _ := []

end Link

end Netter
