import Netter.Pkt

/-!
# `BaseConn`

One connection over one socket: the receive loop and the parse loop, the direct send, the backlog
and its drain. What the kernel answers is part of the state: the chunks `recv` will give before it
blocks, and the results of `send`, of which none is ever more than what was asked for. Calls are
computations over the connection and its socket that may throw; a loop gets fuel, and the theorems
about it say that the fuel does not run out.

The tables a connection is registered in and its reference count are left to the modules about
several connections; the clocks (`m_last_send_tick`, `m_last_recv_tick`) and the log are left out.
-/

namespace Netter

open Lib

/-- `net_handle_t`. -/
abbrev NetHandle := Int32

/-- `NETLIB_INVALID_HANDLE`. -/
def invalidHandle : NetHandle := -1

def kMaxSendSize : Int := 128 * 1024

def kReadBufSize : UInt32 := 2048

/-- What a successful `recv(_, _, kReadBufSize)` can return. -/
structure Chunk where
  bytes : List UInt8
  pos : 0 < bytes.length
  le : bytes.length ≤ kReadBufSize.toNat

/-- `SOCKET_STATE_IDLE` and the others, in their order. -/
inductive SocketState where
  | idle
  | listening
  | connecting
  | connected
  | peerClosing
  | closing
  deriving DecidableEq

/-- A `BaseSocket` with the kernel behind its descriptor. -/
structure BaseSocket where
  state : SocketState
  /-- What `recv` returns from now on, until it would block or, after `fin`, gives 0. -/
  recvs : List Chunk
  fin : Bool
  /-- The results of `send` from now on; 0 is would-block, -1 an error. -/
  sends : List Int
  /-- The bytes `send` has accepted. -/
  sent : List UInt8
  fdOpen : Bool

namespace BaseSocket

/-- `Recv`: the bytes of a positive result, or none for 0 and -1. -/
def recv (socket : BaseSocket) : Option Chunk × BaseSocket :=
  match socket.recvs with
  | chunk :: recvs => (some chunk, { socket with recvs })
  | [] => (none, if socket.fin then { socket with state := .peerClosing } else socket)

/-- `Send(buf, len)`: the `len` bytes have to be there, and the kernel takes some of them. -/
def send (socket : BaseSocket) (buf : List UInt8) (len : Int) : Option (Int × BaseSocket) :=
  if len < 0 then none
  else do
    let bytes ← load buf 0 len.toNat
    let ret := min (socket.sends.headD 0) len
    some (ret, { socket with sends := socket.sends.tail, sent := socket.sent ++ bytes.take ret.toNat })

/-- `Close`. -/
def close (socket : BaseSocket) : BaseSocket := { socket with state := .closing, fdOpen := false }

end BaseSocket

/-- A packet with bytes of its own, as a sender allocates it. -/
structure HeapPkt where
  pkt : PktBase
  own : pkt.incoming = none
  wf : pkt.buf.WF

structure BaseConn where
  handle : NetHandle
  busy : Bool
  isOpen : Bool
  inBuf : SimpleBuffer
  outBuf : SimpleBuffer
  waitPktList : List HeapPkt

/-- `BaseConn::BaseConn`. -/
def BaseConn.init : BaseConn := ⟨invalidHandle, false, false, .init, .init, []⟩

/-- What `HandlePkt` finds in the packet it is called with. -/
structure Received where
  header : PktHeader
  bytes : List UInt8
  deriving DecidableEq

/-- What happens to packets and to the connection, in order. A packet is named by the number of
packets before it. -/
inductive ConnEvent where
  | handled (pkt : Received)
  | deleted (serial : Nat)
  | thrown (ex : PktException)
  | closed
  deriving DecidableEq

/-- The packets passed to `HandlePkt`. -/
def packets (trace : List ConnEvent) : List Received :=
  trace.filterMap fun
    | .handled pkt => some pkt
    | _ => none

/-- A call `HandlePkt` may make on its packet or on its connection. -/
inductive HandlerAct where
  | header (op : PktBase.HeaderOp)
  | close

/-- One run of `HandlePkt`: what it does, and the exception it ends with, if any. -/
structure Handling where
  acts : List HandlerAct
  throws : Option PktException

/-- An override of `HandlePkt`, as a function of the packets seen so far. -/
abbrev HandlePkt := List Received → Handling

structure ConnState where
  conn : BaseConn
  socket : BaseSocket
  trace : List ConnEvent

abbrev ConnM := EStateM Stop ConnState

namespace BaseConn

/-- An access that is undefined behaviour when it is `none`. -/
def orUndefined {α : Type} (x : Option α) : ConnM α := MonadExcept.ofExcept (Stop.ofOption x)

def record (event : ConnEvent) : ConnM Unit :=
  modify fun s => { s with trace := s.trace ++ [event] }

/-- `Close`, without the connection table and the reference count. -/
def close : ConnM Unit := do
  let s ← get
  if s.conn.handle = invalidHandle then
    return
  set { s with
    socket := s.socket.close
    conn := { s.conn with handle := invalidHandle, isOpen := false } }
  record .closed

def onClose : ConnM Unit := close

/-! ## Receiving -/

/-- The first lines of a round of `_RecvData`. -/
def makeRoom (inBuf : SimpleBuffer) : SimpleBuffer :=
  if inBuf.getWritableLen < kReadBufSize then inBuf.extend kReadBufSize else inBuf

/-- `_RecvData`; the loop ends with the first result that is not positive. -/
def recvData : Nat → ConnM Unit
  | 0 => throw .undefined
  | fuel + 1 => do
    let s ← get
    let inBuf := makeRoom s.conn.inBuf
    let (chunk, socket) := s.socket.recv
    match chunk with
    | none => set { s with socket, conn := { s.conn with inBuf } }
    | some chunk => do
      let inBuf ← orUndefined (inBuf.fill chunk.bytes)
      let inBuf := inBuf.incWriteOffset (UInt32.ofNat chunk.bytes.length)
      set { s with socket, conn := { s.conn with inBuf } }
      recvData fuel

/-- The calls a `HandlePkt` makes. A setter writes into the receive buffer. -/
def runActs : List HandlerAct → PktBase → ConnM Unit
  | [], _ => return
  | .header op :: acts, pkt => do
    let s ← get
    let (pkt, buffer) ← orUndefined (op.exec pkt s.conn.inBuf.buffer)
    set { s with conn := { s.conn with inBuf := { s.conn.inBuf with buffer } } }
    runActs acts pkt
  | .close :: acts, pkt => do
    close
    runActs acts pkt

/-- The virtual call `HandlePkt(pPkt)`. -/
def callHandlePkt (handlePkt : HandlePkt) (pkt : PktBase) : ConnM Unit := do
  let s ← get
  let bytes ← orUndefined (load (pkt.getBuffer s.conn.inBuf.buffer.cells) 0 pkt.getLength.toNat)
  record (.handled ⟨pkt.header, bytes⟩)
  let handling := handlePkt (packets (← get).trace)
  runActs handling.acts pkt
  match handling.throws with
  | some ex => throw (.throws ex)
  | none => return

/-- The `while` loop of `_ParsePkt`. -/
def parseLoop (handlePkt : HandlePkt) : Nat → ConnM Unit
  | 0 => throw .undefined
  | fuel + 1 => do
    let s ← get
    let inBuf := s.conn.inBuf
    let next ← MonadExcept.ofExcept
      (PktBase.readPacket inBuf.buffer.cells inBuf.readOffset inBuf.getReadableLen)
    match next with
    | none => return
    | some pkt => do
      let pktLen := pkt.getLength
      callHandlePkt handlePkt pkt
      modify fun s => { s with conn := { s.conn with inBuf := s.conn.inBuf.readNull pktLen } }
      record (.deleted (packets s.trace).length)
      if (← get).conn.handle = invalidHandle then
        return
      parseLoop handlePkt fuel

/-- The `catch` block of `_ParsePkt`; the header is read for the log. -/
def catchPkt (ex : PktException) : ConnM Unit := do
  record (.thrown ex)
  if ex.errorCode ≠ .wrongPktLen then
    let inBuf := (← get).conn.inBuf
    discard <| MonadExcept.ofExcept
      (PktBase.readPktHeader (inBuf.buffer.cells.drop inBuf.readOffset.toNat) pktHeaderLen)
  onClose

/-- `_ParsePkt`. A round of the loop takes a byte at least, which gives the fuel. -/
def parsePkt (handlePkt : HandlePkt) : ConnM Unit :=
  tryCatch
    (do
      parseLoop handlePkt ((← get).conn.inBuf.getReadableLen.toNat + 1)
      let s ← get
      let inBuf ← orUndefined s.conn.inBuf.resetOffset
      set { s with conn := { s.conn with inBuf } })
    fun
      | .throws ex => catchPkt ex
      | .undefined => throw .undefined

def onRead (handlePkt : HandlePkt) : ConnM Unit := do
  recvData ((← get).socket.recvs.length + 1)
  parsePkt handlePkt

/-! ## Sending -/

/-- `m_out_buf.Write(data, len)`, with `len` converted to `uint32_t`. -/
def writeOut (data : List UInt8) (len : Int) : ConnM Unit := do
  let s ← get
  let outBuf ← orUndefined (s.conn.outBuf.write (some data) (UInt32.ofInt len))
  set { s with conn := { s.conn with outBuf } }

/-- `m_base_socket->Send(buf, len)`. -/
def socketSend (buf : List UInt8) (len : Int) : ConnM Int := do
  let s ← get
  let (ret, socket) ← orUndefined (s.socket.send buf len)
  set { s with socket }
  return ret

/-- At most `kMaxSendSize` bytes at a time. -/
def clampSend (len : Int) : Int := if len > kMaxSendSize then kMaxSendSize else len

/-- The `while` loop of `Send`, returning `offset` and `remain`. -/
def sendLoop (data : List UInt8) : Nat → Int → Int → ConnM (Int × Int)
  | 0, _, _ => throw .undefined
  | fuel + 1, offset, remain => do
    if remain > 0 then
      let ret ← socketSend (data.drop offset.toNat) (clampSend remain)
      if ret ≤ 0 then
        return (offset, remain)
      else
        sendLoop data fuel (offset + ret) (remain - ret)
    else
      return (offset, remain)

/-- `Send(data, len)`. -/
def send (data : List UInt8) (len : Int) : ConnM Int := do
  let s ← get
  if ¬ s.conn.isOpen then
    return 0
  if s.conn.busy then
    writeOut data len
    return len
  let (offset, remain) ← sendLoop data (len.toNat + 1) 0 len
  if remain > 0 then
    writeOut (data.drop offset.toNat) remain
    modify fun s => { s with conn := { s.conn with busy := true } }
  return len

/-- `SendPkt(pkt)`; the length is converted to `int`. -/
def sendPkt (pkt : PktBase) : ConnM Int := do
  let s ← get
  send (pkt.getBuffer s.conn.inBuf.buffer.cells) pkt.getLength.toInt32.toInt

/-- The loop of `OnConfirm` over the wait list. -/
def sendWaiting : List HeapPkt → ConnM Unit
  | [] => return
  | waiting :: rest => do
    discard <| sendPkt waiting.pkt
    sendWaiting rest

def onConfirm : ConnM Unit := do
  modify fun s => { s with conn := { s.conn with isOpen := true } }
  sendWaiting (← get).conn.waitPktList
  modify fun s => { s with conn := { s.conn with waitPktList := [] } }

def addToWaitPktList (pkt : HeapPkt) : ConnM Unit :=
  modify fun s => { s with conn := { s.conn with waitPktList := s.conn.waitPktList ++ [pkt] } }

/-- The `while` loop of `OnWrite`; the readable length is converted to `int`. -/
def drainLoop : Nat → ConnM Unit
  | 0 => throw .undefined
  | fuel + 1 => do
    let outBuf := (← get).conn.outBuf
    if outBuf.getReadableLen > 0 then
      let sendSize := clampSend outBuf.getReadableLen.toInt32.toInt
      let ret ← socketSend (outBuf.buffer.cells.drop outBuf.readOffset.toNat) sendSize
      if ret ≤ 0 then
        return
      else
        modify fun s => { s with conn := { s.conn with outBuf := s.conn.outBuf.readNull (UInt32.ofInt ret) } }
        drainLoop fuel
    else
      return

def onWrite : ConnM Unit := do
  if ¬ (← get).conn.busy then
    return
  drainLoop ((← get).conn.outBuf.getReadableLen.toNat + 1)
  let s ← get
  let outBuf ← orUndefined s.conn.outBuf.resetOffset
  set { s with conn := { s.conn with outBuf } }
  if outBuf.getReadableLen = 0 then
    modify fun s => { s with conn := { s.conn with busy := false } }

/-- `OnConnect`: an accepted connection is open from the start. -/
def onConnect (handle : NetHandle) : ConnM Unit :=
  modify fun s => { s with conn := { s.conn with isOpen := true, handle } }

end BaseConn

end Netter
