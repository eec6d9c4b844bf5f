import Netter.Conn.Model

/-!
# `ClientConn`

The blocking side: `block_recv_all` of `block_socket.cpp`, and `RecvPacket` of the test client, which reads a
header and then as many bytes as it announces. The announced length is converted to `int` there, and a length
that is not above `PKT_HEADER_LEN` as an `int` has no body to read.

The timeout of the socket, the server's address and the log are left out. `realloc` succeeds; the bytes it adds
read as 0 here, like those of the first allocation in `SimpleBuffer`.
-/

namespace Netter

open Lib PktBase

/-- A blocking socket with the kernel behind it: the bytes before the end of the stream, and what the next calls of
`recv` do. `none` is an error, `some most` gives at most that many bytes and one at least; when no more is listed, a
call gets what it asks for. -/
structure BlockSocket where
  stream : List UInt8
  recvs : List (Option Nat)

/-- `recv(handle, _, len, 0)` with a positive `len`: -1 for `none`, the number of bytes otherwise. -/
def BlockSocket.recv (socket : BlockSocket) (len : Int) : Option (List UInt8) × BlockSocket :=
  match socket.recvs.headD (some len.toNat) with
  | none => (none, { socket with recvs := socket.recvs.tail })
  | some most =>
    let count := min (max 1 most) len.toNat
    (some (socket.stream.take count), ⟨socket.stream.drop count, socket.recvs.tail⟩)

/-- The members `RecvPacket` uses. -/
structure ClientConn where
  connHandle : NetHandle
  allocSize : Int
  inBuf : Block UInt8 allocSize.toNat

structure ClientState where
  conn : ClientConn
  socket : BlockSocket

abbrev ClientM := EStateM Stop ClientState

namespace ClientConn

def kInitAllocSize : Int := 4096

/-- `PKT_HEADER_LEN` as an `int`. -/
def headerLen : Int := pktHeaderLen.toNat

/-- The `while` loop of `block_recv_all(conn_handle_, in_buf_ + off, len)`. -/
def blockRecvLoop (off : Nat) (len : Int) : Nat → Int → ClientM Int
  | 0, _ => throw .undefined
  | fuel + 1, receivedLen => do
    if receivedLen = len then
      return receivedLen
    let s ← get
    let (ret, socket) := s.socket.recv (len - receivedLen)
    set { s with socket }
    match ret with
    | none => return -1
    | some [] => return 0
    | some bytes => do
      let inBuf ← MonadExcept.ofExcept (Stop.ofOption (s.conn.inBuf.store (off + receivedLen.toNat) bytes))
      set { s with socket, conn := { s.conn with inBuf } }
      blockRecvLoop off len fuel (receivedLen + bytes.length)

/-- `block_recv_all(conn_handle_, in_buf_ + off, len)`. -/
def blockRecvAll (off : Nat) (len : Int) : ClientM Int := do
  if (← get).conn.connHandle = invalidHandle then
    return 0
  blockRecvLoop off len (len.toNat + 1) 0

/-- The body of `if (pkt_len > PKT_HEADER_LEN)`; `false` when `RecvPacket` returns there. -/
def recvBody (pktLen : Int) : ClientM Bool := do
  if pktLen > headerLen then
    let s ← get
    if pktLen > s.conn.allocSize then
      set { s with
        conn := { s.conn with allocSize := pktLen, inBuf := s.conn.inBuf.realloc 0 pktLen.toNat } }
    let len ← blockRecvAll pktHeaderLen.toNat (pktLen - headerLen)
    return len = pktLen - headerLen
  else
    return true

/-- `RecvPacket`; `none` is `NULL`. -/
def recvPacket : ClientM (Option PktBase) := do
  if (← get).conn.connHandle = invalidHandle then
    return none
  let len ← blockRecvAll 0 headerLen
  if len ≠ headerLen then
    return none
  let length ← MonadExcept.ofExcept (Stop.ofOption (CByteStream.readUint32 (← get).conn.inBuf.cells))
  let pktLen := length.toInt32.toInt
  if ¬ (← recvBody pktLen) then
    return none
  tryCatch (do MonadExcept.ofExcept (readPacket (← get).conn.inBuf.cells 0 (UInt32.ofInt pktLen)))
    fun
      | .throws _ => return none
      | .undefined => throw .undefined

/-- Calls of `RecvPacket` up to the first one that returns `NULL`, with what the caller finds in each packet. -/
def recvPackets : Nat → ClientM (List Received)
  | 0 => throw .undefined
  | fuel + 1 => do
    match ← recvPacket with
    | none => return []
    | some pkt => do
      let bytes ← MonadExcept.ofExcept
        (Stop.ofOption (load (pkt.getBuffer (← get).conn.inBuf.cells) 0 pkt.getLength.toNat))
      let more ← recvPackets fuel
      return ⟨pkt.header, bytes⟩ :: more

/-- Connected, with the allocation of the constructor or a larger one, and no socket error to come. -/
structure Connected (s : ClientState) : Prop where
  handle : s.conn.connHandle ≠ invalidHandle
  size : kInitAllocSize ≤ s.conn.allocSize
  healthy : none ∉ s.socket.recvs

end ClientConn

end Netter
