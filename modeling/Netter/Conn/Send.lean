import Netter.Lib.Wp
import Netter.Conn.Model

/-!
# The outgoing stream

What the senders hand to an open connection leaves it through the kernel in the order of the calls,
whether a call sends directly, appends to the backlog, or waits for the connection to be
confirmed. `Account` says what a connection owes for a run of calls; `Flow` is the invariant that
ties `m_busy` and the backlog to it.
-/

namespace Netter

open Lib

/-- The bytes of a packet that `SendPkt` sends. -/
def HeapPkt.bytes (pkt : HeapPkt) : List UInt8 := pkt.pkt.buf.buffer.cells.take pkt.pkt.buf.writeOffset.toNat

namespace BaseConn

/-- A call on the sending side of a connection. -/
inductive SendCall where
  | send (data : List UInt8)
  | sendPkt (pkt : HeapPkt)
  | addToWaitPktList (pkt : HeapPkt)
  | onConfirm
  | onWrite

/-- Runs the call and gives what it returns, if it returns anything. -/
def SendCall.exec : SendCall → ConnM (List Int)
  | .send data => do return [← BaseConn.send data data.length]
  | .sendPkt pkt => do return [← BaseConn.sendPkt pkt.pkt]
  | .addToWaitPktList pkt => do BaseConn.addToWaitPktList pkt; return []
  | .onConfirm => do BaseConn.onConfirm; return []
  | .onWrite => do BaseConn.onWrite; return []

/-- A run of calls, each with the results `send(2)` gives during it. -/
def runCalls : List (SendCall × List Int) → ConnM (List Int)
  | [] => return []
  | (call, sends) :: calls => do
    modify fun s => { s with socket := { s.socket with sends } }
    let results ← call.exec
    return results ++ (← runCalls calls)

/-! ## What a connection owes -/

structure Account where
  handle : NetHandle
  isOpen : Bool
  waiting : List HeapPkt
  /-- The data of the `Send` calls made while open. -/
  accepted : List UInt8

/-- A `Send` of these bytes: what it returns and what is owed afterwards. -/
def Account.send (a : Account) (data : List UInt8) : List Int × Account :=
  if a.isOpen then ([(data.length : Int)], { a with accepted := a.accepted ++ data }) else ([0], a)

def Account.step (a : Account) : SendCall → List Int × Account
  | .send data => a.send data
  | .sendPkt pkt => a.send pkt.bytes
  | .addToWaitPktList pkt => ([], { a with waiting := a.waiting ++ [pkt] })
  | .onConfirm => ([], ⟨a.handle, true, [], a.accepted ++ a.waiting.flatMap HeapPkt.bytes⟩)
  | .onWrite => ([], a)

/-- A connection that owes nothing yet. -/
def Account.start (s : ConnState) : Account := ⟨s.conn.handle, s.conn.isOpen, s.conn.waitPktList, []⟩

def Account.run (a : Account) : List (SendCall × List Int) → List Int × Account
  | [] => ([], a)
  | (call, _) :: calls => ((a.step call).1 ++ ((a.step call).2.run calls).1, ((a.step call).2.run calls).2)

/-! ## Room -/

/-- The bytes of the backlog together with the data of the next `Send` stay below 2 GB. -/
def Fits (s : ConnState) (data : List UInt8) : Prop := s.conn.outBuf.content.length + data.length < 2 ^ 31

/-- The same for each packet of the wait list when its turn comes. -/
def FitsAll : List HeapPkt → ConnState → Prop
  | [], _ => True
  | pkt :: pkts, s => Fits s pkt.bytes ∧ ∀ r t, (BaseConn.sendPkt pkt.pkt).run s = .ok r t → FitsAll pkts t

def SendCall.Fits (s : ConnState) : SendCall → Prop
  | .send data => BaseConn.Fits s data
  | .sendPkt pkt => BaseConn.Fits s pkt.bytes
  | .onConfirm => FitsAll s.conn.waitPktList { s with conn := { s.conn with isOpen := true } }
  | _ => True

/-- Fewer than 2 GB are outstanding throughout the run. -/
def RunFits : List (SendCall × List Int) → ConnState → Prop
  | [], _ => True
  | (call, sends) :: calls, s =>
    call.Fits { s with socket := { s.socket with sends } } ∧
      ∀ r t, call.exec.run { s with socket := { s.socket with sends } } = .ok r t → RunFits calls t

/-! ## The invariant -/

/-- What the kernel has taken and the backlog make up what was accepted; the connection is busy
exactly when there is a backlog, which starts at the front of its buffer between calls and stays
below 2 GB. -/
structure Flow (s : ConnState) (a : Account) : Prop where
  handle : s.conn.handle = a.handle
  isOpen : s.conn.isOpen = a.isOpen
  waiting : s.conn.waitPktList = a.waiting
  wf : s.conn.outBuf.WF
  front : s.conn.outBuf.readOffset = 0
  busy : s.conn.busy = true ↔ 0 < s.conn.outBuf.getReadableLen
  stream : s.socket.sent ++ s.conn.outBuf.content = a.accepted
  small : s.conn.outBuf.content.length < 2 ^ 31

/-- The kernel's answers may be any. -/
theorem Flow.sends {s : ConnState} {a : Account} (flow : Flow s a) (sends : List Int) :
    Flow { s with socket := { s.socket with sends } } a :=
  ⟨flow.handle, flow.isOpen, flow.waiting, flow.wf, flow.front, flow.busy, flow.stream, flow.small⟩

theorem readable_pos {b : SimpleBuffer} (wf : b.WF) : 0 < b.getReadableLen ↔ b.content ≠ [] := by
  rw [← List.length_pos_iff, ← wf.toNat_getReadableLen, UInt32.lt_iff_toNat_lt]
  rfl

theorem Flow.room {s : ConnState} {a : Account} {data : List UInt8} (flow : Flow s a) (fits : Fits s data) :
    s.conn.outBuf.NoWrap data.length := by
  have size := flow.wf.length_content
  rw [flow.front] at size
  have zero : (0 : UInt32).toNat = 0 := rfl
  unfold Fits at fits
  exact ⟨by omega, by omega⟩

/-- A connection that is not busy has no backlog. -/
theorem Flow.idle {s : ConnState} {a : Account} (flow : Flow s a) (idle : s.conn.busy = false) :
    s.conn.outBuf.content = [] := by
  by_contra backlog
  have busy := flow.busy.mpr ((readable_pos flow.wf).mpr backlog)
  rw [idle] at busy
  cases busy

/-! ## `Send` -/

theorem socketSend_wp {buf : List UInt8} {len : Nat} {s : ConnState} (inside : len ≤ buf.length) :
    wp (socketSend buf len) (fun ret t => ret ≤ len ∧ t.conn = s.conn ∧ t.trace = s.trace ∧
      t.socket.sent = s.socket.sent ++ buf.take ret.toNat) Never s := by
  have there := load_zero inside
  have least := Int.min_le_right (s.socket.sends.headD 0) len
  have few : (min (s.socket.sends.headD 0) (len : Int)).toNat ≤ len := by omega
  simp only [socketSend, wp_bind, wp_get, BaseSocket.send, Int.toNat_natCast, there, orUndefined]
  rw [if_neg (by omega)]
  simp only [bind, Option.bind, Stop.ofOption, wp_ofExcept_ok, List.take_take]
  refine ⟨least, rfl, rfl, ?_⟩
  rw [Nat.min_eq_left few]

/-- What `clampSend` asks for lies in what remains. -/
theorem clampSend_spec {len : Nat} (some : 0 < len) :
    ∃ k : Nat, clampSend len = k ∧ 0 < k ∧ k ≤ len := by
  unfold clampSend kMaxSendSize
  split
  · exact ⟨128 * 1024, rfl, by decide, by omega⟩
  · exact ⟨len, rfl, some, Nat.le_refl len⟩

/-- The direct send gives the kernel a front part of what remains. -/
theorem sendLoop_wp {mem : List UInt8} {fuel offset remain : Nat} {s : ConnState}
    (inside : offset + remain ≤ mem.length) (enough : remain < fuel) :
    wp (sendLoop mem fuel offset remain) (fun r t => ∃ k ≤ remain, r = (↑(offset + k), ↑(remain - k)) ∧
      t.conn = s.conn ∧ t.trace = s.trace ∧ t.socket.sent = s.socket.sent ++ (mem.drop offset).take k) Never s := by
  induction fuel generalizing offset remain s with
  | zero => omega
  | succ fuel ih =>
    rw [sendLoop]
    by_cases rest : 0 < remain
    · obtain ⟨len, clamp, pos, short⟩ := clampSend_spec rest
      have there : len ≤ (mem.drop offset).length := by rw [List.length_drop]; omega
      rw [if_pos (by omega), clamp, wp_bind, Int.toNat_natCast]
      apply wp.call (socketSend_wp there)
      rintro ret t ⟨most, conn, trace, sent⟩
      rw [wp_ite]
      split
      · -- nothing taken: the loop stops here
        rename_i none
        have zero : ret.toNat = 0 := by omega
        rw [wp_pure]
        refine ⟨0, Nat.zero_le _, rfl, conn, trace, ?_⟩
        rw [sent, zero, List.take_zero]
      · rename_i taken
        obtain ⟨k, count⟩ : ∃ k : Nat, ret = k := ⟨ret.toNat, by omega⟩
        subst count
        have less : (remain : Int) - k = ↑(remain - k) := by omega
        rw [← Int.natCast_add, less]
        apply wp.call (ih (by omega) (by omega))
        rintro r t' ⟨m, bound, result, conn', trace', sent'⟩
        refine ⟨k + m, by omega, ?_, conn'.trans conn, trace'.trans trace, ?_⟩
        · rw [result, Nat.add_assoc, Nat.sub_sub]
        · rw [sent', sent, Int.toNat_natCast, List.append_assoc, ← List.drop_drop, ← List.take_add]
    · rw [if_neg (by omega), wp_pure]
      exact ⟨0, Nat.zero_le _, rfl, rfl, rfl, by simp⟩

theorem toNat_ofInt_natCast {n : Nat} (small : n < 2 ^ 32) : (UInt32.ofInt (n : Int)).toNat = n := by
  have reduced : ((n : Int) % 2 ^ 32).toNat = n := by omega
  show (UInt32.ofNat ((n : Int) % 2 ^ 32).toNat).toNat = n
  rw [reduced, UInt32.toNat_ofNat_of_lt' small]

/-- The backlog takes what the kernel has not taken. -/
theorem writeOut_wp {mem : List UInt8} {len : Nat} {s : ConnState} (inside : len ≤ mem.length)
    (wf : s.conn.outBuf.WF) (room : s.conn.outBuf.NoWrap len) :
    wp (writeOut mem len) (fun _ t => ∃ outBuf, t = { s with conn := { s.conn with outBuf } } ∧ outBuf.WF ∧
      outBuf.content = s.conn.outBuf.content ++ mem.take len ∧
      outBuf.readOffset = s.conn.outBuf.readOffset) Never s := by
  have sum := room.sum
  have count : (UInt32.ofInt (len : Int)).toNat = len := toNat_ofInt_natCast (by omega)
  have length : (mem.take len).length = len := by rw [List.length_take]; omega
  obtain ⟨b, run, wf', queue, front, -⟩ :=
    SimpleBuffer.write_spec wf (by rw [count, length]) (by rw [length]; exact room)
  have take : s.conn.outBuf.write (some mem) (UInt32.ofInt (len : Int)) = _ :=
    SimpleBuffer.write_take (by rw [count]; exact inside)
  rw [count, run] at take
  simp only [writeOut, wp_bind, wp_get, take, orUndefined, Stop.ofOption, wp_ofExcept_ok]
  exact ⟨b, rfl, wf', queue, front⟩

/-- What the kernel has not taken of the data has gone to the backlog. -/
theorem Flow.queued {s t : ConnState} {a : Account} {outBuf : SimpleBuffer} {data : List UInt8} (flow : Flow s a)
    (conn : t.conn = { s.conn with outBuf, busy := true }) (wf : outBuf.WF) (front : outBuf.readOffset = 0)
    (backlog : outBuf.content ≠ []) (small : outBuf.content.length < 2 ^ 31)
    (stream : t.socket.sent ++ outBuf.content = a.accepted ++ data) :
    Flow t { a with accepted := a.accepted ++ data } := by
  constructor <;> rw [conn]
  · exact flow.handle
  · exact flow.isOpen
  · exact flow.waiting
  · exact wf
  · exact front
  · exact ⟨fun _ => (readable_pos wf).mpr backlog, fun _ => rfl⟩
  · exact stream
  · exact small

/-- The kernel has taken all the data. -/
theorem Flow.taken {s t : ConnState} {a : Account} {data : List UInt8} (flow : Flow s a) (conn : t.conn = s.conn)
    (stream : t.socket.sent ++ s.conn.outBuf.content = a.accepted ++ data) :
    Flow t { a with accepted := a.accepted ++ data } := by
  constructor <;> rw [conn]
  · exact flow.handle
  · exact flow.isOpen
  · exact flow.waiting
  · exact flow.wf
  · exact flow.front
  · exact flow.busy
  · exact stream
  · exact flow.small

section Send

variable {mem : List UInt8} {len : Nat} {s : ConnState} {a : Account}

theorem length_take_of_le (inside : len ≤ mem.length) : (mem.take len).length = len :=
  (List.length_take).trans (Nat.min_eq_left inside)

/-- A busy connection puts the data behind its backlog. -/
theorem send_behind_wp (inside : len ≤ mem.length) (flow : Flow s a) (fits : Fits s (mem.take len))
    (isOpen : s.conn.isOpen = true) (busy : s.conn.busy = true) :
    wp (send mem len) (fun r t => r = len ∧ Flow t { a with accepted := a.accepted ++ mem.take len }) Never s := by
  have room := flow.room fits
  rw [length_take_of_le inside] at room
  simp only [send, wp_bind, wp_get]
  rw [if_neg (not_not.mpr isOpen), if_pos busy, wp_bind]
  apply wp.call (writeOut_wp inside flow.wf room)
  rintro - t ⟨outBuf, written, wf, queue, front⟩
  subst written
  have old : s.conn.outBuf.content ≠ [] := (readable_pos flow.wf).mp (flow.busy.mp busy)
  have stays : { s.conn with outBuf } = { s.conn with outBuf, busy := true } := by rw [← busy]
  rw [wp_pure]
  refine ⟨rfl, flow.queued stays wf (front.trans flow.front) ?_ ?_ ?_⟩
  · simp [queue, old]
  · rw [queue, List.length_append]
    exact fits
  · rw [queue, ← List.append_assoc, flow.stream]

/-- A connection that is not busy gives the data to the kernel, and the rest starts a backlog. -/
theorem send_direct_wp (inside : len ≤ mem.length) (flow : Flow s a) (fits : Fits s (mem.take len))
    (isOpen : s.conn.isOpen = true) (idle : s.conn.busy = false) :
    wp (send mem len) (fun r t => r = len ∧ Flow t { a with accepted := a.accepted ++ mem.take len }) Never s := by
  have room := flow.room fits
  have empty := flow.idle idle
  have whole : s.socket.sent = a.accepted := by rw [← flow.stream, empty, List.append_nil]
  have bound : len < 2 ^ 31 := by
    rw [Fits, length_take_of_le inside] at fits
    omega
  rw [length_take_of_le inside] at room
  simp only [send, wp_bind, wp_get]
  rw [if_neg (not_not.mpr isOpen), if_neg (by rw [idle]; decide), wp_bind, Int.toNat_natCast]
  apply wp.call (@sendLoop_wp mem _ 0 len s (by omega) (Nat.lt_succ_self _))
  rintro r t ⟨k, most, result, conn, trace, sent⟩
  subst result
  simp only [Nat.zero_add, List.drop_zero] at sent ⊢
  rw [whole] at sent
  by_cases rest : k < len
  · have short : t.conn.outBuf.NoWrap (len - k) := by
      rw [conn]
      exact ⟨by have := room.sum; omega, fun grow => by have := room.grow; omega⟩
    have there : len - k ≤ (mem.drop k).length := by
      rw [List.length_drop]
      omega
    rw [if_pos (by omega), wp_bind, Int.toNat_natCast]
    apply wp.call (writeOut_wp there (by rw [conn]; exact flow.wf) short)
    rintro - t' ⟨outBuf, written, wf, queue, front⟩
    subst written
    rw [conn, empty, List.nil_append] at queue
    rw [conn] at front
    have left : outBuf.content.length = len - k := by
      rw [queue, length_take_of_le there]
    have made : { t.conn with outBuf, busy := true } = { s.conn with outBuf, busy := true } := by rw [conn]
    refine ⟨rfl, flow.queued made wf (front.trans flow.front) ?_ (by omega) ?_⟩
    · exact List.ne_nil_of_length_pos (by omega)
    · have cut : k + (len - k) = len := by omega
      rw [sent, queue, List.append_assoc, ← List.take_add, cut]
  · have all : k = len := by omega
    rw [if_neg (by omega), wp_pure]
    refine ⟨rfl, flow.taken conn ?_⟩
    rw [empty, List.append_nil, sent, all]

/-- `Send` returns the length of its data if the connection is open, and owes the data from then on. -/
theorem send_wp (inside : len ≤ mem.length) (flow : Flow s a) (fits : Fits s (mem.take len)) :
    wp (send mem len) (fun r t => [r] = (a.send (mem.take len)).1 ∧ Flow t (a.send (mem.take len)).2)
      Never s := by
  unfold Account.send
  rw [length_take_of_le inside]
  by_cases isOpen : s.conn.isOpen = true
  · have accepts : a.isOpen = true := flow.isOpen.symm.trans isOpen
    have accepted : wp (send mem len)
        (fun r t => r = len ∧ Flow t { a with accepted := a.accepted ++ mem.take len }) Never s := by
      cases busy : s.conn.busy with
      | true => exact send_behind_wp inside flow fits isOpen busy
      | false => exact send_direct_wp inside flow fits isOpen busy
    rw [if_pos accepts]
    apply wp.call accepted
    intro r t ⟨result, flow'⟩
    exact ⟨congrArg (fun r => [r]) result, flow'⟩
  · have refuses : ¬ a.isOpen = true := by
      rw [← flow.isOpen]
      exact isOpen
    simp only [send, wp_bind, wp_get]
    rw [if_pos isOpen, if_neg refuses, wp_pure]
    exact ⟨rfl, flow⟩

end Send

theorem HeapPkt.length_bytes (pkt : HeapPkt) : pkt.bytes.length = pkt.pkt.buf.writeOffset.toNat := by
  have inside := pkt.wf.write_le
  rw [HeapPkt.bytes, List.length_take, pkt.pkt.buf.buffer.size]
  omega

theorem toInt_toInt32 {n : UInt32} (small : n.toNat < 2 ^ 31) : n.toInt32.toInt = n.toNat := by
  have small : 2 * n.toBitVec.toNat < 2 ^ 32 := by
    show 2 * n.toNat < 2 ^ 32
    omega
  exact BitVec.toInt_eq_toNat_of_lt small

/-- `SendPkt` sends the bytes of its packet. -/
theorem sendPkt_wp {pkt : HeapPkt} {s : ConnState} {a : Account} (flow : Flow s a)
    (fits : Fits s pkt.bytes) :
    wp (sendPkt pkt.pkt) (fun r t => [r] = (a.send pkt.bytes).1 ∧ Flow t (a.send pkt.bytes).2) Never s := by
  have size := HeapPkt.length_bytes pkt
  have inside := pkt.wf.write_le
  have small : pkt.pkt.buf.writeOffset.toNat < 2 ^ 31 := by
    unfold Fits at fits
    omega
  simp only [sendPkt, wp_bind, wp_get, PktBase.getBuffer, PktBase.getLength, pkt.own, toInt_toInt32 small]
  exact send_wp (by rw [pkt.pkt.buf.buffer.size]; exact inside) flow fits

/-- Each packet of the wait list is sent in its turn. -/
theorem sendWaiting_wp {pkts : List HeapPkt} {s : ConnState} {a : Account} (flow : Flow s a)
    (isOpen : a.isOpen = true) (fits : FitsAll pkts s) :
    wp (sendWaiting pkts)
      (fun _ t => Flow t { a with accepted := a.accepted ++ pkts.flatMap HeapPkt.bytes }) Never s := by
  induction pkts generalizing s a with
  | nil =>
    rw [sendWaiting, wp_pure, List.flatMap_nil, List.append_nil]
    exact flow
  | cons pkt pkts ih =>
    obtain ⟨handle, open', waiting, accepted⟩ := a
    obtain rfl : open' = true := isOpen
    obtain ⟨first, rest⟩ := fits
    rw [sendWaiting, wp_bind, wp_discard]
    apply wp.call_run (sendPkt_wp flow first)
    rintro r t run ⟨-, flow'⟩
    have others := ih flow' rfl (rest r t run)
    simp only [Account.send, if_true, List.append_assoc] at others
    exact others

theorem onConfirm_wp {s : ConnState} {a : Account} (flow : Flow s a)
    (fits : SendCall.onConfirm.Fits s) :
    wp onConfirm (fun _ t => Flow t (a.step .onConfirm).2) Never s := by
  simp only [onConfirm, wp_bind, wp_modify, wp_get]
  have opened : Flow { s with conn := { s.conn with isOpen := true } } { a with isOpen := true } :=
    ⟨flow.handle, rfl, flow.waiting, flow.wf, flow.front, flow.busy, flow.stream, flow.small⟩
  apply wp.call (sendWaiting_wp opened rfl fits)
  rintro - t ⟨handle, isOpen, waiting, wf, front, busy, stream, small⟩
  refine ⟨handle, isOpen, rfl, wf, front, busy, ?_, small⟩
  show t.socket.sent ++ t.conn.outBuf.content = a.accepted ++ a.waiting.flatMap HeapPkt.bytes
  rw [stream, ← flow.waiting]

/-! ## `OnWrite` -/

/-- `m_out_buf.Read(NULL, ret)` after the kernel has taken `ret` bytes. -/
theorem readNull_taken {b : SimpleBuffer} (wf : b.WF) {k : Nat} (inside : k ≤ b.content.length)
    (small : b.content.length < 2 ^ 31) :
    (b.readNull (UInt32.ofInt k)).WF ∧ (b.readNull (UInt32.ofInt k)).content = b.content.drop k ∧
      (b.readNull (UInt32.ofInt k)).content.length + k = b.content.length := by
  obtain ⟨wf', queue, -⟩ := SimpleBuffer.readNull_spec wf (UInt32.ofInt k)
  rw [toNat_ofInt_natCast (by omega)] at queue
  refine ⟨wf', queue, ?_⟩
  rw [queue, List.length_drop]
  omega

/-- The drain moves bytes from the front of the backlog to the kernel. -/
theorem drainLoop_wp {fuel : Nat} {s : ConnState} (wf : s.conn.outBuf.WF)
    (small : s.conn.outBuf.content.length < 2 ^ 31) (enough : s.conn.outBuf.content.length < fuel) :
    wp (drainLoop fuel) (fun _ t => ∃ outBuf, t.conn = { s.conn with outBuf } ∧ outBuf.WF ∧
      outBuf.content.length ≤ s.conn.outBuf.content.length ∧
      t.socket.sent ++ outBuf.content = s.socket.sent ++ s.conn.outBuf.content) Never s := by
  induction fuel generalizing s with
  | zero => omega
  | succ fuel ih =>
    have readable := wf.toNat_getReadableLen
    rw [drainLoop]
    simp only [wp_bind, wp_get]
    by_cases backlog : 0 < s.conn.outBuf.content.length
    · obtain ⟨len, clamp, pos, short⟩ := clampSend_spec backlog
      have some : s.conn.outBuf.getReadableLen > 0 := by
        rw [gt_iff_lt, UInt32.lt_iff_toNat_lt, readable]
        exact backlog
      have size := wf.length_content
      have inside := wf.write_le
      have there : len ≤ (s.conn.outBuf.buffer.cells.drop s.conn.outBuf.readOffset.toNat).length := by
        rw [List.length_drop, s.conn.outBuf.buffer.size]
        omega
      rw [if_pos some, toInt_toInt32 (by omega), readable, clamp, wp_bind]
      apply wp.call (socketSend_wp there)
      rintro ret t ⟨most, conn, -, sent⟩
      rw [wp_ite]
      split
      · -- nothing taken: the loop stops here
        rename_i none
        have zero : ret.toNat = 0 := by omega
        rw [wp_pure]
        refine ⟨s.conn.outBuf, conn, wf, Nat.le_refl _, ?_⟩
        rw [sent, zero, List.take_zero, List.append_nil]
      · rename_i taken
        obtain ⟨k, count⟩ : ∃ k : Nat, ret = k := ⟨ret.toNat, by omega⟩
        subst count
        obtain ⟨wf', queue, less⟩ := readNull_taken wf (show k ≤ _ by omega) small
        rw [Int.toNat_natCast, ← wf.take_content (by omega)] at sent
        rw [wp_bind, wp_modify, conn]
        have shorter : (s.conn.outBuf.readNull (UInt32.ofInt k)).content.length < 2 ^ 31 := by omega
        have enough' : (s.conn.outBuf.readNull (UInt32.ofInt k)).content.length < fuel := by omega
        refine wp.call (ih wf' shorter enough') ?_
        rintro - t' ⟨outBuf, conn', wf'', shrinks, stream⟩
        refine ⟨outBuf, conn', wf'', Nat.le_trans shrinks (Nat.le.intro less), stream.trans ?_⟩
        have parts : s.conn.outBuf.content.take k ++ s.conn.outBuf.content.drop k = _ := List.take_append_drop k _
        rw [← parts, ← List.append_assoc, ← sent, ← queue]
    · have none : ¬ s.conn.outBuf.getReadableLen > 0 := by
        rw [gt_iff_lt, UInt32.lt_iff_toNat_lt, readable]
        exact backlog
      rw [if_neg none, wp_pure]
      exact ⟨_, rfl, wf, Nat.le_refl _, rfl⟩

theorem onWrite_wp {s : ConnState} {a : Account} (flow : Flow s a) :
    wp onWrite (fun _ t => Flow t a) Never s := by
  simp only [onWrite, wp_bind, wp_get]
  by_cases busy : s.conn.busy = true
  · rw [if_neg (not_not.mpr busy), wp_bind, wp_get, wp_bind]
    apply wp.call (drainLoop_wp flow.wf flow.small (by rw [flow.wf.toNat_getReadableLen]; omega))
    rintro - t ⟨outBuf, conn, wf, shrinks, stream⟩
    obtain ⟨outBuf', reset, wf', queue, front, -⟩ := SimpleBuffer.resetOffset_spec wf
    simp only [wp_bind, wp_get, conn, reset, orUndefined, Stop.ofOption, wp_ofExcept_ok, wp_set]
    have total : t.socket.sent ++ outBuf'.content = a.accepted := by
      rw [queue, stream, flow.stream]
    have less : outBuf'.content.length < 2 ^ 31 := by
      rw [queue]
      exact Nat.lt_of_le_of_lt shrinks flow.small
    rw [wp_ite]
    split
    · rename_i drained
      exact ⟨flow.handle, flow.isOpen, flow.waiting, wf', front, by simp [drained], total, less⟩
    · rename_i backlog
      have pos : 0 < outBuf'.getReadableLen := UInt32.pos_iff_ne_zero.mpr backlog
      exact ⟨flow.handle, flow.isOpen, flow.waiting, wf', front, ⟨fun _ => pos, fun _ => busy⟩, total, less⟩
  · rw [if_pos busy, wp_pure]
    exact flow

/-! ## Runs -/

/-- One call gives what the account says and keeps the invariant. -/
theorem SendCall.exec_wp (call : SendCall) {s : ConnState} {a : Account} (flow : Flow s a)
    (fits : call.Fits s) :
    wp call.exec (fun r t => r = (a.step call).1 ∧ Flow t (a.step call).2) Never s := by
  cases call with
  | send data =>
    have sent := send_wp (Nat.le_refl data.length) flow (by rw [List.take_length]; exact fits)
    rw [List.take_length] at sent
    simp only [exec, wp_bind, wp_pure]
    exact sent
  | sendPkt pkt =>
    simp only [exec, wp_bind, wp_pure]
    exact sendPkt_wp flow fits
  | addToWaitPktList pkt =>
    simp only [exec, BaseConn.addToWaitPktList, wp_bind, wp_modify, wp_pure]
    refine ⟨rfl, flow.handle, flow.isOpen, ?_, flow.wf, flow.front, flow.busy, flow.stream, flow.small⟩
    show s.conn.waitPktList ++ [pkt] = a.waiting ++ [pkt]
    rw [flow.waiting]
  | onConfirm =>
    simp only [exec, wp_bind, wp_pure]
    apply wp.call (onConfirm_wp flow fits)
    rintro - t flow'
    exact ⟨rfl, flow'⟩
  | onWrite =>
    simp only [exec, wp_bind, wp_pure]
    apply wp.call (onWrite_wp flow)
    rintro - t flow'
    exact ⟨rfl, flow'⟩

theorem runCalls_wp {calls : List (SendCall × List Int)} {s : ConnState} {a : Account} (flow : Flow s a)
    (fits : RunFits calls s) :
    wp (runCalls calls) (fun r t => r = (a.run calls).1 ∧ Flow t (a.run calls).2) Never s := by
  induction calls generalizing s a with
  | nil =>
    rw [runCalls, wp_pure]
    exact ⟨rfl, flow⟩
  | cons first calls ih =>
    obtain ⟨call, sends⟩ := first
    obtain ⟨fits, rest⟩ := fits
    simp only [runCalls, wp_bind, wp_modify, wp_pure]
    apply wp.call_run (call.exec_wp (flow.sends sends) fits)
    rintro r t run ⟨result, flow''⟩
    apply wp.call (ih flow'' (rest r t run))
    rintro r' t' ⟨result', flow'''⟩
    exact ⟨by rw [result, result', Account.run], flow'''⟩

/-- Nothing sent and no backlog. -/
structure Idle (s : ConnState) : Prop where
  empty : s.conn.outBuf = .init
  idle : s.conn.busy = false
  start : s.socket.sent = []

theorem Idle.flow {s : ConnState} (idle : Idle s) : Flow s (.start s) := by
  refine ⟨rfl, rfl, rfl, ?_, ?_, ?_, ?_, ?_⟩
  · rw [idle.empty]; exact SimpleBuffer.wf_init
  · rw [idle.empty]; rfl
  · rw [idle.empty, idle.idle]; decide
  · rw [idle.empty, idle.start]; rfl
  · rw [idle.empty]; decide

/-- **The outgoing stream is kept.** After any run of calls and whatever the kernel answered, what
the kernel has taken followed by the backlog is the data of the `Send` calls made while open, in
order; these calls have returned their lengths; and the connection is busy exactly when there is a
backlog. -/
theorem stream_kept (calls : List (SendCall × List Int)) (s : ConnState) (idle : Idle s)
    (fits : RunFits calls s) :
    ∃ t, (runCalls calls).run s = .ok ((Account.start s).run calls).1 t ∧
      t.socket.sent ++ t.conn.outBuf.content = ((Account.start s).run calls).2.accepted ∧
      (t.conn.busy = true ↔ 0 < t.conn.outBuf.getReadableLen) := by
  obtain ⟨r, t, run, result, flow'⟩ := wp_never.mp (runCalls_wp idle.flow fits)
  subst result
  exact ⟨t, run, flow'.stream, flow'.busy⟩

/-- Three bytes of which the kernel takes two, and a drain that gives it the third. -/
theorem stream_kept_partial :
    ∃ t, (runCalls [(.send [1, 2, 3], [2]), (.onWrite, [1])]).run
        ⟨{ BaseConn.init with handle := 1, isOpen := true }, ⟨.connected, [], false, [], [], true⟩, []⟩ = .ok [3] t ∧
      t.socket.sent ++ t.conn.outBuf.content = [1, 2, 3] := by
  obtain ⟨t, run, stream, -⟩ := stream_kept [(.send [1, 2, 3], [2]), (.onWrite, [1])]
    ⟨{ BaseConn.init with handle := 1, isOpen := true }, ⟨.connected, [], false, [], [], true⟩, []⟩
    ⟨rfl, rfl, rfl⟩ ⟨by show 0 + 3 < 2 ^ 31; decide, fun _ _ _ => ⟨trivial, fun _ _ _ => trivial⟩⟩
  exact ⟨t, run, stream⟩

end BaseConn

end Netter
