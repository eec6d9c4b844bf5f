import Netter.Conn.Send
import Netter.SimpleBuffer.Capacity

/-!
# The chunks of the backlog

`OnWrite` converts the readable length of `m_out_buf` to `int` before it compares it with `kMaxSendSize`. A
backlog of 2 GB or more is then a negative size, which is below the limit, and the kernel gets it.
-/

namespace Netter.BaseConn

open Lib

/-- A call `m_base_socket->Send(m_out_buf.GetReadBuffer(), size)`. -/
structure OutChunk where
  outBuf : SimpleBuffer
  size : Int

/-- The size is one to send, and the bytes are written and not read yet. -/
structure OutChunk.Inside (chunk : OutChunk) : Prop where
  pos : 1 ≤ chunk.size
  most : chunk.size ≤ kMaxSendSize
  readable : chunk.outBuf.readOffset.toNat + chunk.size ≤ chunk.outBuf.writeOffset.toNat
  allocated : chunk.outBuf.writeOffset ≤ chunk.outBuf.allocSize

/-- The head of a round of the loop in `OnWrite`. -/
def nextChunk (outBuf : SimpleBuffer) : Option OutChunk :=
  if outBuf.getReadableLen > 0 then some ⟨outBuf, clampSend outBuf.getReadableLen.toInt32.toInt⟩ else none

/-- The calls of the loop in `OnWrite` when `Send` gives these results. -/
def drainCalls : List Int → SimpleBuffer → List OutChunk
  | [], outBuf => (nextChunk outBuf).toList
  | send :: sends, outBuf =>
    match nextChunk outBuf with
    | none => []
    | some chunk =>
      let ret := min send chunk.size
      chunk :: if ret ≤ 0 then [] else drainCalls sends (outBuf.readNull (UInt32.ofInt ret))

def onWriteCalls (sends : List Int) (conn : BaseConn) : List OutChunk :=
  if conn.busy then drainCalls sends conn.outBuf else []

variable {b : SimpleBuffer} {s : ConnState} {sends : List Int}

/-! ## A round -/

theorem nextChunk_of_empty (wf : b.WF) (empty : b.content = []) : nextChunk b = none := by
  have readable := wf.toNat_getReadableLen
  rw [empty] at readable
  refine if_neg fun some => ?_
  have pos := UInt32.lt_iff_toNat_lt.mp some
  rw [readable] at pos
  exact Nat.lt_irrefl _ pos

/-- Below 2 GB the next chunk is a front part of the backlog. -/
theorem nextChunk_small (wf : b.WF) (small : b.content.length < 2 ^ 31) (backlog : b.content ≠ []) :
    ∃ len : Nat, nextChunk b = some ⟨b, len⟩ ∧ 0 < len ∧ len ≤ b.content.length ∧ OutChunk.Inside ⟨b, len⟩ := by
  have readable := wf.toNat_getReadableLen
  have size := wf.length_content
  obtain ⟨len, clamp, pos, short⟩ := clampSend_spec (List.length_pos_iff.mpr backlog)
  have some : b.getReadableLen > 0 := (readable_pos wf).mpr backlog
  have most : clampSend b.content.length ≤ kMaxSendSize := by
    unfold clampSend
    split
    · exact Int.le_refl _
    · next few => exact Int.not_lt.mp few
  have inside : OutChunk.Inside ⟨b, len⟩ := by
    refine ⟨by show (1 : Int) ≤ len; omega, clamp ▸ most, ?_, UInt32.le_iff_toNat_le.mpr wf.write_le⟩
    show (b.readOffset.toNat : Int) + len ≤ b.writeOffset.toNat
    omega
  refine ⟨len, ?_, pos, short, inside⟩
  rw [nextChunk, if_pos some, toInt_toInt32 (by omega), readable, clamp]

/-- From 2 GB on its size is negative. -/
theorem nextChunk_large (wf : b.WF) (large : 2 ^ 31 ≤ b.content.length) :
    ∃ size : Int, nextChunk b = some ⟨b, size⟩ ∧ size < 0 := by
  have readable := wf.toNat_getReadableLen
  have some : b.getReadableLen > 0 := by
    rw [gt_iff_lt, UInt32.lt_iff_toNat_lt, readable]
    exact Nat.lt_of_lt_of_le (by decide) large
  have negative : b.getReadableLen.toInt32.toInt < 0 := by
    refine BitVec.toInt_neg_iff.mpr ?_
    show 2 ^ 32 ≤ 2 * b.getReadableLen.toNat
    omega
  refine ⟨clampSend b.getReadableLen.toInt32.toInt, if_pos some, ?_⟩
  unfold clampSend kMaxSendSize
  split
  · omega
  · exact negative

theorem drainCalls_none (done : nextChunk b = none) (sends : List Int) : drainCalls sends b = [] := by
  cases sends with
  | nil =>
    rw [drainCalls, done]
    rfl
  | cons send sends => rw [drainCalls, done]

theorem drainCalls_some {chunk : OutChunk} (next : nextChunk b = some chunk) (sends : List Int) :
    drainCalls sends b = chunk :: if min (sends.headD 0) chunk.size ≤ 0 then []
      else drainCalls sends.tail (b.readNull (UInt32.ofInt (min (sends.headD 0) chunk.size))) := by
  cases sends with
  | nil =>
    have blocks : min (([] : List Int).headD 0) chunk.size ≤ 0 := Int.min_le_left 0 chunk.size
    rw [drainCalls, next, if_pos blocks]
    rfl
  | cons send sends =>
    rw [drainCalls, next]
    rfl

/-! ## The loop -/

/-- Below 2 GB every chunk is inside. -/
theorem drainCalls_inside (wf : b.WF) (small : b.content.length < 2 ^ 31) : ∀ chunk ∈ drainCalls sends b, chunk.Inside := by
  induction sends generalizing b with
  | nil =>
    intro chunk member
    by_cases empty : b.content = []
    · rw [drainCalls_none (nextChunk_of_empty wf empty)] at member
      cases member
    · obtain ⟨len, next, -, -, inside⟩ := nextChunk_small wf small empty
      rw [drainCalls, next] at member
      rw [List.mem_singleton.mp member]
      exact inside
  | cons send sends ih =>
    intro chunk member
    by_cases empty : b.content = []
    · rw [drainCalls_none (nextChunk_of_empty wf empty)] at member
      cases member
    · obtain ⟨len, next, pos, short, inside⟩ := nextChunk_small wf small empty
      rw [drainCalls_some next] at member
      rcases List.mem_cons.mp member with first | later
      · rw [first]
        exact inside
      · split at later
        · cases later
        · next taken =>
          have most := Int.min_le_right ((send :: sends).headD 0) (len : Int)
          obtain ⟨k, count⟩ : ∃ k : Nat, min ((send :: sends).headD 0) (len : Int) = k := ⟨_, (Int.toNat_of_nonneg (by omega)).symm⟩
          rw [count] at later most
          obtain ⟨wf', -, less⟩ := readNull_taken wf (show k ≤ b.content.length by omega) small
          exact ih wf' (by omega) chunk later

/-- From 2 GB on the first chunk is not. -/
theorem drainCalls_outside (wf : b.WF) (large : 2 ^ 31 ≤ b.content.length) (sends : List Int) :
    ∃ chunk ∈ drainCalls sends b, ¬ chunk.Inside := by
  obtain ⟨size, next, negative⟩ := nextChunk_large wf large
  refine ⟨⟨b, size⟩, ?_, fun inside => ?_⟩
  · rw [drainCalls_some next]
    exact List.mem_cons_self
  · have pos : 1 ≤ size := inside.pos
    omega

theorem drainLoop_round {fuel : Nat} {Q : Unit → ConnState → Prop} {E : Stop → ConnState → Prop} :
    wp (drainLoop (fuel + 1)) Q E s ↔ match nextChunk s.conn.outBuf with
      | none => Q ⟨⟩ s
      | some chunk =>
        wp (socketSend (s.conn.outBuf.buffer.cells.drop s.conn.outBuf.readOffset.toNat) chunk.size)
          (fun ret t => if ret ≤ 0 then Q ⟨⟩ t else wp (drainLoop fuel) Q E { t with conn := { t.conn with
            outBuf := t.conn.outBuf.readNull (UInt32.ofInt ret) } }) E s := by
  rw [drainLoop, wp_bind, wp_get, nextChunk, wp_ite]
  split
  · rw [wp_bind]
    simp only [wp_ite, wp_pure, wp_bind, wp_modify]
  · rfl

theorem socketSend_result {buf : List UInt8} {len : Nat} (inside : len ≤ buf.length) :
    wp (socketSend buf len) (fun ret t => ret = min (s.socket.sends.headD 0) len ∧ t.conn = s.conn ∧
      t.socket.sends = s.socket.sends.tail) Never s := by
  have there := load_zero inside
  simp only [socketSend, wp_bind, wp_get, BaseSocket.send, Int.toNat_natCast, there, orUndefined]
  rw [if_neg (by omega)]
  exact ⟨rfl, rfl, rfl⟩

/-- The loop makes these calls, one for each result that it uses up, and they decide whether it is defined. -/
theorem drainLoop_calls {fuel : Nat} (wf : s.conn.outBuf.WF) (enough : s.conn.outBuf.content.length < fuel) :
    wp (drainLoop fuel)
      (fun _ t => (∀ chunk ∈ drainCalls s.socket.sends s.conn.outBuf, chunk.Inside) ∧
        t.socket.sends = s.socket.sends.drop (drainCalls s.socket.sends s.conn.outBuf).length)
      (fun stop _ => stop = .undefined ∧ ∃ chunk ∈ drainCalls s.socket.sends s.conn.outBuf, ¬ chunk.Inside) s := by
  induction fuel generalizing s with
  | zero => omega
  | succ fuel ih =>
    rw [drainLoop_round]
    by_cases empty : s.conn.outBuf.content = []
    · have done := nextChunk_of_empty wf empty
      rw [done, drainCalls_none done]
      exact ⟨nofun, rfl⟩
    by_cases small : s.conn.outBuf.content.length < 2 ^ 31
    · obtain ⟨len, next, pos, short, inside⟩ := nextChunk_small wf small empty
      have size := wf.length_content
      have space := wf.write_le
      have there : len ≤ (s.conn.outBuf.buffer.cells.drop s.conn.outBuf.readOffset.toNat).length := by
        rw [List.length_drop, s.conn.outBuf.buffer.size]
        omega
      rw [next, drainCalls_some next]
      refine (socketSend_result there).call fun ret t ⟨is, conn, rest⟩ => ?_
      rw [← is]
      split
      · refine ⟨fun chunk member => ?_, ?_⟩
        · rw [List.mem_singleton.mp member]
          exact inside
        · rw [rest]
          exact List.drop_one.symm
      · next taken =>
        have most := Int.min_le_right (s.socket.sends.headD 0) (len : Int)
        obtain ⟨k, count⟩ : ∃ k : Nat, ret = k := ⟨ret.toNat, by omega⟩
        subst count
        obtain ⟨wf', -, less⟩ := readNull_taken wf (show k ≤ s.conn.outBuf.content.length by omega) small
        have shorter : (s.conn.outBuf.readNull (UInt32.ofInt k)).content.length < fuel := by omega
        rw [conn, ← rest]
        refine (ih wf' shorter).mono ?_ ?_
        · rintro - u ⟨all, used⟩
          exact ⟨List.forall_mem_cons.mpr ⟨inside, all⟩, used.trans (by rw [rest, List.length_cons]; exact List.drop_tail ..)⟩
        · rintro stop u ⟨undefined, chunk, member, outside⟩
          exact ⟨undefined, chunk, List.mem_cons_of_mem _ member, outside⟩
    · have large := Nat.le_of_not_lt small
      obtain ⟨size, next, negative⟩ := nextChunk_large wf large
      have outside := drainCalls_outside wf large s.socket.sends
      rw [next]
      simp only [socketSend, wp_bind, wp_get, BaseSocket.send, orUndefined, if_pos negative]
      exact ⟨rfl, outside⟩

/-! ## What every call keeps -/

/-- The offsets of `m_out_buf` are in order, whatever its size is. -/
def OutBufWF (s : ConnState) : Prop := s.conn.outBuf.WF

theorem write_wf {data : List UInt8} {len : UInt32} {after : SimpleBuffer} (wf : b.WF)
    (written : b.write (some data) len = some after) : after.WF := by
  have enough : len.toNat ≤ data.length := by
    have loads := written
    rw [SimpleBuffer.write_some] at loads
    obtain ⟨bytes, loaded, -⟩ := Option.bind_eq_some_iff.mp loads
    by_contra beyond
    rw [load_eq_none (by omega)] at loaded
    cases loaded
  exact (SimpleBuffer.write_of_some wf written enough).1

theorem writeOut_keeps (data : List UInt8) (len : Int) : Keeps OutBufWF (writeOut data len) := by
  intro s wf
  unfold writeOut
  rw [wp_bind, wp_get, wp_bind]
  unfold orUndefined
  cases written : s.conn.outBuf.write (some data) (UInt32.ofInt len) with
  | none => exact trivial
  | some after => exact write_wf wf written

theorem socketSend_keeps (buf : List UInt8) (len : Int) : Keeps OutBufWF (socketSend buf len) := by
  intro s wf
  unfold socketSend
  rw [wp_bind, wp_get, wp_bind]
  unfold orUndefined
  cases s.socket.send buf len with
  | none => exact trivial
  | some result => exact wf

theorem sendLoop_keeps (data : List UInt8) (fuel : Nat) (offset remain : Int) :
    Keeps OutBufWF (sendLoop data fuel offset remain) := by
  induction fuel generalizing offset remain with
  | zero => exact fun s wf => trivial
  | succ fuel ih =>
    intro s wf
    unfold sendLoop
    rw [wp_ite]
    split
    · refine (socketSend_keeps _ _).call wf fun ret t wf => ?_
      rw [wp_ite]
      split
      · exact wf
      · exact ih _ _ t wf
    · exact wf

theorem send_keeps (data : List UInt8) (len : Int) : Keeps OutBufWF (send data len) := by
  intro s wf
  unfold send
  simp only [wp_bind, wp_get, wp_ite, wp_pure]
  split
  · exact wf
  split
  · exact writeOut_keeps data len s wf
  · refine (sendLoop_keeps data _ 0 len s wf).mono (fun left t wf => ?_) fun _ _ h => h
    split
    · exact writeOut_keeps _ _ t wf
    · exact wf

theorem sendPkt_keeps (pkt : PktBase) : Keeps OutBufWF (sendPkt pkt) := by
  intro s wf
  rw [sendPkt, wp_bind, wp_get]
  exact send_keeps _ _ s wf

theorem sendWaiting_keeps (pkts : List HeapPkt) : Keeps OutBufWF (sendWaiting pkts) := by
  induction pkts with
  | nil => exact fun s wf => wf
  | cons pkt pkts ih =>
    intro s wf
    rw [sendWaiting, wp_bind, wp_discard]
    exact (sendPkt_keeps pkt.pkt s wf).mono (fun _ t wf => ih t wf) fun _ _ h => h

theorem onConfirm_keeps : Keeps OutBufWF onConfirm := by
  intro s wf
  unfold onConfirm
  simp only [wp_bind, wp_modify, wp_get]
  exact sendWaiting_keeps _ _ wf

theorem drainLoop_keeps (fuel : Nat) : Keeps OutBufWF (drainLoop fuel) := by
  induction fuel with
  | zero => exact fun s wf => trivial
  | succ fuel ih =>
    intro s wf
    rw [drainLoop_round]
    split
    · exact wf
    · refine (socketSend_keeps _ _ s wf).mono (fun ret t wf => ?_) fun _ _ h => h
      split
      · exact wf
      · exact ih _ (SimpleBuffer.readNull_spec wf _).1

theorem onWrite_keeps : Keeps OutBufWF onWrite := by
  intro s wf
  unfold onWrite
  simp only [wp_bind, wp_get, wp_ite, wp_pure]
  split
  · exact wf
  · refine (drainLoop_keeps _ s wf).mono (fun _ t wf => ?_) fun _ _ h => h
    obtain ⟨outBuf, reset, wf', -⟩ := SimpleBuffer.resetOffset_spec wf
    simp only [reset, orUndefined, Stop.ofOption, wp_ofExcept_ok, wp_set, wp_modify]
    split
    · exact wf'
    · exact wf'

theorem SendCall.exec_keeps (call : SendCall) : Keeps OutBufWF call.exec := by
  cases call with
  | send data => exact (send_keeps data _).bind fun _ _ wf => wf
  | sendPkt pkt => exact (sendPkt_keeps pkt.pkt).bind fun _ _ wf => wf
  | addToWaitPktList pkt => exact fun s wf => wf
  | onConfirm => exact onConfirm_keeps.bind fun _ _ wf => wf
  | onWrite => exact onWrite_keeps.bind fun _ _ wf => wf

theorem runCalls_keeps (calls : List (SendCall × List Int)) : Keeps OutBufWF (runCalls calls) := by
  induction calls with
  | nil => exact fun s wf => wf
  | cons first calls ih =>
    obtain ⟨call, sends⟩ := first
    intro s wf
    rw [runCalls, wp_bind, wp_modify]
    refine call.exec_keeps.call wf fun results t wf => ?_
    exact ih.call wf fun _ _ wf => wf

/-- `OnWrite` is defined as long as its chunks are inside, and otherwise it is not. -/
theorem onWrite_calls (wf : s.conn.outBuf.WF) :
    wp onWrite
      (fun _ t => (∀ chunk ∈ onWriteCalls s.socket.sends s.conn, chunk.Inside) ∧
        t.socket.sends = s.socket.sends.drop (onWriteCalls s.socket.sends s.conn).length)
      (fun stop _ => stop = .undefined ∧ ∃ chunk ∈ onWriteCalls s.socket.sends s.conn, ¬ chunk.Inside) s := by
  unfold onWrite onWriteCalls
  simp only [wp_bind, wp_get, wp_ite, wp_pure]
  by_cases busy : s.conn.busy = true
  · have enough : s.conn.outBuf.content.length < s.conn.outBuf.getReadableLen.toNat + 1 := by
      rw [wf.toNat_getReadableLen]
      exact Nat.lt_succ_self _
    have both := (drainLoop_calls wf enough).and (drainLoop_keeps _ s wf)
    rw [if_neg (not_not.mpr busy), if_pos busy]
    refine both.mono ?_ fun _ _ h => h.1
    rintro - t ⟨⟨inside, used⟩, wf'⟩
    obtain ⟨outBuf, reset, -⟩ := SimpleBuffer.resetOffset_spec wf'
    simp only [reset, orUndefined, Stop.ofOption, wp_ofExcept_ok, wp_set, wp_modify]
    split
    · exact ⟨inside, used⟩
    · exact ⟨inside, used⟩
  · rw [if_pos busy, if_neg busy]
    exact ⟨List.forall_mem_nil _, rfl⟩

/-! ## A backlog of 2 GB -/

/-- An open connection with no backlog. -/
def confirmed : ConnState :=
  ⟨{ BaseConn.init with handle := 1, isOpen := true }, ⟨.connected, [], false, [], [], true⟩, []⟩

section Backlog

variable {data : List UInt8} {after : SimpleBuffer}

/-- A kernel that takes nothing leaves all the data to the backlog. -/
theorem send_blocked_wp (isOpen : s.conn.isOpen = true) (idle : s.conn.busy = false) (blocked : s.socket.sends = [])
    (pos : 0 < data.length) (written : s.conn.outBuf.write (some data) (UInt32.ofInt data.length) = some after) :
    wp (send data data.length) (fun _ t => t.conn = { s.conn with outBuf := after, busy := true }) Never s := by
  obtain ⟨len, clamp, -, short⟩ := clampSend_spec pos
  have loops : wp (sendLoop data (data.length + 1) 0 data.length)
      (fun r t => r = (0, (data.length : Int)) ∧ t.conn = s.conn) Never s := by
    unfold sendLoop
    rw [if_pos (Int.natCast_pos.mpr pos), clamp, wp_bind]
    refine (socketSend_result short).call fun ret t sent => ?_
    obtain ⟨is, conn, -⟩ := sent
    have none : ret ≤ 0 := by
      rw [is, blocked]
      exact Int.min_le_left 0 _
    rw [if_pos none]
    exact ⟨rfl, conn⟩
  unfold send
  rw [wp_bind, wp_get, if_neg (not_not.mpr isOpen), if_neg (by rw [idle]; decide), wp_bind]
  refine loops.call fun r t looped => ?_
  obtain ⟨rfl, conn⟩ := looped
  simp only [if_pos (Int.natCast_pos.mpr pos), writeOut, wp_bind, wp_get, conn, Int.toNat_zero, List.drop_zero, written,
    orUndefined, Stop.ofOption, wp_ofExcept_ok, wp_set, wp_modify, wp_pure]

theorem send_busy_wp (isOpen : s.conn.isOpen = true) (busy : s.conn.busy = true)
    (written : s.conn.outBuf.write (some data) (UInt32.ofInt data.length) = some after) :
    wp (send data data.length) (fun _ t => t.conn = { s.conn with outBuf := after }) Never s := by
  simp only [send, writeOut, wp_bind, wp_get, wp_ite, if_neg (not_not.mpr isOpen), if_pos busy, written, orUndefined,
    Stop.ofOption, wp_ofExcept_ok, wp_set, wp_pure]

/-- The largest packet there is and one byte more, for a peer that reads nothing. -/
theorem backlog_of_large (large : data.length = 2 ^ 31 - 1) : ∃ results s,
    (runCalls [(.send data, []), (.send [0], [])]).run confirmed = .ok results s ∧ s.conn.busy = true ∧
      ∃ chunk ∈ onWriteCalls [] s.conn, ¬ chunk.Inside := by
  have fits : SimpleBuffer.init.NoWrap data.length := by
    rw [large]
    exact ⟨by decide, fun _ => by decide⟩
  have count : (UInt32.ofInt data.length).toNat = data.length := toNat_ofInt_natCast (by omega)
  obtain ⟨b, written, wf, queue, -, ends⟩ := SimpleBuffer.write_spec SimpleBuffer.wf_init count fits
  obtain ⟨-, size⟩ := SimpleBuffer.room_of_write written (Nat.le_of_eq count)
  have alloc : b.allocSize.toNat = 2684354558 := by
    rw [size, large]
    decide
  rw [large] at ends
  have start : SimpleBuffer.init.writeOffset.toNat = 0 := rfl
  have more : b.NoWrap [(0 : UInt8)].length := by
    rw [List.length_singleton]
    exact ⟨by omega, fun full => by omega⟩
  have one : (UInt32.ofInt [(0 : UInt8)].length).toNat = [(0 : UInt8)].length := rfl
  obtain ⟨b', written', wf', queue', -⟩ := SimpleBuffer.write_spec wf one more
  have runs : wp (runCalls [(.send data, []), (.send [0], [])])
      (fun _ t => t.conn.busy = true ∧ t.conn.outBuf = b') Never confirmed := by
    simp only [runCalls, SendCall.exec, wp_bind, wp_modify, wp_pure]
    have first := send_blocked_wp (s := confirmed) rfl rfl rfl (by omega) written
    refine first.call fun _ t conn => ?_
    have second : wp (send [0] ([(0 : UInt8)].length : Int)) (fun _ u => u.conn = { t.conn with outBuf := b' }) Never
        { t with socket := { t.socket with sends := [] } } := by
      refine send_busy_wp ?_ ?_ ?_
      · rw [conn]
        rfl
      · rw [conn]
      · rw [conn]
        exact written'
    refine second.call fun _ u conn' => ?_
    rw [conn', conn]
    exact ⟨rfl, rfl⟩
  obtain ⟨results, s, ran, busy, is⟩ := wp_never.mp runs
  refine ⟨results, s, ran, busy, ?_⟩
  have length : b'.content.length = 2 ^ 31 := by
    rw [queue', queue, List.length_append, List.length_append, large]
    rfl
  unfold onWriteCalls
  rw [if_pos busy, is]
  exact drainCalls_outside wf' (Nat.le_of_eq length.symm) []

end Backlog

/-! ## Every backlog -/

/-- **Draining stays inside the backlog** exactly when this is smaller than 2 GB: for each state that calls can
build up, and all results of `Send`. -/
theorem drain_inside_iff {calls : List (SendCall × List Int)} {start : ConnState} {results : List Int}
    (idle : Idle start) (ran : (runCalls calls).run start = .ok results s) :
    (∀ sends, ∀ chunk ∈ onWriteCalls sends s.conn, chunk.Inside) ↔
      (s.conn.busy = true → s.conn.outBuf.getReadableLen.toNat < 2 ^ 31) := by
  have wf : s.conn.outBuf.WF := (runCalls_keeps calls).run idle.flow.wf ran
  rw [wf.toNat_getReadableLen]
  unfold onWriteCalls
  constructor
  · intro inside busy
    by_contra large
    obtain ⟨chunk, member, outside⟩ := drainCalls_outside wf (Nat.le_of_not_lt large) []
    exact outside (inside [] chunk (by rw [if_pos busy]; exact member))
  · intro small sends chunk member
    split at member
    · next busy => exact drainCalls_inside wf (small busy) chunk member
    · cases member

theorem drain_inside_partial : ∃ s, (runCalls [(.send [1, 2, 3], [2])]).run confirmed = .ok [3] s ∧
    s.conn.busy = true ∧ ∀ sends, ∀ chunk ∈ onWriteCalls sends s.conn, chunk.Inside := by
  obtain ⟨s, ran, busy, one⟩ : ∃ s, (runCalls [(.send [1, 2, 3], [2])]).run confirmed = .ok [3] s ∧
      s.conn.busy = true ∧ s.conn.outBuf.getReadableLen = 1 := ⟨_, rfl, rfl, rfl⟩
  refine ⟨s, ran, busy, (drain_inside_iff ⟨rfl, rfl, rfl⟩ ran).mpr fun _ => ?_⟩
  rw [one]
  decide

/-- `OnWrite` passes a negative size. -/
theorem not_drain_inside : ∃ results s,
    (runCalls [(.send (List.replicate (2 ^ 31 - 1) 0), []), (.send [0], [])]).run confirmed = .ok results s ∧
      s.conn.busy = true ∧ ∃ chunk ∈ onWriteCalls [] s.conn, ¬ chunk.Inside := backlog_of_large List.length_replicate

end Netter.BaseConn
