import Netter.Lib.Run
import Netter.Conn.Send

/-!
# Waiting for writability

A connection that cannot send goes on when its loop reports `WRITE`. On Linux the socket is watched edge-triggered:
`WRITE` is certain only after a `send` that would have blocked. In the `kqueue` version `BaseSocket::Send` registers
`EVFILT_WRITE` at that moment, and `BaseSocket::OnWrite` removes it again. Either way a connection must not stay busy
without a `send` that was refused since its last `OnWrite`, or its backlog would never leave.
-/

namespace Netter.BaseConn

open Lib

/-- The results of `send` during one call: the kernel takes something each time until it refuses. -/
inductive Answers : List Int → Prop where
  | refuses {ret : Int} (none : ret ≤ 0) : Answers [ret]
  | takes {ret : Int} {sends : List Int} (some : 0 < ret) (rest : Answers sends) : Answers (ret :: sends)

/-- How a call leaves the kernel: it has not refused, and the connection is busy as it was, or it has refused and the
connection is busy. -/
inductive Asked (busy : Bool) (s : ConnState) : Prop where
  | yet (left : Answers s.socket.sends) (same : s.conn.busy = busy)
  | refused (none : s.socket.sends = []) (waits : s.conn.busy = true)

/-- What holds again when the call returns or throws, whatever holds after undefined behaviour. -/
def Throughout (I : ConnState → Prop) {α : Type} (x : ConnM α) : Prop :=
  ∀ s, I s → wp x (fun _ => I) (fun e t => e ≠ .undefined → I t) s

variable {busy : Bool} {s t : ConnState}

/-- The call does not touch the socket's answers and `m_busy`. -/
theorem Asked.same (asked : Asked busy s) (sends : t.socket.sends = s.socket.sends) (waits : t.conn.busy = s.conn.busy) :
    Asked busy t := by
  cases asked with
  | yet left same => exact .yet (sends ▸ left) (waits.trans same)
  | refused none yes => exact .refused (sends.trans none) (waits.trans yes)

section Throughout

variable {I : ConnState → Prop} {α β : Type} {x : ConnM α}

/-- What comes next may look at the state that the call has left. -/
theorem Throughout.call {f : α → ConnM β} (first : Throughout I x) (start : I s)
    (rest : ∀ a t, I t → wp (f a) (fun _ => I) (fun e t => e ≠ .undefined → I t) t) :
    wp (x >>= f) (fun _ => I) (fun e t => e ≠ .undefined → I t) s := by
  rw [wp_bind]
  exact (first s start).mono rest fun _ _ kept => kept

theorem Throughout.pure (a : α) : Throughout I (Pure.pure a) := fun _ start => start

end Throughout

/-! ## `Send` -/

/-- A `send(2)` of something. -/
theorem socketSend_asks (buf : List UInt8) (len : Int) (s : ConnState) :
    wp (socketSend buf len) (fun ret t => t.conn = s.conn ∧ t.socket.sends = s.socket.sends.tail ∧
      ret = min (s.socket.sends.headD 0) len) (fun e _ => e = .undefined) s := by
  simp only [socketSend, wp_bind, wp_get]
  cases sent : s.socket.send buf len with
  | none => rfl
  | some result =>
    obtain ⟨ret, socket⟩ := result
    unfold BaseSocket.send at sent
    split at sent
    · cases sent
    · obtain ⟨bytes, -, taken⟩ := Option.bind_eq_some_iff.mp sent
      cases taken
      exact ⟨rfl, rfl, rfl⟩

theorem clampSend_pos {len : Int} (some : 0 < len) : 0 < clampSend len := by
  unfold clampSend kMaxSendSize
  split <;> omega

/-- The loop of `Send` ends with everything taken or with a refusal. -/
theorem sendLoop_asks (data : List UInt8) (fuel : Nat) (offset remain : Int) (left : Answers s.socket.sends) :
    wp (sendLoop data fuel offset remain) (fun r t => t.conn = s.conn ∧
      (¬ r.2 > 0 ∧ Answers t.socket.sends ∨ r.2 > 0 ∧ t.socket.sends = [])) (fun e _ => e = .undefined) s := by
  induction fuel generalizing s offset remain with
  | zero => rfl
  | succ fuel ih =>
    rw [sendLoop]
    by_cases rest : remain > 0
    · rw [if_pos rest, wp_bind]
      have pos := clampSend_pos rest
      refine (socketSend_asks _ _ s).mono ?_ fun _ _ stop => stop
      rintro ret t ⟨conn, sends, is⟩
      generalize s.socket.sends = answers at left sends is
      rw [wp_ite]
      cases left with
      | refuses none =>
        rw [List.headD_cons] at is
        rw [if_pos (by omega), wp_pure]
        exact ⟨conn, .inr ⟨rest, sends⟩⟩
      | takes some left =>
        rw [List.headD_cons] at is
        rw [if_neg (by omega)]
        rw [List.tail_cons] at sends
        refine (ih _ _ (sends ▸ left)).mono ?_ fun _ _ stop => stop
        rintro r u ⟨conn', ends⟩
        exact ⟨conn'.trans conn, ends⟩
    · rw [if_neg rest, wp_pure]
      exact ⟨rfl, .inl ⟨rest, left⟩⟩

/-- `m_out_buf.Write` changes the backlog only. -/
theorem writeOut_asks (data : List UInt8) (len : Int) (s : ConnState) :
    wp (writeOut data len) (fun _ t => t.socket = s.socket ∧ t.conn.busy = s.conn.busy) (fun e _ => e = .undefined) s := by
  simp only [writeOut, wp_bind, wp_get]
  cases s.conn.outBuf.write (some data) (UInt32.ofInt len) with
  | none => rfl
  | some outBuf => exact ⟨rfl, rfl⟩

/-- `Send` makes the connection busy exactly when it meets a refusal. -/
theorem send_asked (data : List UInt8) (len : Int) : Throughout (Asked busy) (send data len) := by
  intro s asked
  simp only [send, wp_bind, wp_get]
  split
  · exact asked
  split
  · rw [wp_bind]
    refine (writeOut_asks _ _ s).mono (fun _ t same => ?_) fun e _ stop no => absurd stop no
    exact asked.same (by rw [same.1]) same.2
  · rename_i idle
    cases asked with
    | refused _ waits => exact absurd waits idle
    | yet left same =>
      rw [wp_bind]
      refine (sendLoop_asks _ _ _ _ left).mono ?_ fun e _ stop no => absurd stop no
      rintro ⟨offset, remain⟩ t ⟨conn, ends⟩
      dsimp only at ends ⊢
      rcases ends with ⟨all, left⟩ | ⟨rest, none⟩
      · rw [if_neg all]
        exact .yet left ((congrArg BaseConn.busy conn).trans same)
      · rw [if_pos rest, wp_bind]
        refine (writeOut_asks _ _ t).mono (fun _ u same => ?_) fun e _ stop no => absurd stop no
        rw [wp_bind, wp_modify]
        refine .refused ?_ rfl
        show u.socket.sends = []
        rw [same.1, none]

theorem sendPkt_asked (pkt : PktBase) : Throughout (Asked busy) (sendPkt pkt) := by
  intro s asked
  simp only [sendPkt, wp_bind, wp_get]
  exact send_asked _ _ s asked

theorem sendWaiting_asked (pkts : List HeapPkt) : Throughout (Asked busy) (sendWaiting pkts) := by
  induction pkts with
  | nil => exact Throughout.pure _
  | cons pkt pkts ih =>
    intro s asked
    rw [sendWaiting, wp_bind, wp_discard]
    exact (sendPkt_asked _ s asked).mono (fun _ t asked => ih t asked) fun _ _ kept => kept

theorem onConfirm_asked : Throughout (Asked busy) onConfirm := by
  intro s asked
  simp only [onConfirm, wp_bind, wp_modify, wp_get]
  have opened : Asked busy { s with conn := { s.conn with isOpen := true } } := asked.same rfl rfl
  refine (sendWaiting_asked _ _ opened).mono (fun _ t asked => ?_) fun _ _ kept => kept
  exact asked.same rfl rfl

/-! ## `OnWrite` -/

theorem toInt_toInt32_ne_zero {n : UInt32} (some : n > 0) : n.toInt32.toInt ≠ 0 := by
  intro zero
  have bits : n.toBitVec = 0#32 := BitVec.eq_of_toInt_eq zero
  have none : n = 0 := UInt32.toBitVec_inj.mp bits
  rw [none] at some
  exact absurd some (by decide)

/-- The drain ends with an empty backlog or with a refusal. -/
theorem drainLoop_asks (fuel : Nat) (left : Answers s.socket.sends) :
    wp (drainLoop fuel) (fun _ t => t.conn.busy = s.conn.busy ∧
      (t.conn.outBuf.getReadableLen = 0 ∧ Answers t.socket.sends ∨
        t.conn.outBuf.getReadableLen ≠ 0 ∧ t.socket.sends = [])) (fun e _ => e = .undefined) s := by
  induction fuel generalizing s with
  | zero => rfl
  | succ fuel ih =>
    simp only [drainLoop, wp_bind, wp_get]
    by_cases backlog : s.conn.outBuf.getReadableLen > 0
    · rw [if_pos backlog, wp_bind]
      rcases Int.lt_or_gt_of_ne (toInt_toInt32_ne_zero backlog) with negative | positive
      · -- a size that has become negative is not one of a buffer
        have size : clampSend s.conn.outBuf.getReadableLen.toInt32.toInt < 0 := by
          unfold clampSend kMaxSendSize
          split <;> omega
        simp only [socketSend, wp_bind, wp_get, BaseSocket.send, if_pos size]
        rfl
      · have pos := clampSend_pos positive
        refine (socketSend_asks _ _ s).mono ?_ fun _ _ stop => stop
        rintro ret t ⟨conn, sends, is⟩
        generalize s.socket.sends = answers at left sends is
        rw [wp_ite]
        cases left with
        | refuses none =>
          rw [List.headD_cons] at is
          rw [if_pos (by omega), wp_pure]
          refine ⟨congrArg BaseConn.busy conn, .inr ⟨?_, sends⟩⟩
          rw [conn]
          exact UInt32.pos_iff_ne_zero.mp backlog
        | takes some left =>
          rw [List.headD_cons] at is
          rw [if_neg (by omega), wp_bind, wp_modify]
          rw [List.tail_cons] at sends
          refine (ih (by exact sends ▸ left)).mono ?_ fun _ _ stop => stop
          rintro - u ⟨busy, ends⟩
          have same : t.conn.busy = s.conn.busy := congrArg BaseConn.busy conn
          exact ⟨busy.trans same, ends⟩
    · rw [if_neg backlog, wp_pure]
      exact ⟨rfl, .inl ⟨not_not.mp (mt UInt32.pos_iff_ne_zero.mpr backlog), left⟩⟩

theorem readable_resetOffset {b b' : SimpleBuffer} (reset : b.resetOffset = some b') : b'.getReadableLen = b.getReadableLen := by
  unfold SimpleBuffer.resetOffset at reset
  split at reset
  · cases reset
    rfl
  · dsimp only at reset
    split at reset
    · obtain ⟨buffer, -, is⟩ := Option.bind_eq_some_iff.mp reset
      cases is
      exact UInt32.sub_zero _
    · cases reset
      exact UInt32.sub_zero _

/-- After `OnWrite` a connection is busy exactly if it has met a refusal. -/
theorem onWrite_asked (left : Answers s.socket.sends) :
    wp onWrite (fun _ => Asked false) (fun e t => e ≠ .undefined → Asked false t) s := by
  simp only [onWrite, wp_bind, wp_get]
  split
  · rename_i idle
    exact .yet left (by simpa using idle)
  · rename_i busy
    rw [not_not] at busy
    simp only [wp_bind, wp_get]
    refine (drainLoop_asks _ left).mono ?_ fun e _ stop no => absurd stop no
    rintro - t ⟨same, ends⟩
    cases reset : t.conn.outBuf.resetOffset with
    | none => exact fun no => absurd rfl no
    | some outBuf =>
      have readable := readable_resetOffset reset
      simp only [orUndefined, Stop.ofOption, wp_ofExcept_ok, wp_set, wp_ite, wp_modify, wp_pure, readable]
      rcases ends with ⟨all, left⟩ | ⟨rest, none⟩
      · rw [if_pos all]
        exact .yet left rfl
      · rw [if_neg rest]
        exact .refused none (same.trans busy)

/-! ## Runs -/

section Due

variable {due failed onWrite : Bool} {sends : List Int}

/-- Is `WRITE` going to be reported after a call: it was, and the call is not it, or the last `send` would have blocked. -/
def dueAfter (due onWrite : Bool) (sends : List Int) (t : ConnState) : Bool :=
  due && !onWrite || t.socket.sends.isEmpty && sends.getLast? = some 0

/-- Has a `send` failed otherwise. -/
def failedAfter (failed : Bool) (sends : List Int) (t : ConnState) : Bool :=
  failed || t.socket.sends.isEmpty && sends.getLast? ≠ some 0

theorem Answers.isEmpty (answers : Answers sends) : sends.isEmpty = false := by
  cases answers <;> rfl

/-- A connection that is busy after a call was so before, or has been refused during it. -/
theorem Asked.waits (asked : Asked (busy && !onWrite) t) (before : failed = false → busy = true → due = true)
    (fine : failedAfter failed sends t = false) (waits : t.conn.busy = true) : dueAfter due onWrite sends t = true := by
  unfold failedAfter at fine
  unfold dueAfter
  cases asked with
  | yet left same =>
    rw [same, Bool.and_eq_true] at waits
    rw [left.isEmpty, Bool.false_and, Bool.or_false] at fine
    rw [before fine waits.1, waits.2]
    rfl
  | refused none _ =>
    simp only [none, List.isEmpty_nil, Bool.true_and, Bool.or_eq_false_iff, decide_eq_false_iff_not, not_not] at fine ⊢
    rw [fine.2]
    simp

/-- If `WRITE` was due for a busy connection only, it is so after the call. -/
theorem Asked.exact (asked : Asked (busy && !onWrite) t) (before : failed = false → due = busy)
    (fine : failedAfter failed sends t = false) : dueAfter due onWrite sends t = t.conn.busy := by
  unfold failedAfter at fine
  unfold dueAfter
  cases asked with
  | yet left same =>
    rw [left.isEmpty, Bool.false_and, Bool.or_false] at fine ⊢
    rw [same, before fine]
  | refused none waits =>
    simp only [none, List.isEmpty_nil, Bool.true_and, Bool.or_eq_false_iff, decide_eq_false_iff_not, not_not] at fine ⊢
    rw [fine.2, waits]
    simp

end Due

/-- A connection with what is to come from its loop. -/
structure Watched where
  conn : ConnState
  account : Account
  due : Bool
  failed : Bool

/-- `WRITE` has been reported. -/
def SendCall.isOnWrite : SendCall → Bool
  | .onWrite => true
  | _ => false

/-- A call, with the results of `send` during it. -/
def Watched.exec (w : Watched) (call : SendCall × List Int) : Option Watched :=
  match call.1.exec.run { w.conn with socket := { w.conn.socket with sends := call.2 } } with
  | .ok _ conn => some {
      conn
      account := (w.account.step call.1).2
      due := dueAfter w.due call.1.isOnWrite call.2 conn
      failed := failedAfter w.failed call.2 conn }
  | .error _ _ => none

/-- The call has room, and the kernel does not take anything after a refusal. -/
def Watched.Meets (w : Watched) (call : SendCall × List Int) : Prop :=
  call.1.Fits { w.conn with socket := { w.conn.socket with sends := call.2 } } ∧ Answers call.2

/-- A call that does not begin with `WRITE` makes the connection busy exactly if it is refused. -/
theorem SendCall.exec_asked (call : SendCall) (left : Answers s.socket.sends) :
    wp call.exec (fun _ => Asked (s.conn.busy && !call.isOnWrite)) (fun _ _ => True) s := by
  have asked : Asked s.conn.busy s := .yet left rfl
  have returns {α : Type} {x : ConnM α} {b : Bool} (keeps : wp x (fun _ => Asked b) (fun e t => e ≠ .undefined → Asked b t) s) :
      wp x (fun _ => Asked b) (fun _ _ => True) s := keeps.mono (fun _ _ kept => kept) fun _ _ _ => trivial
  cases call with
  | send data =>
    simp only [exec, isOnWrite, Bool.not_false, Bool.and_true, wp_bind, wp_pure]
    exact returns (send_asked _ _ s asked)
  | sendPkt pkt =>
    simp only [exec, isOnWrite, Bool.not_false, Bool.and_true, wp_bind, wp_pure]
    exact returns (sendPkt_asked _ s asked)
  | addToWaitPktList pkt =>
    simp only [exec, isOnWrite, Bool.not_false, Bool.and_true, BaseConn.addToWaitPktList, wp_bind, wp_modify, wp_pure]
    exact asked.same rfl rfl
  | onConfirm =>
    simp only [exec, isOnWrite, Bool.not_false, Bool.and_true, wp_bind, wp_pure]
    exact returns (onConfirm_asked s asked)
  | onWrite =>
    simp only [exec, isOnWrite, Bool.not_true, Bool.and_false, wp_bind, wp_pure]
    exact returns (onWrite_asked left)

/-- A connection is busy only after a refusal that no `OnWrite` has followed. -/
structure Watched.Inv (due : Bool) (w : Watched) : Prop where
  flow : Flow w.conn w.account
  waits : w.failed = false → w.conn.conn.busy = true → w.due = true
  exact : due = false → w.failed = false → w.due = w.conn.conn.busy

theorem Watched.Inv.exec {due : Bool} {w : Watched} {call : SendCall × List Int} (inv : w.Inv due) (meets : w.Meets call) :
    ∃ w', w.exec call = some w' ∧ w'.Inv due := by
  obtain ⟨call, sends⟩ := call
  obtain ⟨fits, answers⟩ := meets
  obtain ⟨flow, waits, exact⟩ := inv
  dsimp only at fits answers
  have ran := (call.exec_wp (flow.sends sends) fits).and
    (call.exec_asked (s := { w.conn with socket := { w.conn.socket with sends } }) answers)
  have returns := ran.mono (fun _ _ post => post) fun _ _ impossible => impossible.1
  obtain ⟨r, t, run, ⟨-, flow'⟩, asked⟩ := wp_never.mp returns
  exact ⟨_, by rw [Watched.exec, run], flow', asked.waits waits, fun none => asked.exact (exact none)⟩

/-- **A backlog always waits for `WRITE`.** Whatever a connection sends and whatever the kernel takes, unless a `send` has
failed, a connection that is busy is going to be told that it can write; when it is not, the kernel has all that was
accepted. With `EVFILT_WRITE`, which nothing but a refusal registers, it is told only then. -/
theorem write_due (s : ConnState) (idle : Idle s) (due : Bool) (calls : List (SendCall × List Int))
    (meets : AlongPartial Watched.exec Watched.Meets ⟨s, .start s, due, false⟩ calls) :
    ∃ w, runPartial Watched.exec ⟨s, .start s, due, false⟩ calls = some w ∧ (w.failed = false →
      (w.conn.conn.busy = true → w.due = true) ∧ (w.due = false → w.conn.socket.sent = w.account.accepted) ∧
      (due = false → w.due = w.conn.conn.busy)) := by
  have starts : Watched.Inv due ⟨s, .start s, due, false⟩ := by
    refine ⟨idle.flow, fun _ busy => ?_, fun none _ => none.trans idle.idle.symm⟩
    rw [idle.idle] at busy
    cases busy
  obtain ⟨w, ran, inv⟩ := runPartial_along (fun w call inv meets => Watched.Inv.exec inv meets) starts meets
  refine ⟨w, ran, fun fine => ⟨inv.waits fine, fun none => ?_, fun start => inv.exact start fine⟩⟩
  have notBusy : w.conn.conn.busy = false := by
    by_contra busy
    rw [inv.waits fine (by simpa using busy)] at none
    cases none
  have stream := inv.flow.stream
  rwa [inv.flow.idle notBusy, List.append_nil] at stream

/-- The kernel takes two of three bytes, and the third when it is asked again. -/
theorem write_due_partial : ∃ w, runPartial Watched.exec
      ⟨⟨{ BaseConn.init with handle := 1, isOpen := true }, ⟨.connected, [], false, [], [], true⟩, []⟩, ⟨1, true, [], []⟩,
        false, false⟩ [(.send [1, 2, 3], [2, 0]), (.onWrite, [1, 0])] = some w ∧
    (w.failed = false → w.due = w.conn.conn.busy) := by
  have refuses : Answers [0] := .refuses (Int.le_refl 0)
  obtain ⟨w, ran, post⟩ := write_due
    ⟨{ BaseConn.init with handle := 1, isOpen := true }, ⟨.connected, [], false, [], [], true⟩, []⟩ ⟨rfl, rfl, rfl⟩ false
    [(.send [1, 2, 3], [2, 0]), (.onWrite, [1, 0])]
    ⟨⟨by show 0 + 3 < 2 ^ 31; decide, .takes (by decide) refuses⟩, fun _ _ =>
      ⟨⟨trivial, .takes (by decide) refuses⟩, fun _ _ => trivial⟩⟩
  exact ⟨w, ran, fun fine => (post fine).2.2 rfl⟩

end Netter.BaseConn
