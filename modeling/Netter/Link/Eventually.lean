import Netter.Lib.Eventually
import Netter.Link.Settled

/-!
# Every packet is handled in the end

An endless run in which the kernels fail at nothing and the loops get what there is for them: bytes in flight are
received sometime, and `WRITE` is reported sometime if it is due, when the kernel takes something. A packet that is handed
over is then handled at the other side, and the heartbeats of the test programs go back and forth for ever.
-/

namespace Netter

open Lib PktBase BaseConn

namespace BaseConn

variable {s t : ConnState} {fuel : Nat}

/-- The kernel takes a part of the backlog. -/
theorem drainLoop_gives (wf : s.conn.outBuf.WF) (small : s.conn.outBuf.content.length < 2 ^ 31)
    (backlog : s.conn.outBuf.content ≠ []) (takes : 0 < s.socket.sends.headD 0) :
    wp (drainLoop (fuel + 1)) (fun _ t => s.socket.sent.length < t.socket.sent.length) (fun _ _ => True) s := by
  have readable := wf.toNat_getReadableLen
  have length := List.length_pos_iff.mpr backlog
  obtain ⟨len, clamp, pos, short⟩ := clampSend_spec length
  have some := (readable_pos wf).mpr backlog
  have size := wf.length_content
  have inside := wf.write_le
  have there : len ≤ (s.conn.outBuf.buffer.cells.drop s.conn.outBuf.readOffset.toNat).length := by
    rw [List.length_drop, s.conn.outBuf.buffer.size]
    omega
  rw [drainLoop]
  simp only [wp_bind, wp_get]
  rw [if_pos some, toInt_toInt32 (by omega), readable, clamp, wp_bind]
  refine ((socketSend_wp there).and (socketSend_asks _ _ s)).mono ?_ fun _ _ _ => trivial
  rintro ret t ⟨⟨most, conn, trace, sent⟩, -, -, is⟩
  have grown : s.socket.sent.length < t.socket.sent.length := by
    rw [sent, List.length_append, List.length_take]
    omega
  rw [if_neg (by omega), wp_bind, wp_modify]
  refine (sending_drainLoop fuel _ (Sending.refl _)).mono (fun _ u sending => ?_) fun _ _ _ => trivial
  exact Nat.lt_of_lt_of_le grown sending.sent.length_le

theorem onWrite_gives (sender : Sender s) (backlog : s.conn.outBuf.content ≠ []) (takes : 0 < s.socket.sends.headD 0) :
    wp onWrite (fun _ t => s.socket.sent.length < t.socket.sent.length) (fun _ _ => True) s := by
  have busy := sender.flow.busy.mpr ((readable_pos sender.flow.wf).mpr backlog)
  simp only [onWrite, wp_bind, wp_get]
  rw [if_neg (not_not.mpr busy), wp_bind, wp_get, wp_bind]
  refine (drainLoop_gives sender.flow.wf sender.flow.small backlog takes).mono (fun _ t grown => ?_) fun _ _ _ => trivial
  simp only [wp_bind, wp_get]
  cases t.conn.outBuf.resetOffset with
  | none => exact trivial
  | some outBuf =>
    simp only [orUndefined, Stop.ofOption, wp_ofExcept_ok, wp_set, wp_ite, wp_modify, wp_pure]
    split <;> exact grown

end BaseConn

namespace Watching

/-- The loop of a side receives something that is in flight. -/
def Receives (side : Side) (l : Link) : LinkStep → Prop
  | .readable k recvs _ => k = side ∧ chunkBytes recvs ≠ [] ∧ chunkBytes recvs <+: l.inFlight side
  | _ => False

/-- `WRITE` is reported to a side, and the kernel takes something. -/
def Writes (side : Side) : LinkStep → Prop
  | .writable k sends => k = side ∧ 0 < sends.headD 0
  | _ => False

/-- What is in flight is received sometime, and `WRITE` is reported sometime when it is due. -/
structure Fair (steps : Nat → LinkStep) (trace : Nat → Watching) : Prop where
  reads : ∀ side, WeakFair (fun n => (trace n).link.inFlight side ≠ []) fun n => Receives side (trace n).link (steps n)
  writes : ∀ side, WeakFair (fun n => (trace n).due side = true) fun n => Writes side (steps n)

variable {reply : Side → Received → List HeapPkt} {w w' : Watching} {step : LinkStep} {side : Side}

/-- A step is one of the two links. -/
theorem link_of_exec (possible : Possible w.link step) (ran : w.exec reply step = some w') :
    w.link.exec reply step = some w'.link := by
  unfold exec at ran
  rw [if_pos possible] at ran
  obtain ⟨l, ran', rfl⟩ := Option.map_eq_some_iff.mp ran
  exact ran'

theorem taken_of_receives (receives : Receives side w.link step) (ran : w.exec reply step = some w') :
    w.link.taken side < w'.link.taken side := by
  cases step with
  | post => exact receives.elim
  | writable => exact receives.elim
  | readable k recvs sends =>
    obtain ⟨rfl, some, flying⟩ := receives
    have possible : Possible w.link (.readable k recvs sends) := flying
    have ran' := link_of_exec possible ran
    rw [Link.exec, if_pos flying] at ran'
    obtain ⟨t, -, is⟩ := Option.map_eq_some_iff.mp ran'
    rw [← is, Link.update_taken, if_pos rfl]
    exact Nat.lt_add_of_pos_right (List.length_pos_iff.mpr some)

/-- `WRITE` confirms a side that waits, or moves its backlog. -/
theorem sent_of_writes (inv : w.Inv) (answers : Answers step.sends) (writes : Writes side step)
    (ran : w.exec reply step = some w') :
    (w'.link.conn side).socket.state = .connected ∧
      ((w.link.conn side).socket.state = .connected → (w.link.conn side).conn.outBuf.content ≠ [] →
        (w.link.conn side).socket.sent.length < (w'.link.conn side).socket.sent.length) := by
  cases step with
  | post => exact writes.elim
  | readable => exact writes.elim
  | writable k sends =>
    obtain ⟨rfl, takes⟩ := writes
    have possible : Possible w.link (.writable k sends) := trivial
    have ran' := link_of_exec possible ran
    refine ⟨(exec_asked inv.link answers possible ran').2.1 rfl, fun connected backlog => ?_⟩
    obtain ⟨t, called, is⟩ := Option.map_eq_some_iff.mp ran'
    rw [← is, Link.update_conn, if_pos rfl]
    have sender := ((inv.link k).asked [] sends).1
    refine call_post (P := fun t => _ < t.socket.sent.length) called ?_
    simp only [socketOnWrite, wp_bind, wp_get]
    rw [show (w.link.asked k [] sends).socket.state = .connected from connected]
    exact onWrite_gives sender backlog takes

/-- An endless run in which no `send` fails. -/
structure Runs (reply : Side → Received → List HeapPkt) (steps : Nat → LinkStep) (trace : Nat → Watching) : Prop where
  ran : Trace (fun w step => w.exec reply step) steps trace
  framed : ∀ side got, ∀ pkt ∈ reply side got, pkt.Framed
  starts : ∃ handle epoll, (∀ side, handle side ≠ invalidHandle) ∧ trace 0 = start handle epoll
  meets : ∀ n, (trace n).Meets reply (steps n)
  fine : ∀ n side, (trace n).failed side = false

namespace Runs

variable {steps : Nat → LinkStep} {trace : Nat → Watching} {n m : Nat} (runs : Runs reply steps trace)
include runs

theorem inv (n : Nat) : (trace n).Inv := by
  induction n with
  | zero =>
    obtain ⟨handle, epoll, registered, starts⟩ := runs.starts
    rw [starts]
    exact Inv.start registered epoll
  | succ n ih =>
    obtain ⟨w, -, -, ran, inv, -⟩ := ih.exec runs.framed (runs.meets n)
    obtain rfl : trace (n + 1) = w := Option.some_inj.mp ((runs.ran n).symm.trans ran)
    exact inv

theorem effects (n : Nat) :
    ∃ pkts news, Link.Effect (trace n).link (trace (n + 1)).link (steps n).side pkts news := by
  obtain ⟨w, pkts, news, ran, -, effect⟩ := (runs.inv n).exec runs.framed (runs.meets n)
  obtain rfl : trace (n + 1) = w := Option.some_inj.mp ((runs.ran n).symm.trans ran)
  exact ⟨pkts, news, effect⟩

theorem taken_mono (side : Side) (later : n ≤ m) : (trace n).link.taken side ≤ (trace m).link.taken side := by
  refine monotone_nat_of_le_succ (f := fun n => (trace n).link.taken side) (fun n => ?_) later
  obtain ⟨_, _, effect⟩ := runs.effects n
  exact effect.taken side

theorem sent_mono (side : Side) (later : n ≤ m) :
    ((trace n).link.conn side).socket.sent.length ≤ ((trace m).link.conn side).socket.sent.length := by
  refine monotone_nat_of_le_succ (f := fun n => ((trace n).link.conn side).socket.sent.length) (fun n => ?_) later
  obtain ⟨_, _, effect⟩ := runs.effects n
  exact (effect.sent side).length_le

theorem handed_prefix (side : Side) (later : n ≤ m) : (trace n).link.handed side <+: (trace m).link.handed side := by
  induction later with
  | refl => exact List.prefix_rfl
  | @step m _ ih =>
    obtain ⟨pkts, _, effect⟩ := runs.effects m
    refine ih.trans ?_
    rw [effect.handed side]
    split
    · exact List.prefix_append _ _
    · exact List.prefix_rfl

/-- What has been handed to a side before is owed from then on. -/
theorem owed_le (side : Side) (later : n ≤ m) :
    (encode ((trace n).link.handed side)).length ≤ (owed ((trace m).link.conn side)).length := by
  obtain ⟨more, all⟩ := runs.handed_prefix side later
  rw [((runs.inv m).link side).owed, ← all, encode_append, List.length_append]
  exact Nat.le_add_right _ _

/-- A side that is confirmed stays so. -/
theorem connecting_before (side : Side) (later : n ≤ m)
    (connecting : ((trace m).link.conn side).socket.state = .connecting) :
    ((trace n).link.conn side).socket.state = .connecting := by
  induction later with
  | refl => exact connecting
  | @step m _ ih =>
    obtain ⟨_, _, effect⟩ := runs.effects m
    exact ih (((runs.inv m).link side).sender.phase.connecting ((runs.inv (m + 1)).link side).sender.phase
      (effect.opened side) connecting)

/-- What is left to do until a side has received so many bytes. -/
def left (trace : Nat → Watching) (side : Side) (bytes n : Nat) : Nat :=
  (bytes - (trace n).link.taken side) + (bytes - ((trace n).link.conn side.other).socket.sent.length) +
    if ((trace n).link.conn side.other).socket.state = .connecting then 1 else 0

/-- More has been received, sent or confirmed, and less is left to do. -/
theorem left_lt {side : Side} {bytes : Nat} (later : n ≤ m) (missing : (trace n).link.taken side < bytes)
    (moved : (trace n).link.taken side < (trace m).link.taken side ∨
      ((trace n).link.conn side.other).socket.sent.length < bytes ∧
        (((trace n).link.conn side.other).socket.sent.length < ((trace m).link.conn side.other).socket.sent.length ∨
          ((trace n).link.conn side.other).socket.state = .connecting ∧
            ((trace m).link.conn side.other).socket.state = .connected)) :
    left trace side bytes m < left trace side bytes n := by
  have taken := runs.taken_mono side later
  have sent := runs.sent_mono side.other later
  have before := runs.connecting_before side.other later
  unfold left
  rcases moved with received | ⟨unsent, more | ⟨waited, confirmed⟩⟩
  · split
    · rename_i connecting
      rw [if_pos (before connecting)]
      omega
    · omega
  · split
    · rename_i connecting
      rw [if_pos (before connecting)]
      omega
    · omega
  · rw [if_pos waited, if_neg (by rw [confirmed]; nofun)]
    omega

/-- Nothing of a side is in flight, and it owes something: sooner or later it is confirmed or sends. -/
theorem left_of_unsent (fair : Fair steps trace) {side : Side} {bytes : Nat}
    (owes : ∀ k, n ≤ k → bytes ≤ (owed ((trace k).link.conn side.other)).length)
    (missing : (trace n).link.taken side < bytes)
    (unsent : ((trace n).link.conn side.other).socket.sent.length < bytes) :
    Later (fun m => left trace side bytes m < left trace side bytes n) n := by
  obtain ⟨m, later, writes⟩ := fair.writes side.other n
  have inv := runs.inv m
  have grown := runs.sent_mono side.other later
  have all := owes m later
  rw [owed, List.length_append, List.length_append] at all
  by_cases due : (trace m).due side.other = true
  · obtain ⟨confirmed, more⟩ := sent_of_writes inv (runs.meets m).2 (writes due) (runs.ran m)
    have grown' := runs.sent_mono side.other (Nat.le_add_right m 1)
    refine ⟨m + 1, by omega, runs.left_lt (by omega) missing (.inr ⟨unsent, ?_⟩)⟩
    cases (inv.link side.other).sender.phase with
    | waiting state _ _ => exact .inr ⟨runs.connecting_before _ later state, confirmed⟩
    | running state _ none =>
      left
      by_cases backlog : ((trace m).link.conn side.other).conn.outBuf.content = []
      · rw [none, backlog, encode_nil, List.length_nil] at all
        omega
      · have moved := more state backlog
        omega
  · obtain ⟨backlog, none⟩ := inv.sentAll (runs.fine m side.other) (by simpa using due)
    rw [none, backlog, encode_nil, List.length_nil] at all
    exact ⟨m, later, runs.left_lt later missing (.inr ⟨unsent, .inl (by omega)⟩)⟩

/-- What is in flight is received. -/
theorem left_of_flying (fair : Fair steps trace) {side : Side} {bytes : Nat}
    (missing : (trace n).link.taken side < bytes)
    (flying : (trace n).link.taken side < ((trace n).link.conn side.other).socket.sent.length) :
    Later (fun m => left trace side bytes m < left trace side bytes n) n := by
  obtain ⟨m, later, reads⟩ := fair.reads side n
  have taken := runs.taken_mono side later
  have sent := runs.sent_mono side.other later
  by_cases some : (trace m).link.inFlight side = []
  · rw [Link.inFlight, List.drop_eq_nil_iff] at some
    exact ⟨m, later, runs.left_lt later missing (.inl (by omega))⟩
  · have more := taken_of_receives (reads some) (runs.ran m)
    exact ⟨m + 1, by omega, runs.left_lt (by omega) missing (.inl (by omega))⟩

/-- All that was handed over is received. -/
theorem eventually_taken (fair : Fair steps trace) (side : Side) (n : Nat) :
    Later (fun m => (encode ((trace n).link.handed side.other)).length ≤ (trace m).link.taken side) n := by
  refine later_of_decreasing (left trace side (encode ((trace n).link.handed side.other)).length) ?_
  intro m start missing
  rw [not_le] at missing
  have owes (k : Nat) (later : m ≤ k) := runs.owed_le side.other (Nat.le_trans start later)
  by_cases flying : (trace m).link.taken side < ((trace m).link.conn side.other).socket.sent.length
  · exact (runs.left_of_flying fair missing flying).mono fun _ _ less => .inr less
  · exact (runs.left_of_unsent fair owes missing (by omega)).mono fun _ _ less => .inr less

/-- What is handed over at one side is handled at the other. -/
theorem later_handled (fair : Fair steps trace) (side : Side) (n : Nat) :
    Later (fun m => ((trace n).link.handed side.other).map HeapPkt.received <+: packets ((trace m).link.conn side).trace) n := by
  refine (runs.eventually_taken fair side n).mono fun m later received => ?_
  obtain ⟨rest, -, frames⟩ := ((runs.inv m).link side).reading
  have inside := ((runs.inv m).link side).taken
  have owner := (runs.inv m).link side.other
  have front : encode ((trace n).link.handed side.other) <+:
      ((trace m).link.conn side.other).socket.sent.take ((trace m).link.taken side) := by
    have whole : encode ((trace n).link.handed side.other) <+: encode ((trace m).link.handed side.other) := by
      obtain ⟨more, all⟩ := runs.handed_prefix side.other later
      rw [← all, encode_append]
      exact List.prefix_append _ _
    have arrived := (List.take_prefix ((trace m).link.taken side) _).trans owner.sent_front
    apply List.prefix_of_prefix_length_le whole arrived
    rw [List.length_take, Nat.min_eq_left inside]
    exact received
  obtain ⟨tail, whole⟩ := front
  rw [← whole] at frames
  obtain ⟨news, all, -⟩ := (frames_encode ((runs.inv n).link side.other).framed).split frames
  rw [all]
  exact List.prefix_append _ _

end Runs

/-- **Every packet is handled in the end.** In every endless run in which no `send` fails and the loops get what there is
for them, the packet that was handed over at one side as its `i`-th is sooner or later the `i`-th that the other side has
handled. -/
theorem eventually_handled {steps : Nat → LinkStep} {trace : Nat → Watching} (runs : Runs reply steps trace)
    (fair : Fair steps trace) (side : Side) (n i : Nat) (pkt : HeapPkt)
    (handed : ((trace n).link.handed side.other)[i]? = some pkt) :
    Later (fun m => (packets ((trace m).link.conn side).trace)[i]? = some pkt.received) n := by
  refine (runs.later_handled fair side n).mono fun m _ handled => ?_
  obtain ⟨more, all⟩ := handled
  obtain ⟨inside, -⟩ := List.getElem?_eq_some_iff.mp handed
  rw [← all, List.getElem?_append_left (by rw [List.length_map]; exact inside), List.getElem?_map, handed]
  rfl

end Watching

end Netter
