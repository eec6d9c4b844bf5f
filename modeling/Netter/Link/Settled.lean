import Netter.Conn.Armed
import Netter.Link.PingPong

/-!
# When nothing moves any more

Two connections with what their loops are still going to be told. A side waits for `WRITE` until it is confirmed and
while its backlog was refused; what is in flight will be reported as `READ`. When neither is left, everything that was
handed over has been handled: no packet can be stuck, and the exchange of the test programs never halts.
-/

namespace Netter

open Lib PktBase BaseConn

namespace BaseConn

variable {busy : Bool} {s t : ConnState}

/-! ## `OnRead` and `BaseSocket::OnWrite` -/

theorem recvData_asked (fuel : Nat) : Throughout (Asked busy) (recvData fuel) := by
  induction fuel with
  | zero => exact fun _ _ no => absurd rfl no
  | succ fuel ih =>
    intro s asked
    simp only [recvData, wp_bind, wp_get, BaseSocket.recv]
    cases s.socket.recvs with
    | nil =>
      rw [wp_set]
      dsimp only
      split
      · exact asked.same rfl rfl
      · exact asked.same rfl rfl
    | cons chunk rest =>
      dsimp only
      cases (makeRoom s.conn.inBuf).fill chunk.bytes with
      | none => exact fun no => absurd rfl no
      | some inBuf => exact ih _ (asked.same rfl rfl)

theorem answer_asked (reply : Received → List HeapPkt) (pkt : PktBase) : Throughout (Asked busy) (answer reply pkt) := by
  intro s asked
  simp only [answer, wp_bind, wp_get]
  cases load (pkt.getBuffer s.conn.inBuf.buffer.cells) 0 pkt.getLength.toNat with
  | none => exact fun no => absurd rfl no
  | some bytes => exact sendWaiting_asked _ _ (asked.same rfl rfl)

theorem sendPktByHandle_asked (pkt : HeapPkt) : Throughout (Asked busy) (sendPktByHandle pkt) := by
  intro s asked
  simp only [sendPktByHandle, wp_bind, wp_get, wp_ite]
  split
  · rw [wp_discard]
    exact sendPkt_asked _ s asked
  · exact asked.same rfl rfl

theorem parseLoopWith_asked {handlePkt : PktBase → ConnM Unit} (handle : ∀ pkt, Throughout (Asked busy) (handlePkt pkt))
    (fuel : Nat) : Throughout (Asked busy) (parseLoopWith handlePkt fuel) := by
  induction fuel with
  | zero => exact fun _ _ no => absurd rfl no
  | succ fuel ih =>
    intro s asked
    simp only [parseLoopWith, wp_bind, wp_get]
    cases readPacket s.conn.inBuf.buffer.cells s.conn.inBuf.readOffset s.conn.inBuf.getReadableLen with
    | error e => exact fun _ => asked
    | ok next =>
      cases next with
      | none => exact asked
      | some pkt =>
        rw [wp_ofExcept_ok]
        refine (handle pkt).call asked fun _ t asked => ?_
        simp only [wp_bind, wp_modify, record, wp_get, wp_ite, wp_pure]
        split
        · exact asked.same rfl rfl
        · exact ih _ (asked.same rfl rfl)

theorem onClose_asked : Throughout (Asked busy) onClose := by
  intro s asked
  simp only [onClose, close, wp_bind, wp_get]
  split
  · exact asked
  · exact asked.same rfl rfl

theorem catchPkt_asked (ex : PktException) : Throughout (Asked busy) (catchPkt ex) := by
  intro s asked
  have recorded : Asked busy { s with trace := s.trace ++ [.thrown ex] } := asked.same rfl rfl
  simp only [catchPkt, record, wp_bind, wp_modify]
  split
  · simp only [wp_bind, wp_get, wp_discard]
    cases readPktHeader (s.conn.inBuf.buffer.cells.drop s.conn.inBuf.readOffset.toNat) pktHeaderLen with
    | error e => exact fun _ => recorded
    | ok header => exact onClose_asked _ recorded
  · exact onClose_asked _ recorded

theorem onReadWith_asked {handlePkt : PktBase → ConnM Unit} (handle : ∀ pkt, Throughout (Asked busy) (handlePkt pkt)) :
    Throughout (Asked busy) (onReadWith handlePkt) := by
  intro s asked
  simp only [onReadWith, wp_bind, wp_get]
  refine (recvData_asked _ s asked).mono (fun _ t asked => ?_) fun _ _ kept => kept
  simp only [parsePktWith, wp_tryCatch, wp_bind, wp_get]
  refine (parseLoopWith_asked handle _ t asked).mono (fun _ u asked => ?_) fun e u kept => ?_
  · cases u.conn.inBuf.resetOffset with
    | none => exact fun no => absurd rfl no
    | some inBuf => exact asked.same rfl rfl
  · cases e with
    | throws ex => exact catchPkt_asked ex u (kept (by simp))
    | undefined => exact fun no => absurd rfl no

/-- A side that is not confirmed yet has nothing to send, so it is not busy. -/
theorem Sender.idle (sender : Sender s) (state : s.socket.state = .connecting) : s.conn.busy = false := by
  cases sender.phase with
  | running running => rw [state] at running; cases running
  | waiting _ _ none =>
    by_contra busy
    have backlog := (readable_pos sender.flow.wf).mp (sender.flow.busy.mp (by simpa using busy))
    exact backlog (List.append_eq_nil_iff.mp none).2

/-- A side that waits for its `CONFIRM` has waited before. -/
theorem Phase.connecting (before : Phase s) (after : Phase t) (opened : s.conn.isOpen = true → t.conn.isOpen = true)
    (connecting : t.socket.state = .connecting) : s.socket.state = .connecting := by
  cases before with
  | waiting state _ _ => exact state
  | running _ isOpen _ =>
    cases after with
    | waiting _ shut _ => rw [opened isOpen] at shut; cases shut
    | running running _ _ => rw [connecting] at running; cases running

/-- After `WRITE` a side is confirmed, and busy exactly if it has met a refusal. -/
theorem socketOnWrite_asked (sender : Sender s) (left : Answers s.socket.sends) :
    wp socketOnWrite (fun _ t => Asked false t ∧ t.socket.state = .connected) (fun _ _ => True) s := by
  simp only [socketOnWrite, wp_bind, wp_get]
  cases sender.phase with
  | waiting state shut none =>
    rw [state]
    simp only [wp_bind, wp_modify]
    have asked : Asked false { s with socket := { s.socket with state := .connected } } :=
      .yet left (sender.idle state)
    refine ((onConfirm_asked _ asked).and (sending_onConfirm _ (Sending.refl _))).mono ?_ fun _ _ _ => trivial
    rintro - t ⟨asked, sending⟩
    exact ⟨asked, sending.state⟩
  | running state isOpen none =>
    rw [state]
    refine ((onWrite_asked left).and (sending_onWrite s (Sending.refl s))).mono ?_ fun _ _ _ => trivial
    rintro - t ⟨asked, sending⟩
    exact ⟨asked, sending.state.trans state⟩

end BaseConn

/-! ## The steps of the loops -/

/-- The results of `send` during the step. -/
def LinkStep.sends : LinkStep → List Int
  | .post _ _ sends => sends
  | .readable _ _ sends => sends
  | .writable _ sends => sends

/-- `WRITE` has been reported. -/
def LinkStep.isWritable : LinkStep → Bool
  | .writable _ _ => true
  | _ => false

/-- Two sides, and what their loops are going to be told. -/
structure Watching where
  link : Link
  due : Side → Bool
  failed : Side → Bool

namespace Watching

/-- What is received has to be in flight. -/
def Possible (l : Link) : LinkStep → Prop
  | .readable side recvs _ => chunkBytes recvs <+: l.inFlight side
  | _ => True

instance (l : Link) : (step : LinkStep) → Decidable (Possible l step)
  | .post _ _ _ => .isTrue trivial
  | .readable side recvs _ => inferInstanceAs (Decidable (chunkBytes recvs <+: l.inFlight side))
  | .writable _ _ => .isTrue trivial

variable (reply : Side → Received → List HeapPkt)

def exec (w : Watching) (step : LinkStep) : Option Watching :=
  if Possible w.link step then
    (w.link.exec reply step).map fun link => {
      link
      due k := if k = step.side then dueAfter (w.due k) step.isWritable step.sends (link.conn k) else w.due k
      failed k := if k = step.side then failedAfter (w.failed k) step.sends (link.conn k) else w.failed k }
  else some w

/-- The client's socket is watched for writability, for the `CONFIRM`. An accepted one is, too, in the `epoll` version. -/
def start (handle : Side → NetHandle) (epoll : Bool) : Watching where
  link := Link.start handle
  due
    | .client => true
    | .server => epoll
  failed _ := false

/-- The step has room, and the kernel takes nothing after a refusal. -/
def Meets (w : Watching) (step : LinkStep) : Prop := w.link.Meets reply step ∧ Answers step.sends

/-- A side that has something to send, or that is not confirmed, is going to be told that it can write. -/
structure Inv (w : Watching) : Prop where
  link : w.link.Inv
  waits : ∀ k, w.failed k = false → (w.link.conn k).conn.busy = true → w.due k = true
  confirm : ∀ k, (w.link.conn k).socket.state = .connecting → w.due k = true

variable {reply} {w : Watching} {l l' : Link} {step : LinkStep} {side k : Side}

theorem call_post {recvs : List Chunk} {sends : List Int} {x : ConnM Unit} {t : ConnState} {P : ConnState → Prop}
    (called : l.call side recvs sends x = some t)
    (spec : wp x (fun _ => P) (fun _ _ => True) (l.asked side recvs sends)) : P t := by
  unfold Link.call at called
  split at called
  next run =>
    cases called
    exact spec.of_run run
  next => cases called

/-- The step calls at its side and leaves the other one alone. -/
theorem exec_asked (inv : l.Inv) (answers : Answers step.sends) (possible : Possible l step)
    (ran : l.exec reply step = some l') :
    Asked ((l.conn step.side).conn.busy && !step.isWritable) (l'.conn step.side) ∧
      (step.isWritable = true → (l'.conn step.side).socket.state = .connected) ∧
      ∀ k, k ≠ step.side → l'.conn k = l.conn k := by
  have returns {x : ConnM Unit} {b : Bool} {s : ConnState} (keeps : Throughout (Asked b) x) (asked : Asked b s) :
      wp x (fun _ => Asked b) (fun _ _ => True) s := (keeps s asked).mono (fun _ _ kept => kept) fun _ _ _ => trivial
  cases step with
  | post side pkt sends =>
    obtain ⟨t, called, rfl⟩ := Option.map_eq_some_iff.mp ran
    have asked := call_post called (returns (sendPktByHandle_asked pkt) (.yet answers rfl))
    simp only [LinkStep.side, LinkStep.isWritable, Link.update_conn, if_true, Bool.not_false, Bool.and_true]
    exact ⟨asked, nofun, fun k other => if_neg other⟩
  | readable side recvs sends =>
    rw [Link.exec, if_pos (by exact possible)] at ran
    obtain ⟨t, called, rfl⟩ := Option.map_eq_some_iff.mp ran
    have asked := call_post called (returns (onReadWith_asked (answer_asked (reply side))) (.yet answers rfl))
    simp only [LinkStep.side, LinkStep.isWritable, Link.update_conn, if_true, Bool.not_false, Bool.and_true]
    exact ⟨asked, nofun, fun k other => if_neg other⟩
  | writable side sends =>
    obtain ⟨t, called, rfl⟩ := Option.map_eq_some_iff.mp ran
    have asked := call_post called (socketOnWrite_asked ((inv side).asked [] sends).1 answers)
    simp only [LinkStep.side, LinkStep.isWritable, Link.update_conn, if_true, Bool.not_true, Bool.and_false]
    exact ⟨asked.1, fun _ => asked.2, fun k other => if_neg other⟩

theorem Inv.next {pkts : List HeapPkt} {news : List Received} (inv : w.Inv) (answers : Answers step.sends)
    (ran : w.link.exec reply step = some l') (inv' : l'.Inv) (effect : Link.Effect w.link l' step.side pkts news) :
    ∃ w', w.exec reply step = some w' ∧ w'.Inv ∧ w'.link = l' := by
  unfold exec
  by_cases possible : Possible w.link step
  · rw [if_pos possible, ran]
    obtain ⟨asked, confirmed, others⟩ := exec_asked inv.link answers possible ran
    refine ⟨_, rfl, ⟨inv', fun k => ?_, fun k connecting => ?_⟩, rfl⟩
    · dsimp only
      split
      · rename_i same
        subst same
        exact asked.waits (inv.waits _)
      · rename_i other
        rw [others k other]
        exact inv.waits k
    · dsimp only at connecting ⊢
      split
      · rename_i same
        subst same
        have shut : ¬ step.isWritable = true := by
          intro written
          rw [confirmed written] at connecting
          cases connecting
        have due := inv.confirm _ ((inv.link _).sender.phase.connecting (inv' _).sender.phase (effect.opened _) connecting)
        simp [dueAfter, due, shut]
      · rename_i other
        rw [others k other] at connecting
        exact inv.confirm k connecting
  · rw [if_neg possible]
    refine ⟨w, rfl, inv, ?_⟩
    cases step with
    | readable side recvs sends =>
      rw [Link.exec, if_neg (by exact possible)] at ran
      exact Option.some_inj.mp ran
    | post => exact absurd trivial possible
    | writable => exact absurd trivial possible

theorem Inv.exec (framed : ∀ side got, ∀ pkt ∈ reply side got, pkt.Framed) (inv : w.Inv) (meets : w.Meets reply step) :
    ∃ w' pkts news, w.exec reply step = some w' ∧ w'.Inv ∧ Link.Effect w.link w'.link step.side pkts news := by
  obtain ⟨meets, answers⟩ := meets
  obtain ⟨l', pkts, news, ran, inv', effect⟩ := Link.Inv.exec reply inv.link framed meets
  obtain ⟨w', ran', inv'', rfl⟩ := inv.next answers ran inv' effect
  exact ⟨w', pkts, news, ran', inv'', effect⟩

theorem Inv.start {handle : Side → NetHandle} (registered : ∀ side, handle side ≠ invalidHandle) (epoll : Bool) :
    (start handle epoll).Inv := by
  refine ⟨Link.inv_start registered, fun k _ busy => ?_, fun k connecting => ?_⟩
  · cases k <;> cases busy
  · cases k with
    | client => rfl
    | server => cases connecting

/-- A side that is not going to be told anything has nothing left to send. -/
theorem Inv.sentAll (inv : w.Inv) (fine : w.failed side = false) (none : w.due side = false) :
    (w.link.conn side).conn.outBuf.content = [] ∧ (w.link.conn side).conn.waitPktList = [] := by
  have sender := (inv.link side).sender
  constructor
  · apply sender.flow.idle
    by_contra busy
    rw [inv.waits side fine (by simpa using busy)] at none
    cases none
  · cases sender.phase with
    | running _ _ empty => exact empty
    | waiting state _ _ =>
      rw [inv.confirm side state] at none
      cases none

/-- **Nothing is left lying.** After any run, if a side has not had a failure and is not going to be told that it can write,
and nothing of it is in flight, its peer has handled all the packets that it was handed. -/
theorem settled (framed : ∀ side got, ∀ pkt ∈ reply side got, pkt.Framed) (handle : Side → NetHandle)
    (registered : ∀ side, handle side ≠ invalidHandle) (epoll : Bool) (steps : List LinkStep)
    (meets : AlongPartial (fun w step => w.exec reply step) (fun w step => w.Meets reply step) (start handle epoll) steps) :
    ∃ w, runPartial (fun w step => w.exec reply step) (start handle epoll) steps = some w ∧ ∀ side,
      w.failed side.other = false → w.due side.other = false → w.link.inFlight side = [] →
        packets (w.link.conn side).trace = (w.link.handed side.other).map HeapPkt.received := by
  have keep (w : Watching) (step : LinkStep) (inv : w.Inv) (meets : w.Meets reply step) :
      ∃ w', w.exec reply step = some w' ∧ w'.Inv := by
    obtain ⟨w', -, -, ran, inv', -⟩ := inv.exec framed meets
    exact ⟨w', ran, inv'⟩
  obtain ⟨w, ran, inv⟩ := runPartial_along keep (Inv.start registered epoll) meets
  refine ⟨w, ran, fun side fine none flying => ?_⟩
  obtain ⟨backlog, waiting⟩ := inv.sentAll fine none
  exact (inv.link.delivered side).2 ⟨flying, backlog, waiting⟩

/-! ## A run of the test programs -/

open Link

/-- A step of the exchange of `Netter.Link.PingPong`. -/
theorem Inv.circulates {p : Nat} (inv : w.Inv) (circulates : Circulates w.link p) (allowed : Allowed step)
    (answers : Answers step.sends) (few : 16 * (p + posts [step]) < 2 ^ 31) :
    ∃ w', w.exec heartBeats step = some w' ∧ w'.Inv ∧ Circulates w'.link (p + posts [step]) := by
  obtain ⟨l', ran, circulates'⟩ := circulates.exec allowed few
  obtain ⟨t, pkts, news, ran', inv', effect⟩ :=
    Link.Inv.exec heartBeats inv.link framed_heartBeats (circulates.meets allowed few)
  obtain rfl := Option.some_inj.mp (ran.symm.trans ran')
  obtain ⟨w', ran'', inv'', rfl⟩ := inv.next answers ran inv' effect
  exact ⟨w', ran'', inv'', circulates'⟩

theorem Inv.along {p : Nat} {steps : List LinkStep} (inv : w.Inv) (circulates : Circulates w.link p)
    (allowed : ∀ step ∈ steps, Allowed step ∧ Answers step.sends) (few : 16 * (p + posts steps) < 2 ^ 31) :
    AlongPartial (fun w step => w.exec heartBeats step) (fun w step => w.Meets heartBeats step) w steps := by
  induction steps generalizing w p with
  | nil => trivial
  | cons step steps ih =>
    rw [posts_cons] at few
    obtain ⟨first, answers⟩ := allowed step List.mem_cons_self
    obtain ⟨w', ran, inv', circulates'⟩ := inv.circulates circulates first answers (by omega)
    refine ⟨⟨circulates.meets first (by omega), answers⟩, fun t ran' => ?_⟩
    obtain rfl := Option.some_inj.mp (ran.symm.trans ran')
    exact ih inv' circulates' (fun other member => allowed other (List.mem_cons_of_mem _ member)) (by omega)

/-- A heartbeat that waits for the `CONFIRM` is sent and received in two pieces each. -/
def heartBeatInPieces : List LinkStep :=
  [.post .client heartBeat [0], .writable .client [10, 0], .writable .client [6, 0],
    .readable .server [firstPiece] [0], .readable .server [secondPiece] [16, 0]]

theorem allowed_heartBeatInPieces : ∀ step ∈ heartBeatInPieces, Allowed step ∧ Answers step.sends := by
  have framed : heartBeat.Framed := by decide
  have refuses : Answers [0] := .refuses (Int.le_refl 0)
  have takes {n : Int} (some : 0 < n) : Answers [n, 0] := .takes some refuses
  simp [heartBeatInPieces, Allowed, LinkStep.sends, framed, refuses, takes]

/-- After it no `WRITE` is due at the client, and the server has handled the heartbeat. -/
theorem settled_heartBeatInPieces :
    ∃ w, runPartial (fun w step => w.exec heartBeats step) (start (fun _ => 1) false) heartBeatInPieces = some w ∧
      w.due .client = false ∧ packets (w.link.conn .server).trace = [heartBeat.received] := by
  have registered : ∀ side : Side, (fun _ => 1 : Side → NetHandle) side ≠ invalidHandle := fun _ =>
    show (1 : NetHandle) ≠ invalidHandle by decide
  obtain ⟨w, ran, sides⟩ := settled framed_heartBeats (fun _ => 1) registered false heartBeatInPieces
    ((Inv.start registered false).along (circulates_start registered) allowed_heartBeatInPieces (by decide))
  have ends : (runPartial (fun w step => w.exec heartBeats step) (start (fun _ => 1) false) heartBeatInPieces).map (fun w =>
      (w.failed .client, w.due .client, w.link.inFlight .server, (w.link.handed .client).map HeapPkt.received)) =
      some (false, false, [], [heartBeat.received]) := by
    decide +kernel
  rw [ran, Option.map_some, Option.some_inj, Prod.mk.injEq, Prod.mk.injEq, Prod.mk.injEq] at ends
  obtain ⟨fine, none, flying, handed⟩ := ends
  exact ⟨w, ran, none, (sides .server fine none flying).trans handed⟩

end Watching

end Netter
