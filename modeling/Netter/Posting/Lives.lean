import Netter.Loop.Stages
import Netter.Posting.Kept

/-!
# The loop behind the packets

The model of `SendPkt` by handle leaves out sockets and events: its connections are registered, confirmed, closed and
destroyed when a step says so. Here these steps are what the event loop does. Each step of the loop is a few steps about the
connections of the handles that it touches, with any calls of other threads and any turns of packets between them; so what is
promised about packets holds for the connections of the loop.
-/

namespace Netter.Posting

open Lib

def Life.stage : Life → ConnStage
  | .absent => .absent
  | .registered conn => .ofOpen conn.isOpen
  | .closed _ => .closed
  | .destroyed => .destroyed

/-- The steps that take the connection of `h` from one stage to a later one. -/
def lifeSteps (h : NetHandle) : ConnStage → ConnStage → List Step
  | .absent, .connecting => [.register h false]
  | .absent, .opened => [.register h true]
  | .absent, .closed => [.register h false, .close h]
  | .absent, .destroyed => [.register h false, .close h, .destroy h]
  | .connecting, .opened => [.onConfirm h]
  | .connecting, .closed | .opened, .closed => [.close h]
  | .connecting, .destroyed | .opened, .destroyed => [.close h, .destroy h]
  | .closed, .destroyed => [.destroy h]
  | _, _ => []

/-- A call of `SendPkt`, or what the loop does with the packets. -/
def Step.isPacket : Step → Bool
  | .sendPkt _ _ | .swap | .processNext => true
  | _ => false

theorem lifeSteps_quiet (h : NetHandle) (stage later : ConnStage) : (lifeSteps h stage later).filter Step.isPacket = [] := by
  cases stage <;> cases later <;> rfl

/-- The connection of `h` has come to the stage, and those of the other handles are as they were. -/
structure Lived (s : State) (h : NetHandle) (stage : ConnStage) (t : State) : Prop where
  inv : Inv t
  here : (t.conns h).stage = stage
  others : ∀ k, k ≠ h → t.conns k = s.conns k

variable {s t : State} {h k : NetHandle} {conn : Conn} {stage : ConnStage}

theorem Inv.move (inv : Inv s) (move : Move s t) : Inv t :=
  ⟨inv.owned.move move, inv.lined.move inv.owned move, inv.fate.move move⟩

theorem Lived.setLife {life : Life} {freed : List Pkt} {events : List Event} (inv : Inv s)
    (move : Move s (((s.note events).free freed).setLife h life)) :
    Lived s h life.stage (((s.note events).free freed).setLife h life) := by
  refine ⟨inv.move move, ?_, fun k other => State.setLife_conns_ne _ life other⟩
  rw [State.setLife_conns]

/-! ## One step -/

theorem register_lived (isOpen : Bool) (inv : Inv s) (absent : s.conns h = .absent) :
    wp (Step.register h isOpen).exec (fun _ => Lived s h (.ofOpen isOpen)) Never s := by
  unfold Step.exec
  rw [wp_bind, wp_get]
  simp only [absent]
  have move : Move s (((s.note []).free []).setLife h (.registered ⟨isOpen, []⟩)) := by
    rw [State.note_nil, State.free_nil]
    exact .register h isOpen absent
  have lived := Lived.setLife inv move
  rw [State.note_nil, State.free_nil] at lived
  exact lived

theorem close_lived (inv : Inv s) (registered : s.conns h = .registered conn) :
    wp (Step.close h).exec (fun _ => Lived s h .closed) Never s := by
  unfold Step.exec
  rw [wp_bind, wp_get]
  simp only [registered]
  have move : Move s (((s.note []).free []).setLife h (.closed { conn with isOpen := false })) := by
    rw [State.note_nil, State.free_nil]
    exact .close h conn registered
  have lived := Lived.setLife inv move
  rw [State.note_nil, State.free_nil] at lived
  exact lived

theorem destroy_lived (inv : Inv s) (closed : s.conns h = .closed conn) :
    wp (Step.destroy h).exec (fun _ => Lived s h .destroyed) Never s := by
  unfold Step.exec
  rw [wp_bind, wp_get]
  simp only [closed]
  refine (destroy_run inv.owned.safe closed).call fun _ t is => ?_
  have move : Move s (((s.note []).free conn.waitPktList).setLife h .destroyed) := by
    rw [State.note_nil]
    exact .destroy h conn closed
  have lived := Lived.setLife inv move
  rw [State.note_nil] at lived
  exact is ▸ lived

theorem onConfirm_lived (inv : Inv s) (registered : s.conns h = .registered conn) :
    wp (Step.onConfirm h).exec (fun _ => Lived s h .opened) Never s := by
  unfold Step.exec
  rw [wp_bind, wp_get]
  simp only [registered]
  refine (onConfirm_run inv.owned.safe registered).call fun _ t is => ?_
  rw [is]
  exact Lived.setLife inv (.confirm h conn registered)

/-! ## From one stage to a later one -/

theorem Lived.refl (inv : Inv s) (here : (s.conns h).stage = stage) : Lived s h stage s := ⟨inv, here, fun _ _ => rfl⟩

theorem Lived.trans {later : ConnStage} {u : State} (first : Lived s h stage t) (next : Lived t h later u) : Lived s h later u :=
  ⟨next.inv, next.here, fun k other => (next.others k other).trans (first.others k other)⟩

theorem Life.closed_of_stage {life : Life} (is : life.stage = .closed) : ∃ conn, life = .closed conn := by
  cases life with
  | closed conn => exact ⟨conn, rfl⟩
  | absent => cases is
  | destroyed => cases is
  | registered conn =>
    rw [stage] at is
    cases open_ : conn.isOpen <;> rw [open_] at is <;> cases is

theorem Life.registered_of_stage {life : Life} {isOpen : Bool} (is : life.stage = .ofOpen isOpen) :
    ∃ conn, life = .registered conn := by
  cases life with
  | registered conn => exact ⟨conn, rfl⟩
  | absent => cases isOpen <;> cases is
  | destroyed => cases isOpen <;> cases is
  | closed => cases isOpen <;> cases is

theorem run_lived {step : Step} {steps : List Step} {later : ConnStage} (first : wp step.exec (fun _ => Lived s h stage) Never s)
    (rest : ∀ t, Lived s h stage t → wp (run steps) (fun _ => Lived t h later) Never t) :
    wp (run (step :: steps)) (fun _ => Lived s h later) Never s := by
  rw [run, wp_forM_cons]
  refine first.call fun _ t lived => ?_
  exact (rest t lived).call fun _ _ next => lived.trans next

theorem run_destroy (inv : Inv s) (closed : (s.conns h).stage = .closed) :
    wp (run [.destroy h]) (fun _ => Lived s h .destroyed) Never s := by
  obtain ⟨conn, is⟩ := Life.closed_of_stage closed
  exact run_lived (destroy_lived inv is) fun _ lived => .refl lived.inv lived.here

theorem run_close {isOpen : Bool} (inv : Inv s) (registered : (s.conns h).stage = .ofOpen isOpen) :
    wp (run [.close h]) (fun _ => Lived s h .closed) Never s ∧
      wp (run [.close h, .destroy h]) (fun _ => Lived s h .destroyed) Never s := by
  obtain ⟨conn, is⟩ := Life.registered_of_stage registered
  constructor
  · exact run_lived (close_lived inv is) fun _ lived => .refl lived.inv lived.here
  · exact run_lived (close_lived inv is) fun _ lived => run_destroy lived.inv lived.here

/-- **One connection** goes on to any later stage. -/
theorem lifeSteps_lived (inv : Inv s) (later : (s.conns h).stage ≤ stage) :
    wp (run (lifeSteps h (s.conns h).stage stage)) (fun _ => Lived s h stage) Never s := by
  cases life : s.conns h with
  | absent =>
    have registers (isOpen : Bool) := register_lived isOpen inv life
    cases stage with
    | absent => exact .refl inv (congrArg Life.stage life)
    | connecting => exact run_lived (registers false) fun _ lived => .refl lived.inv lived.here
    | opened => exact run_lived (registers true) fun _ lived => .refl lived.inv lived.here
    | closed => exact run_lived (registers false) fun _ lived => (run_close lived.inv lived.here).1
    | destroyed => exact run_lived (registers false) fun _ lived => (run_close lived.inv lived.here).2
  | registered conn =>
    obtain ⟨isOpen, waits⟩ := conn
    have here : (s.conns h).stage = .ofOpen isOpen := congrArg Life.stage life
    rw [here] at later
    cases isOpen with
    | true =>
      cases stage with
      | absent => exact absurd later (by decide)
      | connecting => exact absurd later (by decide)
      | opened => exact .refl inv here
      | closed => exact (run_close inv here).1
      | destroyed => exact (run_close inv here).2
    | false =>
      cases stage with
      | absent => exact absurd later (by decide)
      | connecting => exact .refl inv here
      | opened => exact run_lived (onConfirm_lived inv life) fun _ lived => .refl lived.inv lived.here
      | closed => exact (run_close inv here).1
      | destroyed => exact (run_close inv here).2
  | closed conn =>
    have here : (s.conns h).stage = .closed := congrArg Life.stage life
    rw [here] at later
    cases stage with
    | absent => exact absurd later (by decide)
    | connecting => exact absurd later (by decide)
    | opened => exact absurd later (by decide)
    | closed => exact .refl inv here
    | destroyed => exact run_destroy inv here
  | destroyed =>
    have here : (s.conns h).stage = .destroyed := congrArg Life.stage life
    rw [here] at later
    cases stage with
    | destroyed => exact .refl inv here
    | absent => exact absurd later (by decide)
    | connecting => exact absurd later (by decide)
    | opened => exact absurd later (by decide)
    | closed => exact absurd later (by decide)

/-! ## All connections -/

theorem run_append (first rest : List Step) : run (first ++ rest) = (run first >>= fun _ => run rest) := List.forM_append

/-- Finitely many connections go on. -/
theorem exists_lifeSteps (touched : List NetHandle) (target : NetHandle → ConnStage) (inv : Inv s)
    (later : ∀ k, (s.conns k).stage ≤ target k) (few : ∀ k, k ∉ touched → (s.conns k).stage = target k) :
    ∃ steps, steps.filter Step.isPacket = [] ∧
      wp (run steps) (fun _ t => Inv t ∧ ∀ k, (t.conns k).stage = target k) Never s := by
  induction touched generalizing s with
  | nil => exact ⟨[], rfl, inv, fun k => few k List.not_mem_nil⟩
  | cons h touched ih =>
    have first := lifeSteps_lived inv (later h)
    obtain ⟨⟨⟩, t, ran, lived⟩ := wp_never.mp first
    have stage (k : NetHandle) : (t.conns k).stage = if k = h then target h else (s.conns k).stage := by
      split
      · next at_h => rw [at_h, lived.here]
      · next other => rw [lived.others k other]
    obtain ⟨rest, quiet, runs⟩ := ih lived.inv
      (fun k => by
        rw [stage]
        split
        · next at_h => exact at_h ▸ (target h).le_refl
        · exact later k)
      (fun k untouched => by
        rw [stage]
        split
        · next at_h => rw [at_h]
        · next other => exact few k (List.not_mem_cons_of_ne_of_not_mem other untouched))
    refine ⟨lifeSteps h (s.conns h).stage (target h) ++ rest, ?_, ?_⟩
    · rw [List.filter_append, lifeSteps_quiet, quiet, List.append_nil]
    · rw [run_append, wp_bind]
      unfold wp
      rw [ran]
      exact runs

/-- The packets do not take a connection anywhere. -/
theorem Processed.same_stage {pkt : Pkt} (processed : Processed s pkt t) (k : NetHandle) :
    (t.conns k).stage = (s.conns k).stage := by
  cases processed with
  | submitted => rfl
  | dropped => rfl
  | waits conn registered connecting =>
    by_cases at_h : k = pkt.handle
    · rw [at_h, State.setLife_conns, registered, Life.stage, Life.stage, connecting]
    · rw [State.setLife_conns_ne _ _ at_h]
      rfl

theorem packet_stage {step : Step} (inv : Inv s) (packet : step.isPacket = true) :
    wp step.exec (fun _ t => ∀ k, (t.conns k).stage = (s.conns k).stage) Never s := by
  have safe := inv.owned.safe
  cases step with
  | sendPkt thread h =>
    have sends : wp (sendPkt thread h) (fun _ t => ∀ k, (t.conns k).stage = (s.conns k).stage) Never s := by
      unfold sendPkt record
      rw [wp_bind, wp_get, wp_bind, wp_modify, wp_bind, wp_modify]
      cases thread with
      | other number => exact fun _ => rfl
      | loop =>
        have live : (⟨s.next, h, .loop⟩ : Pkt) ∉ s.freed := fun freed => Nat.lt_irrefl _ (safe.freed _ freed)
        exact (process_spec (s := { s.note [.posted ⟨s.next, h, .loop⟩] with next := s.next + 1 }) live).call
          fun _ t processed => processed.same_stage
    unfold Step.exec
    rw [wp_bind, wp_get]
    cases life : s.conns h with
    | absent => exact fun _ => rfl
    | registered => exact sends
    | closed => exact sends
    | destroyed => exact sends
  | swap =>
    unfold Step.exec
    rw [wp_bind, wp_get, wp_ite]
    split <;> exact fun _ => rfl
  | processNext =>
    unfold Step.exec processNext
    rw [wp_bind, wp_get]
    cases first : s.tmpPktList with
    | nil => exact fun _ => rfl
    | cons pkt rest =>
      have live : pkt ∉ s.freed := safe.tmp pkt (by rw [first]; exact List.mem_cons_self)
      exact (process_spec (s := { s with tmpPktList := rest }) live).call fun _ t processed => processed.same_stage
  | register => cases packet
  | onConfirm => cases packet
  | close => cases packet
  | destroy => cases packet

/-! ## The simulation -/

/-- The connections of the loop are those of the packets. -/
structure Behind (w : Loop.World) (s : State) : Prop where
  loop : Loop.Inv Loop.quiet [] [] w
  packets : Inv s
  same : ∀ h, (s.conns h).stage = (w.slot h).stage

variable {w : Loop.World}

/-- A step of the loop is some steps of its connections. -/
theorem Behind.loopStep (behind : Behind w s) (step : Loop.Step) :
    ∃ w' steps t, step.exec.run w = .ok ⟨⟩ w' ∧ steps.filter Step.isPacket = [] ∧ (run steps).run s = .ok ⟨⟩ t ∧ Behind w' t := by
  obtain ⟨⟨⟩, w', ran, inv⟩ := wp_never.mp (Loop.step_inv step behind.loop)
  obtain ⟨onward, touched, few⟩ := (Loop.step_ahead step).run (.refl w) ran
  obtain ⟨steps, quiet, runs⟩ := exists_lifeSteps touched (fun k => (w'.slot k).stage) behind.packets
    (fun k => behind.same k ▸ onward k) fun k untouched => (behind.same k).trans (few k untouched).symm
  obtain ⟨⟨⟩, t, ran', packets, same⟩ := wp_never.mp runs
  exact ⟨w', steps, t, ran, quiet, ran', inv, packets, same⟩

theorem Behind.packetStep (behind : Behind w s) {step : Step} (packet : step.isPacket = true) :
    ∃ t, step.exec.run s = .ok ⟨⟩ t ∧ Behind w t := by
  obtain ⟨⟨⟩, t, ran, same⟩ := wp_never.mp (packet_stage behind.packets packet)
  have move := (step_spec behind.packets.owned.safe step).of_run ran
  exact ⟨t, ran, behind.loop, behind.packets.move move, fun h => (same h).trans (behind.same h)⟩

/-- What happens next: a step of the loop, or something with the packets. -/
inductive Both where
  | loop (step : Loop.Step)
  | packet (step : Step) (packet : step.isPacket = true)

def Both.loopStep : Both → Option Loop.Step
  | .loop step => some step
  | .packet _ _ => none

def Both.packetStep : Both → Option Step
  | .loop _ => none
  | .packet step _ => some step

theorem Behind.run (behind : Behind w s) (all : List Both) : ∃ w' steps t,
    (Loop.runSteps (all.filterMap Both.loopStep)).run w = .ok ⟨⟩ w' ∧
      (Posting.run steps).run s = .ok ⟨⟩ t ∧ steps.filter Step.isPacket = all.filterMap Both.packetStep ∧ Behind w' t := by
  induction all generalizing w s with
  | nil => exact ⟨w, [], s, rfl, rfl, rfl, behind⟩
  | cons both all ih =>
    cases both with
    | loop step =>
      obtain ⟨w', first, t, ran, quiet, ran', next⟩ := behind.loopStep step
      obtain ⟨w'', rest, u, loops, runs, packets, last⟩ := ih next
      refine ⟨w'', first ++ rest, u, ?_, ?_, ?_, last⟩
      · show (step.exec >>= fun _ => Loop.runSteps _).run w = _
        rw [EStateM.run_bind, ran]
        exact loops
      · rw [run_append, EStateM.run_bind, ran']
        exact runs
      · rw [List.filter_append, quiet, packets]
        rfl
    | packet step packet =>
      obtain ⟨t, ran, next⟩ := behind.packetStep packet
      obtain ⟨w'', rest, u, loops, runs, packets, last⟩ := ih next
      refine ⟨w'', step :: rest, u, loops, ?_, ?_, last⟩
      · show (step.exec >>= fun _ => Posting.run rest).run s = _
        rw [EStateM.run_bind, ran]
        exact runs
      · rw [List.filter_cons_of_pos packet, packets]
        rfl

/-- **The loop refines the connections of `SendPkt` by handle.** Whatever the loop does, and whatever the threads send meanwhile,
there is a run of steps about packets and connections with these packets in which every connection is as far as in the loop,
and what is promised about packets is kept. -/
theorem loop_refines (all : List Both) : ∃ w steps s,
    (Loop.runSteps (all.filterMap Both.loopStep)).run Loop.World.init = .ok ⟨⟩ w ∧
      (run steps).run .init = .ok ⟨⟩ s ∧ steps.filter Step.isPacket = all.filterMap Both.packetStep ∧
        (∀ h, (s.conns h).stage = (w.slot h).stage) ∧ Kept s := by
  have behind : Behind Loop.World.init State.init := ⟨Loop.World.init_inv, State.init_inv, fun _ => rfl⟩
  obtain ⟨w, steps, s, loops, runs, packets, last⟩ := behind.run all
  exact ⟨w, steps, s, loops, runs, packets, last.same, last.packets.kept⟩

end Netter.Posting
