import Netter.Loop.Connect.Opening

/-!
# Runs of `Connect`

What holds at each step of thread A, whatever the loop does in between, and what `Connect` promises
because of it. The counterexample at the end breaks the promise: the peer refuses the connection
before thread A has assigned the handle.
-/

namespace Netter.Loop

open Lib

variable {h : NetHandle} {o : Stand} {e f n : Nat} {s : Slot} {w : World}

/-- The connection is still being opened. -/
def Under (h : NetHandle) (handle : Option NetHandle) (mapped inMap : Bool) (w : World) : Prop :=
  ∃ state, Calm state ∧ Opens h ⟨state, handle, mapped, inMap⟩ 0 0 0 w

/-- What holds at each step of thread A. Once the connection is inserted and its socket registered, it is a
connection like any other. -/
def Stage (h : NetHandle) (c : Shared) : Prop :=
  match c.progress with
  | .start => c.queued = false ∧ c.world = World.init
  | .opened => c.queued = false ∧ Under h none false false c.world
  | .posted => Under h none (!c.queued) false c.world
  | .returned => Under h none (!c.queued) false c.world
  | .assigned => Under h (some h) (!c.queued) false c.world
  | .inserted => if c.queued then Under h (some h) false true c.world else Inv quiet [] [⟨h, false⟩] c.world

theorem Under.settle (under : Under h (some h) true true w) : Inv quiet [] [⟨h, false⟩] w := by
  obtain ⟨state, calm, opens⟩ := under
  obtain ⟨isOpen, is⟩ := opens.here.eq
  refine ⟨fun k => ?_, opens.pending, nofun, iff_of_true opens.crossings nofun, ?_, ?_⟩
  · by_cases at_h : k = h
    · rw [at_h, is]
      exact .up 0 0 0 state isOpen (.of_calm calm)
    · exact opens.others k at_h
  · rw [opens.dispatched]
    nofun
  · intro k member
    rw [List.mem_singleton.mp member, is]
    exact ⟨rfl, nofun⟩

theorem Under.call {op : SlotM Unit} {handle handle' : Option NetHandle} {mapped inMap mapped' inMap' : Bool}
    (under : Under h handle mapped inMap w)
    (spec : ∀ state s, Opening ⟨state, handle, mapped, inMap⟩ 0 0 0 s →
      wp op (fun _ t => Opening ⟨state, handle', mapped', inMap'⟩ 0 0 0 t) Never s) :
    wp (atSlot h op) (fun _ => Under h handle' mapped' inMap') Never w := by
  obtain ⟨state, calm, opens⟩ := under
  exact (opens.call (spec state)).call fun _ w opens => ⟨state, calm, opens⟩

theorem addEvent_opening (here : Opening o e f n s) :
    wp addEvent (fun _ t => Opening { o with inSocketMap := true } e f n t) Never s := by
  obtain ⟨isOpen⟩ := here
  exact ⟨isOpen⟩

theorem assignHandle_opening (here : Opening o e f n s) :
    wp (assignHandle h) (fun _ t => Opening { o with handle := some h } e f n t) Never s := by
  obtain ⟨isOpen⟩ := here
  exact ⟨isOpen⟩

theorem insertConn_opening (here : Opening o e f n s) :
    wp insertConn (fun _ t => Opening { o with inConnMap := true } e f n t) Never s := by
  obtain ⟨isOpen⟩ := here
  exact ⟨isOpen⟩

theorem openSocket_under : wp (atSlot h openSocket) (fun _ => Under h none false false) Never World.init := by
  unfold atSlot
  rw [wp_zoom]
  refine ⟨.connecting, .inl rfl, ?_, ?_, rfl, rfl, rfl⟩
  · rw [World.setSlot_slot]
    exact ⟨false⟩
  · intro k other
    rw [World.setSlot_slot_ne _ _ other]
    exact .fresh

variable {c : Shared}

theorem advance_stage (stage : Stage h c) : wp (advance h) (fun _ => Stage h) Never c := by
  obtain ⟨w, progress, queued⟩ := c
  unfold advance
  rw [wp_bind, wp_get]
  cases progress with
  | start =>
    obtain ⟨rfl, rfl⟩ := stage
    unfold inLoop
    rw [wp_bind, wp_zoom]
    exact openSocket_under.call fun _ w under => ⟨rfl, under⟩
  | opened =>
    obtain ⟨rfl, under⟩ := stage
    exact under
  | posted => exact stage
  | returned =>
    unfold inLoop
    rw [wp_bind, wp_zoom]
    exact (Under.call stage fun _ _ => assignHandle_opening).call fun _ w under => under
  | assigned =>
    unfold inLoop
    rw [wp_bind, wp_zoom]
    refine (Under.call stage fun _ _ => insertConn_opening).call fun _ w under => ?_
    cases queued with
    | true => exact under
    | false => exact under.settle
  | inserted => exact stage

theorem register_stage (stage : Stage h c) : wp (registerQueued h) (fun _ => Stage h) Never c := by
  obtain ⟨w, progress, queued⟩ := c
  unfold registerQueued
  rw [wp_bind, wp_get, wp_ite]
  cases queued with
  | false => exact stage
  | true =>
    unfold inLoop
    rw [if_pos rfl, wp_bind, wp_modify, wp_zoom]
    cases progress with
    | start => cases stage.1
    | opened => cases stage.1
    | posted => exact (Under.call stage fun _ _ => addEvent_opening).call fun _ w under => under
    | returned => exact (Under.call stage fun _ _ => addEvent_opening).call fun _ w under => under
    | assigned => exact (Under.call stage fun _ _ => addEvent_opening).call fun _ w under => under
    | inserted => exact (Under.call stage fun _ _ => addEvent_opening).call fun _ w under => under.settle

variable {handle : Option NetHandle} {mapped inMap : Bool}

theorem Under.connecting (under : Under h handle mapped inMap w) :
    ∃ state, Calm state ∧ (w.slot h).connecting = decide (state = .connecting) ∧
      Opens h ⟨state, handle, mapped, inMap⟩ 0 0 0 w := by
  obtain ⟨state, calm, opens⟩ := under
  refine ⟨state, calm, ?_, opens⟩
  unfold Slot.connecting
  rw [opens.socket_live]

theorem Under.dispatch {ready : Ready} (own : ready.own h = true) (noClose : ready.NoClose (w.slot h).connecting)
    (spares : handle = none ∧ ready.OnePkt ∨ handle = some h ∧ ready.NoCall) (under : Under h handle mapped false w) :
    wp (Loop.dispatch ready) (fun _ => Under h handle mapped false) Never w := by
  obtain ⟨state, calm, is, opens⟩ := under.connecting
  rw [is] at noClose
  exact dispatch_opens ⟨own, noClose, spares⟩ calm rfl opens

theorem dispatch_stage {ready : Ready} (meets : (Move.dispatch ready).Meets h c) (stage : Stage h c) :
    wp ((Move.dispatch ready).exec h) (fun _ => Stage h) Never c := by
  obtain ⟨w, progress, queued⟩ := c
  unfold Move.exec
  rw [wp_bind, wp_get, wp_ite]
  split
  · next sent =>
    obtain ⟨own, mapped⟩ := sent
    obtain ⟨early, late⟩ := meets mapped
    unfold inLoop
    rw [wp_zoom]
    cases progress with
    | start =>
      obtain ⟨rfl, rfl⟩ := stage
      cases mapped
    | opened =>
      obtain ⟨noClose, one⟩ := early rfl
      obtain ⟨rfl, under⟩ := stage
      exact (under.dispatch own noClose (.inl ⟨rfl, one⟩)).call fun _ w under => ⟨rfl, under⟩
    | posted =>
      obtain ⟨noClose, one⟩ := early rfl
      exact (Under.dispatch own noClose (.inl ⟨rfl, one⟩) stage).call fun _ w under => under
    | returned =>
      obtain ⟨noClose, one⟩ := early rfl
      exact (Under.dispatch own noClose (.inl ⟨rfl, one⟩) stage).call fun _ w under => under
    | assigned =>
      obtain ⟨noClose, noCall⟩ := late rfl
      exact (Under.dispatch own noClose (.inr ⟨rfl, noCall⟩) stage).call fun _ w under => under
    | inserted =>
      cases queued with
      | true =>
        obtain ⟨state, calm, opens⟩ := stage
        obtain ⟨isOpen, is⟩ := opens.here.eq
        rw [show (Shared.slot ⟨w, .inserted, true⟩ h) = w.slot h from rfl, is] at mapped
        cases mapped
      | false =>
        have inv : Inv quiet [] [⟨h, false⟩] w := stage
        have at_h : ready.handle = h := by
          simp only [Ready.own, Bool.and_eq_true] at own
          exact of_decide_eq_true own.1
        have registered : (w.slot ready.handle).inSocketMap = true := by
          rw [at_h]
          exact mapped
        exact (dispatch_inv ready registered inv).call fun _ w inv => inv
  · exact stage

theorem Under.visit {timedOut : Bool} {closes : Nat} (spares : handle = none ∨ timedOut = false ∧ closes = 0)
    (under : Under h handle mapped false w) :
    wp (Loop.visit ⟨h, timedOut, closes⟩) (fun _ => Under h handle mapped false) Never w := by
  obtain ⟨state, calm, opens⟩ := under
  exact (visit_opens spares calm rfl opens).call fun _ w opens => ⟨state, calm, opens⟩

/-- The timer does not see a socket that is not registered. -/
theorem visit_unmapped {v : Visit} {P : World → Prop} (unmapped : (w.slot v.handle).inSocketMap = false) (post : P w) :
    wp (Loop.visit v) (fun _ => P) Never w := by
  unfold Loop.visit
  rw [wp_bind, wp_get, wp_ite, unmapped, if_neg Bool.false_ne_true]
  exact post

theorem timer_stage {timedOut : Bool} {closes : Nat} (meets : (Move.timer timedOut closes).Meets h c)
    (stage : Stage h c) : wp ((Move.timer timedOut closes).exec h) (fun _ => Stage h) Never c := by
  obtain ⟨w, progress, queued⟩ := c
  unfold Move.exec inLoop
  rw [wp_zoom]
  by_cases mapped : (w.slot h).inSocketMap = true
  · cases progress with
    | start =>
      obtain ⟨rfl, rfl⟩ := stage
      cases mapped
    | opened =>
      obtain ⟨rfl, under⟩ := stage
      exact (under.visit (.inl rfl)).call fun _ w under => ⟨rfl, under⟩
    | posted => exact (Under.visit (.inl rfl) stage).call fun _ w under => under
    | returned => exact (Under.visit (.inl rfl) stage).call fun _ w under => under
    | assigned => exact (Under.visit (.inr (meets mapped rfl)) stage).call fun _ w under => under
    | inserted =>
      cases queued with
      | true =>
        obtain ⟨state, calm, opens⟩ := stage
        obtain ⟨isOpen, is⟩ := opens.here.eq
        rw [is] at mapped
        cases mapped
      | false => exact (visit_inv ⟨h, timedOut, closes⟩ stage).call fun _ w inv => inv
  · exact visit_unmapped (Bool.eq_false_iff.mpr mapped) stage

theorem Under.posted {pkts closes : Nat} (outside : inMap = false ∨ closes = 0)
    (under : Under h handle mapped inMap w) :
    wp (Step.posted (List.replicate pkts h) (List.replicate closes h)).exec
      (fun _ => Under h handle mapped inMap) Never w := by
  obtain ⟨state, calm, opens⟩ := under
  unfold Step.exec
  rw [wp_bind]
  refine wp.call (wp_forM (fun k member _ opens => ?_) opens) fun _ w opens => ?_
  · rw [List.eq_of_mem_replicate member]
    exact sendPosted_opens opens
  · rcases outside with rfl | rfl
    · refine wp.call (wp_forM (fun k member _ opens => ?_) opens) fun _ w opens => ⟨state, calm, opens⟩
      rw [List.eq_of_mem_replicate member]
      exact closeHandle_opens rfl opens
    · exact ⟨state, calm, opens⟩

theorem posted_stage {pkts closes : Nat} (meets : (Move.posted pkts closes).Meets h c) (stage : Stage h c) :
    wp ((Move.posted pkts closes).exec h) (fun _ => Stage h) Never c := by
  obtain ⟨w, progress, queued⟩ := c
  unfold Move.exec inLoop
  rw [wp_zoom]
  cases progress with
  | start =>
    obtain ⟨rfl, rfl⟩ := stage
    unfold Step.exec
    rw [wp_bind]
    refine wp.call (wp_forM (I := (· = World.init)) (fun k _ w is => ?_) rfl) fun _ w is => ?_
    · rw [is]
      rfl
    · refine wp.call (wp_forM (I := (· = World.init)) (fun k _ w is => ?_) is) fun _ w is => ⟨rfl, is⟩
      rw [is]
      rfl
  | opened =>
    obtain ⟨rfl, under⟩ := stage
    exact (under.posted (.inl rfl)).call fun _ w under => ⟨rfl, under⟩
  | posted => exact (Under.posted (.inl rfl) stage).call fun _ w under => under
  | returned => exact (Under.posted (.inl rfl) stage).call fun _ w under => under
  | assigned => exact (Under.posted (.inl rfl) stage).call fun _ w under => under
  | inserted =>
    cases queued with
    | true => exact (Under.posted (.inr (meets rfl rfl)) stage).call fun _ w under => under
    | false => exact (step_inv _ stage).call fun _ w inv => inv

theorem move_stage (move : Move) (meets : move.Meets h c) (stage : Stage h c) :
    wp (move.exec h) (fun _ => Stage h) Never c := by
  cases move with
  | advance => exact advance_stage stage
  | register => exact register_stage stage
  | dispatch ready => exact dispatch_stage meets stage
  | timer timedOut closes => exact timer_stage meets stage
  | posted pkts closes => exact posted_stage meets stage

theorem runMoves_stage (moves : List Move) (meets : RunMeets h moves c) (stage : Stage h c) :
    wp (runMoves h moves) (fun _ => Stage h) Never c := by
  induction moves generalizing c with
  | nil => exact stage
  | cons move moves ih =>
    have first : runMoves h (move :: moves) = (move.exec h >>= fun _ => runMoves h moves) := rfl
    rw [first, wp_bind]
    refine (move_stage move meets.1 stage).call_run fun _ c' run stage => ?_
    exact ih (meets.2 c' run) stage

theorem Opening.correct {progress : Progress} (here : Opening o 0 0 0 s)
    (listed : progress = .inserted → o.inConnMap = true) : Correct progress s := by
  obtain ⟨isOpen⟩ := here
  refine ⟨fun _ => ⟨_, rfl⟩, nofun, fun conn live _ => ?_, fun at_end _ => listed at_end⟩
  cases live
  rfl

theorem Fit.correct {progress : Progress} (fit : Fit h 0 0 0 s) (made : s.conn.isAbsent = false) :
    Correct progress s := by
  cases fit with
  | fresh => cases made
  | listener => cases made
  | down => exact ⟨nofun, fun _ => rfl, nofun, nofun⟩
  | up =>
    refine ⟨fun _ => ⟨_, rfl⟩, nofun, fun conn live _ => ?_, fun _ _ => rfl⟩
    cases live
    rfl

theorem Under.correct {progress : Progress} (under : Under h handle mapped inMap w)
    (listed : progress = .inserted → inMap = true) : Correct progress (w.slot h) := by
  obtain ⟨state, _, opens⟩ := under
  exact opens.here.correct listed

theorem Stage.correct (stage : Stage h c) : Correct c.progress (c.slot h) := by
  obtain ⟨w, progress, queued⟩ := c
  cases progress with
  | start =>
    obtain ⟨rfl, rfl⟩ := stage
    exact ⟨nofun, nofun, nofun, nofun⟩
  | opened => exact Under.correct stage.2 nofun
  | posted => exact Under.correct stage nofun
  | returned => exact Under.correct stage nofun
  | assigned => exact Under.correct stage nofun
  | inserted =>
    cases queued with
    | true => exact Under.correct stage fun _ => rfl
    | false =>
      have inv : Inv quiet [] [⟨h, false⟩] w := stage
      exact (inv.fit h).correct (inv.known ⟨h, false⟩ (List.mem_singleton.mpr rfl)).made

/-- **`Connect` from another thread.** In a run that meets the condition at each step, no deleted object is
used and `Connect` keeps what it promises. -/
theorem connect_correct (moves : List Move) (meets : RunMeets h moves .init) :
    ∃ c, (runMoves h moves).run .init = .ok ⟨⟩ c ∧ Correct c.progress (c.slot h) := by
  obtain ⟨⟨⟩, c, run, stage⟩ := wp_never.mp (runMoves_stage moves meets ⟨rfl, rfl⟩)
  exact ⟨c, run, stage.correct⟩

/-- Steps that meet the condition in every state. -/
theorem RunMeets.of_forall {moves : List Move} (meets : ∀ move ∈ moves, ∀ c, move.Meets h c) : RunMeets h moves c := by
  induction moves generalizing c with
  | nil => trivial
  | cons move moves ih =>
    refine ⟨meets move List.mem_cons_self c, fun _ _ => ih fun move member => ?_⟩
    exact meets move (List.mem_cons_of_mem _ member)

/-- An entry that only says that the socket is writable. -/
def writable (h : NetHandle) : Ready := ⟨h, none, some ⟨false, false, false, []⟩, none⟩

theorem writable_meets (c : Shared) : (Move.dispatch (writable h)).Meets h c := by
  have noClose : (writable h).NoClose (c.slot h).connecting := by
    refine ⟨nofun, fun o is _ => ?_, rfl⟩
    cases is
    exact ⟨rfl, rfl⟩
  exact fun _ => ⟨fun _ => ⟨noClose, nofun⟩, fun _ => ⟨noClose, nofun, nofun, nofun⟩⟩

/-- The connection is confirmed before thread A has assigned its handle. -/
theorem connect_correct_confirmed :
    ∃ c, (runMoves 1 [.advance, .advance, .register, .dispatch (writable 1), .advance, .advance, .advance]).run .init =
      .ok ⟨⟩ c ∧ Correct c.progress (c.slot 1) := by
  refine connect_correct _ (.of_forall fun move member c => ?_)
  simp only [List.mem_cons, List.not_mem_nil, or_false] at member
  rcases member with rfl | rfl | rfl | rfl | rfl | rfl | rfl
  case inr.inr.inr.inl => exact writable_meets c
  all_goals trivial

/-- The run ends in a state that passes the test. -/
def endsWith (h : NetHandle) (moves : List Move) (test : Shared → Bool) : Bool :=
  match (runMoves h moves).run .init with
  | .ok _ c => test c
  | .error _ _ => false

theorem exists_of_endsWith {moves : List Move} {test : Shared → Bool} (ends : endsWith h moves test = true) :
    ∃ c, (runMoves h moves).run .init = .ok ⟨⟩ c ∧ test c = true := by
  unfold endsWith at ends
  cases run : (runMoves h moves).run .init with
  | ok _ c =>
    rw [run] at ends
    exact ⟨c, rfl, ends⟩
  | error _ c =>
    rw [run] at ends
    cases ends

/-- A connection that is refused before thread A has assigned its handle is not closed. -/
theorem close_ignored :
    ∃ c, (runMoves 1 [.advance, .advance, .register, .dispatch ⟨1, none, none, some []⟩]).run .init = .ok ⟨⟩ c ∧
      ¬ Correct c.progress (c.slot 1) := by
  have ends : endsWith 1 [.advance, .advance, .register, .dispatch ⟨1, none, none, some []⟩]
      (fun c => (c.slot 1).closeSeen && (c.slot 1).tally.socketCloses = 0) = true := by decide
  obtain ⟨c, run, test⟩ := exists_of_endsWith ends
  refine ⟨c, run, fun correct => ?_⟩
  rw [Bool.and_eq_true] at test
  have closed := correct.closes test.1
  have running : (c.slot 1).tally.socketCloses = 0 := of_decide_eq_true test.2
  omega

end Netter.Loop
