import Netter.Pool.Order

/-!
# Stopping the workers

`Stop` sets the flag and signals without the mutex, and `Destory` does it twice for each worker. A
worker that has read the flag as unset just before and goes to sleep just after the second signal
sleeps for good. In every other run no stopped worker is left asleep.
-/

namespace Netter.Pool

namespace DestoryPc

/-- The first `Stop` of a worker has set its flag. -/
def stopped : DestoryPc → Nat → Prop
  | .notCalled, _ => False
  | .setStop .first j, i => i < j
  | .signal .first j, i => i ≤ j
  | _, _ => True

/-- Both calls of `Stop` have finished for a worker. -/
def finished : DestoryPc → Nat → Prop
  | .setStop .second j, i => i < j
  | .signal .second j, i => i < j
  | .join j, i => i ≤ j
  | .returned, _ => True
  | _, _ => False

def joined : DestoryPc → Nat → Prop
  | .setStop .second j, i => i < j
  | .signal .second j, i => i < j
  | .join j, i => i < j
  | .returned, _ => True
  | _, _ => False

theorem stopped_of_finished {pc : DestoryPc} {i : Nat} (finished : pc.finished i) : pc.stopped i := by
  cases pc with
  | notCalled => cases finished
  | setStop round j =>
    cases round with
    | first => cases finished
    | second => trivial
  | signal round j =>
    cases round with
    | first => cases finished
    | second => trivial
  | join j => trivial
  | returned => trivial

end DestoryPc

variable {threadNum : Nat} {s t : State} {w v : Worker} {c d : Caller} {i j : Nat} {call : Call}
  {next : Option Call} {calling : Bool} {task : Task}

structure Stopped (threadNum : Nat) (s : State) : Prop where
  early : s.destory = .notCalled → ∀ i, (s.workers i).stop = false
  stopped : ∀ i, i < threadNum → s.destory.stopped i → (s.workers i).stop = true
  joined : ∀ i, i < threadNum → s.destory.joined i → (s.workers i).pc = .exited

theorem State.setWorker_cases {P : Worker → Prop} (here : j = i → P v) (other : j ≠ i → P (s.workers j)) :
    P ((s.setWorker i v).workers j) := by
  by_cases same : j = i
  · rw [same, State.setWorker_self]
    exact here same
  · rw [State.setWorker_ne s v same]
    exact other same

theorem Turn.stop (turn : Turn calling w v) : v.stop = w.stop := by
  cases turn <;> rfl

theorem Turn.exited (turn : Turn calling w v) (exited : w.pc = .exited) : v.pc = .exited := by
  cases turn with
  | stays => exact exited
  | leave at_head stopped => rfl
  | lock outside free => rcases outside with at_lock | at_woken <;> simp_all
  | _ => simp_all

theorem Worker.signal_exited (exited : w.pc = .exited) : w.signal.pc = .exited := by
  rcases w.signal_cases with ⟨same, _⟩ | ⟨parked, _⟩
  · rw [same]
    exact exited
  · rw [exited] at parked
    cases parked

theorem Pushes.stop (pushes : Pushes c call w v next) : v.stop = w.stop := by
  cases pushes with
  | signal => exact w.signal_stop
  | _ => rfl

theorem Pushes.exited (pushes : Pushes c call w v next) (exited : w.pc = .exited) : v.pc = .exited := by
  cases pushes with
  | signal => exact Worker.signal_exited exited
  | _ => exact exited

theorem Stopped.setWorker (stopped : Stopped threadNum s) (stop : v.stop = (s.workers i).stop)
    (exited : (s.workers i).pc = .exited → v.pc = .exited) : Stopped threadNum (s.setWorker i v) := by
  constructor
  · intro early j
    refine State.setWorker_cases (P := (·.stop = false)) (fun _ => ?_) fun _ => stopped.early early j
    exact stop.trans (stopped.early early i)
  · intro j there is
    refine State.setWorker_cases (P := (·.stop = true)) (fun same => ?_) fun _ => stopped.stopped j there is
    subst same
    exact stop.trans (stopped.stopped j there is)
  · intro j there is
    refine State.setWorker_cases (P := (·.pc = .exited)) (fun same => ?_) fun _ => stopped.joined j there is
    subst same
    exact exited (stopped.joined j there is)

/-- `Destory` goes on. -/
theorem Stopped.destory {pc : DestoryPc} (stopped : Stopped threadNum s) (late : pc ≠ .notCalled)
    (stops : ∀ i, i < threadNum → pc.stopped i → s.destory.stopped i ∨ (s.workers i).stop = true)
    (joins : ∀ i, i < threadNum → pc.joined i → s.destory.joined i ∨ (s.workers i).pc = .exited) :
    Stopped threadNum { s with destory := pc } := by
  constructor
  · intro early
    exact absurd early late
  · intro i there is
    rcases stops i there is with before | now
    · exact stopped.stopped i there before
    · exact now
  · intro i there is
    rcases joins i there is with before | now
    · exact stopped.joined i there before
    · exact now

theorem Stopped.setStop {round : Round} (stopped : Stopped threadNum s) (at_set : s.destory = .setStop round i) :
    Stopped threadNum { s.setWorker i (s.workers i).setStop with destory := .signal round i } := by
  have others (j : Nat) (other : j ≠ i) := s.setWorker_ne (s.workers i).setStop other
  have here := s.setWorker_self i (s.workers i).setStop
  refine ⟨nofun, fun j there is => ?_, fun j there is => ?_⟩
  · by_cases same : j = i
    · subst same
      exact congrArg Worker.stop here
    · refine (congrArg Worker.stop (others j same)).trans (stopped.stopped j there ?_)
      rw [at_set]
      cases round with
      | first => exact Nat.lt_of_le_of_ne is same
      | second => trivial
  · cases round with
    | first => cases is
    | second =>
      have below : j < i := is
      refine (congrArg Worker.pc (others j (Nat.ne_of_lt below))).trans (stopped.joined j there ?_)
      rw [at_set]
      exact below

theorem Stopped.move (stopped : Stopped threadNum s) (move : Move threadNum s t) : Stopped threadNum t := by
  cases move with
  | stays => exact stopped
  | call c i idle there => exact ⟨stopped.early, stopped.stopped, stopped.joined⟩
  | push c call under w next pushes added adds =>
    have kept := stopped.setWorker pushes.stop pushes.exited
    exact ⟨kept.early, kept.stopped, kept.joined⟩
  | execute i there w turn => exact stopped.setWorker turn.stop turn.exited
  | wake i => exact stopped.setWorker (Worker.signal_stop _) Worker.signal_exited
  | begin fresh => exact stopped.destory nofun nofun nofun
  | again i at_first all =>
    refine stopped.destory nofun (fun j there _ => .inl ?_) nofun
    rw [at_first]
    exact Nat.lt_of_lt_of_le there all
  | finish i at_second all =>
    refine stopped.destory nofun (fun j there _ => .inl ?_) fun j there _ => .inl ?_
    · rw [at_second]
      trivial
    · rw [at_second]
      exact Nat.lt_of_lt_of_le there all
  | setStop round i at_set there => exact stopped.setStop at_set
  | signal round i at_signal =>
    have kept := stopped.setWorker (Worker.signal_stop (s.workers i)) Worker.signal_exited
    cases round with
    | first =>
      refine kept.destory nofun (fun j there is => .inl ?_) nofun
      show s.destory.stopped j
      rw [at_signal]
      exact Nat.le_of_lt_succ is
    | second =>
      refine kept.destory nofun (fun j there is => .inl ?_) fun j there is => .inl ?_
      · show s.destory.stopped j
        rw [at_signal]
        trivial
      · show s.destory.joined j
        rw [at_signal]
        exact is
  | joined i at_join exited =>
    refine stopped.destory nofun (fun j there is => .inl ?_) fun j there is => ?_
    · rw [at_join]
      trivial
    · rcases Nat.lt_succ_iff_lt_or_eq.mp is with below | rfl
      · rw [at_join]
        exact .inl below
      · exact .inr exited

theorem Stopped.init : Stopped threadNum .init := ⟨fun _ _ => rfl, nofun, nofun⟩

/-! ## Asleep for good -/

/-- The worker is stopped and sleeps, and no signal is left to come. -/
structure Asleep (s : State) (i : Nat) : Prop where
  stop : (s.workers i).stop = true
  finished : s.destory.finished i
  parked : (s.workers i).pc = .parked
  noSignal : ∀ c call, s.calls c = some call → call.worker = i → call.pc = .unlock

/-- A worker about to sleep when `Destory` signals it for the last time is about to be signalled by a call of
`PushTask`. -/
def Step.MeetsSignal (s : State) (step : Step) : Prop :=
  step = .destory → ∀ i, s.destory = .signal .second i → (s.workers i).pc = .wait →
    ∃ c call, s.calls c = some call ∧ call.worker = i

/-- A worker that both calls of `Stop` have passed sleeps only while a call is about to signal it. -/
def Awake (threadNum : Nat) (s : State) : Prop :=
  ∀ i, i < threadNum → s.destory.finished i → (s.workers i).pc = .wait ∨ (s.workers i).pc = .parked →
    ∃ c call, s.calls c = some call ∧ call.worker = i ∧ call.pc ≠ .unlock

/-- The same as long as `Destory` does not pass another worker. -/
theorem Awake.destory {pc : DestoryPc} (awake : Awake threadNum s)
    (same : ∀ i, i < threadNum → pc.finished i → s.destory.finished i) : Awake threadNum { s with destory := pc } :=
  fun i there is => awake i there (same i there is)

theorem Awake.setWorker (awake : Awake threadNum s)
    (here : i < threadNum → s.destory.finished i → v.pc = .wait ∨ v.pc = .parked →
      (s.workers i).pc = .wait ∨ (s.workers i).pc = .parked) : Awake threadNum (s.setWorker i v) := by
  intro j there is
  refine State.setWorker_cases (P := fun w => w.pc = .wait ∨ w.pc = .parked → _) (fun same sleeps => ?_) fun _ => ?_
  · subst same
    exact awake j there is (here there is sleeps)
  · exact awake j there is

theorem Turn.sleeps (turn : Turn calling w v) (stopped : w.stop = true) (sleeps : v.pc = .wait ∨ v.pc = .parked) :
    w.pc = .wait ∨ w.pc = .parked := by
  cases turn with
  | stays => exact sleeps
  | goes at_test goes =>
    rw [stopped] at goes
    cases goes
  | park at_wait => exact .inl at_wait
  | _ =>
    rcases sleeps with at_wait | at_parked
    · cases at_wait
    · cases at_parked

theorem Worker.signal_sleeps (sleeps : w.signal.pc = .wait ∨ w.signal.pc = .parked) : w.pc = .wait := by
  rcases sleeps with at_wait | at_parked
  · rcases w.signal_cases with ⟨same, _⟩ | ⟨_, woken⟩
    · rwa [same] at at_wait
    · rw [woken] at at_wait
      cases at_wait
  · exact absurd at_parked w.signal_not_parked

theorem Awake.push {added : List Task} (awake : Awake threadNum s) (locked : Locked s) (under : s.calls c = some call)
    (pushes : Pushes c call (s.workers call.worker) v next) :
    Awake threadNum { (s.setWorker call.worker v).setCall c next with added } := by
  have kept (i : Nat) (old : ∃ d other, s.calls d = some other ∧ other.worker = i ∧ other.pc ≠ .unlock)
      (away : call.worker ≠ i ∨ call.pc = .unlock) :
      ∃ d other, Function.update s.calls c next d = some other ∧ other.worker = i ∧ other.pc ≠ .unlock := by
    obtain ⟨d, other, is, here, soon⟩ := old
    refine ⟨d, other, ?_, here, soon⟩
    rw [Function.update_of_ne ?_]
    · exact is
    · rintro rfl
      rw [under] at is
      cases is
      rcases away with elsewhere | late
      · exact elsewhere here
      · exact soon late
  intro i there is sleeps
  revert sleeps
  refine State.setWorker_cases (P := fun w => w.pc = .wait ∨ w.pc = .parked → _) (fun same sleeps => ?_) fun other sleeps => ?_
  · subst same
    have new (later : Call) : Function.update s.calls c (some later) c = some later := Function.update_self ..
    cases pushes with
    | lock at_lock free => exact ⟨c, _, new _, rfl, nofun⟩
    | pushBack at_pushBack => exact ⟨c, _, new _, rfl, nofun⟩
    | signal at_signal =>
      have waits := Worker.signal_sleeps sleeps
      have owner := ((locked call.worker).pushTask c).mpr ⟨call, under, rfl, by rw [at_signal]; nofun⟩
      have outside := (locked call.worker).outside owner
      rw [waits] at outside
      cases outside
    | unlock at_unlock => exact kept _ (awake _ there is sleeps) (.inr at_unlock)
  · exact kept i (awake i there is sleeps) (.inl fun same => other same.symm)

theorem Awake.move (awake : Awake threadNum s) (inv : Inv s) (stopped : Stopped threadNum s) (move : Move threadNum s t)
    (meets : ∀ i, s.destory = .signal .second i → t.destory = .join i → (s.workers i).pc = .wait →
      ∃ c call, s.calls c = some call ∧ call.worker = i) : Awake threadNum t := by
  have signalled (i : Nat) : Awake threadNum (s.setWorker i (s.workers i).signal) :=
    awake.setWorker fun _ _ sleeps => .inl (Worker.signal_sleeps sleeps)
  cases move with
  | stays => exact awake
  | call c i idle there =>
    intro j below is sleeps
    obtain ⟨d, call, at_call, here, soon⟩ := awake j below is sleeps
    have other : d ≠ c := by
      rintro rfl
      rw [idle] at at_call
      cases at_call
    exact ⟨d, call, (Function.update_of_ne other _ _).trans at_call, here, soon⟩
  | push c call under w next pushes added adds => exact awake.push inv.locked under pushes
  | execute i there w turn =>
    refine awake.setWorker fun below is sleeps => turn.sleeps ?_ sleeps
    exact stopped.stopped i below (DestoryPc.stopped_of_finished is)
  | wake i => exact signalled i
  | begin fresh => exact awake.destory nofun
  | again i at_first all => exact awake.destory fun j _ is => absurd is (Nat.not_lt_zero j)
  | finish i at_second all =>
    refine awake.destory fun j there _ => ?_
    rw [at_second]
    exact Nat.lt_of_lt_of_le there all
  | setStop round i at_set there =>
    have set : Awake threadNum (s.setWorker i (s.workers i).setStop) := awake.setWorker fun _ _ sleeps => sleeps
    refine set.destory fun j _ is => ?_
    show s.destory.finished j
    rw [at_set]
    cases round with
    | first => cases is
    | second => exact is
  | signal round i at_signal =>
    cases round with
    | first => exact (signalled i).destory nofun
    | second =>
      intro j there is sleeps
      by_cases same : j = i
      · subst same
        have signalled := s.setWorker_self j (s.workers j).signal
        have waits := Worker.signal_sleeps (signalled ▸ sleeps)
        obtain ⟨c, call, under, here⟩ := meets j at_signal rfl waits
        have locked := inv.locked j
        have owner := locked.execute.mpr (by rw [waits]; rfl)
        have at_lock := locked.no_call (fun c => by rw [owner]; nofun) under here
        exact ⟨c, call, under, here, by rw [at_lock]; nofun⟩
      · refine signalled i j there ?_ sleeps
        show s.destory.finished j
        rw [at_signal]
        exact Nat.lt_of_le_of_ne is same
  | joined i at_join exited =>
    refine awake.destory fun j _ is => ?_
    rw [at_join]
    exact Nat.le_of_lt_succ is

theorem State.pushTask_destory (s : State) (c : Caller) (call : Call) : (s.pushTask c call).destory = s.destory := by
  unfold State.pushTask
  split
  next =>
    by_cases free : (s.workers call.worker).owner = none
    · simp only [free, if_true]
      rfl
    · simp only [free, if_false]
  all_goals rfl

theorem Step.exec_destory {step : Step} (other : step ≠ .destory) : (step.exec threadNum s).destory = s.destory := by
  unfold Step.exec
  split
  next c index =>
    split
    next => split <;> rfl
    next => rfl
  next c =>
    split
    next call _ => exact s.pushTask_destory c call
    next => rfl
  next i => split <;> rfl
  next i => split <;> rfl
  next => exact absurd rfl other

structure Wakeful (threadNum : Nat) (s : State) : Prop where
  inv : Inv s
  stopped : Stopped threadNum s
  awake : Awake threadNum s

theorem Wakeful.exec {step : Step} (wakeful : Wakeful threadNum s) (meets : step.MeetsSignal s) :
    Wakeful threadNum (step.exec threadNum s) := by
  obtain ⟨inv, stopped, awake⟩ := wakeful
  have move : Move threadNum s (step.exec threadNum s) := step.exec_move s
  refine ⟨inv.move move, stopped.move move, awake.move inv stopped move fun i at_signal passed => ?_⟩
  by_cases is : step = .destory
  · exact meets is i at_signal
  · rw [Step.exec_destory is, at_signal] at passed
    cases passed

/-- **No stopped worker is left asleep**, in every state of a run that meets the condition. -/
theorem not_asleep (threadNum : Nat) (steps : List Step)
    (along : Lib.Along (Step.exec threadNum) (fun s step => step.MeetsSignal s) .init steps) (i : Nat)
    (there : i < threadNum) : ¬ Asleep (runPool threadNum steps) i := by
  have wakeful : Wakeful threadNum (runPool threadNum steps) :=
    Lib.run_inv_along (fun _ _ => Wakeful.exec) ⟨.init, .init, nofun⟩ along
  intro asleep
  obtain ⟨c, call, under, here, soon⟩ := wakeful.awake i there asleep.finished (.inr asleep.parked)
  exact soon (asleep.noSignal c call under here)

/-- `Destory` of a pool with one worker, which sleeps. -/
def stopParked : List Step :=
  [.execute 0, .execute 0, .execute 0, .execute 0, .execute 0, .destory, .destory, .destory, .destory, .destory, .destory]

theorem not_asleep_parked : ¬ Asleep (runPool 1 stopParked) 0 := by
  refine not_asleep 1 stopParked ⟨?_, ?_, ?_, ?_, ?_, ?_, ?_, ?_, ?_, ?_, ?_, trivial⟩ 0 Nat.one_pos
  all_goals nofun

/-- The worker reads the flag as unset, `Destory` sets it and signals twice, and the worker goes to sleep. -/
def missedSignal : List Step :=
  [.execute 0, .execute 0, .execute 0, .execute 0, .destory, .destory, .destory, .destory, .destory, .destory, .execute 0]

theorem asleep_missedSignal : Asleep (runPool 1 missedSignal) 0 := ⟨rfl, Nat.le_refl 0, rfl, nofun⟩

theorem State.signal_second (at_signal : s.destory = .signal .second i) :
    Step.exec threadNum s .destory = { s.setWorker i (s.workers i).signal with destory := .join i } := by
  show s.stepDestory threadNum = _
  unfold State.stepDestory
  rw [at_signal]

theorem Worker.execute_wait (waits : w.pc = .wait) : w.signal.execute calling = { w.unlock with pc := .parked } := by
  obtain ⟨stop, pc, owner, taskList, tmpTaskList, pushed, touched⟩ := w
  cases waits
  rfl

/-- The condition is needed: when it is not met, the worker goes to sleep for good with its next step. -/
theorem asleep_of_missed (steps : List Step) (there : i < threadNum)
    (at_signal : (runPool threadNum steps).destory = .signal .second i)
    (waits : ((runPool threadNum steps).workers i).pc = .wait)
    (noCall : ∀ c call, (runPool threadNum steps).calls c = some call → call.worker ≠ i) :
    Asleep (runPool threadNum (steps ++ [.destory, .execute i])) i := by
  have stopped : Stopped threadNum (runPool threadNum steps) := runPool_inv (fun _ _ => Stopped.move) .init steps
  have flag := stopped.stopped i there (by rw [at_signal]; trivial)
  have final : runPool threadNum (steps ++ [.destory, .execute i]) =
      Step.exec threadNum (Step.exec threadNum (runPool threadNum steps) .destory) (.execute i) := Lib.run_append
  generalize runPool threadNum steps = s at *
  rw [State.signal_second at_signal] at final
  have sleeps : (runPool threadNum (steps ++ [.destory, .execute i])).workers i =
      { (s.workers i).unlock with pc := .parked } := by
    rw [final]
    show (ite _ _ _ : State).workers i = _
    rw [if_pos there]
    rw [State.setWorker_self]
    show ((s.setWorker i (s.workers i).signal).workers i).execute _ = _
    rw [State.setWorker_self, Worker.execute_wait waits]
  have others : (runPool threadNum (steps ++ [.destory, .execute i])).calls = s.calls := by
    rw [final]
    show (ite _ _ _ : State).calls = _
    rw [if_pos there]
    rfl
  have passed : (runPool threadNum (steps ++ [.destory, .execute i])).destory = .join i := by
    rw [final]
    exact Step.exec_destory nofun
  constructor
  · rw [sleeps]
    exact flag
  · rw [passed]
    exact Nat.le_refl i
  · rw [sleeps]
  · intro c call under here
    rw [others] at under
    exact absurd here (noCall c call under)

end Netter.Pool
