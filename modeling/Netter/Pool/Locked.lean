import Netter.Pool.Steps

/-!
# The mutex of a worker

Who holds the mutex, and what is true of `m_task_list` while the worker tests it and waits: it is
empty when the worker goes to sleep, and a task that is pushed while the worker sleeps is followed by
a signal before the mutex is free again.
-/

namespace Netter.Pool

/-- `Execute` has the mutex. -/
def Pc.holds : Pc → Bool
  | .testEmpty | .testStop | .wait | .swap | .unlock => true
  | _ => false

structure Worker.Locked (calls : Caller → Option Call) (i : Nat) (w : Worker) : Prop where
  execute : w.owner = some .execute ↔ w.pc.holds = true
  pushTask : ∀ c, w.owner = some (.pushTask c) ↔ ∃ call, calls c = some call ∧ call.worker = i ∧ call.pc ≠ .lock
  empty : w.pc = .testStop ∨ w.pc = .wait → w.taskList = []
  /-- A call is about to signal a worker that sleeps beside a task. -/
  signalled : w.pc = .parked → w.taskList ≠ [] → ∃ c task, calls c = some ⟨i, task, .signal⟩

def Locked (s : State) : Prop := ∀ i, (s.workers i).Locked s.calls i

variable {threadNum : Nat} {s t : State} {w v : Worker} {c d : Caller} {i j : Nat} {call : Call}
  {calls : Caller → Option Call} {next : Option Call} {calling : Bool}

namespace Worker

@[simp] theorem signal_owner (w : Worker) : w.signal.owner = w.owner := by
  unfold signal
  split <;> rfl

@[simp] theorem signal_stop (w : Worker) : w.signal.stop = w.stop := by
  unfold signal
  split <;> rfl

@[simp] theorem signal_taskList (w : Worker) : w.signal.taskList = w.taskList := by
  unfold signal
  split <;> rfl

@[simp] theorem signal_pushed (w : Worker) : w.signal.pushed = w.pushed := by
  unfold signal
  split <;> rfl

/-- Only a worker that sleeps is changed by a signal. -/
theorem signal_cases (w : Worker) : w.signal = w ∧ w.pc ≠ .parked ∨ w.pc = .parked ∧ w.signal = { w with pc := .woken } := by
  unfold signal
  by_cases parked : w.pc = .parked
  · exact .inr ⟨parked, if_pos parked⟩
  · exact .inl ⟨if_neg parked, parked⟩

theorem signal_not_parked (w : Worker) : w.signal.pc ≠ .parked := by
  rcases w.signal_cases with ⟨same, awake⟩ | ⟨_, woken⟩
  · rw [same]
    exact awake
  · rw [woken]
    nofun

/-- Calls of other workers, and calls that are about to lock, do not matter. -/
theorem Locked.of_calls {others : Caller → Option Call} (locked : w.Locked calls i)
    (same : ∀ c, (∃ call, others c = some call ∧ call.worker = i ∧ call.pc ≠ .lock) ↔
      ∃ call, calls c = some call ∧ call.worker = i ∧ call.pc ≠ .lock)
    (signals : ∀ c task, calls c = some ⟨i, task, .signal⟩ → others c = some ⟨i, task, .signal⟩) :
    w.Locked others i := by
  refine ⟨locked.execute, fun c => (locked.pushTask c).trans (same c).symm, locked.empty, fun parked some => ?_⟩
  obtain ⟨c, task, signal⟩ := locked.signalled parked some
  exact ⟨c, task, signals c task signal⟩

/-- A call that another worker gets, or that is about to lock. -/
theorem Locked.update (locked : w.Locked calls i)
    (before : ∀ call, calls c = some call → call.worker ≠ i ∨ call.pc = .lock)
    (after : ∀ call, next = some call → call.worker ≠ i ∨ call.pc = .lock) :
    w.Locked (Function.update calls c next) i := by
  refine locked.of_calls (fun d => ?_) (fun d task signal => ?_)
  · by_cases same : d = c
    · subst same
      rw [Function.update_self]
      constructor
      · rintro ⟨call, is, here, inside⟩
        rcases after call is with other | outside
        · exact absurd here other
        · exact absurd outside inside
      · rintro ⟨call, is, here, inside⟩
        rcases before call is with other | outside
        · exact absurd here other
        · exact absurd outside inside
    · rw [Function.update_of_ne same]
  · have other : d ≠ c := by
      rintro rfl
      rcases before _ signal with away | outside
      · exact away rfl
      · cases outside
    rwa [Function.update_of_ne other]

theorem Locked.signal (locked : w.Locked calls i) : w.signal.Locked calls i := by
  rcases w.signal_cases with ⟨same, _⟩ | ⟨parked, woken⟩
  · rw [same]
    exact locked
  · rw [woken]
    refine ⟨?_, locked.pushTask, ?_, nofun⟩
    · have execute := locked.execute
      rwa [parked] at execute
    · rintro (at_test | at_wait)
      · cases at_test
      · cases at_wait

theorem Locked.setStop (locked : w.Locked calls i) : w.setStop.Locked calls i :=
  ⟨locked.execute, locked.pushTask, locked.empty, locked.signalled⟩

/-- No call is inside the mutex. -/
theorem Locked.no_call (locked : w.Locked calls i) (free : ∀ c, w.owner ≠ some (.pushTask c)) (at_call : calls c = some call)
    (here : call.worker = i) : call.pc = .lock := by
  by_contra inside
  exact free c ((locked.pushTask c).mpr ⟨call, at_call, here, inside⟩)

/-- A step inside or outside of the mutex. -/
theorem Locked.move {pc : Pc} (locked : w.Locked calls i) (same : pc.holds = w.pc.holds)
    (empty : pc = .testStop ∨ pc = .wait → w.taskList = []) (awake : pc ≠ .parked) :
    Worker.Locked calls i { w with pc } := by
  refine ⟨?_, locked.pushTask, empty, fun parked => absurd parked awake⟩
  show w.owner = some .execute ↔ pc.holds = true
  rw [same]
  exact locked.execute

theorem Locked.release {pc : Pc} (locked : w.Locked calls i) (inside : w.pc.holds = true) (outside : pc.holds = false)
    (asleep : pc = .parked → w.taskList = []) : Worker.Locked calls i { w.unlock with pc } := by
  have owner := locked.execute.mpr inside
  refine ⟨⟨nofun, fun holds => ?_⟩, fun c => ⟨nofun, fun ⟨call, is, here, within⟩ => ?_⟩, ?_, ?_⟩
  · rw [outside] at holds
    cases holds
  · have pushing := (locked.pushTask c).mpr ⟨call, is, here, within⟩
    rw [owner] at pushing
    cases pushing
  · rintro (at_test | at_wait)
    · rw [show pc = .testStop from at_test] at outside
      cases outside
    · rw [show pc = .wait from at_wait] at outside
      cases outside
  · intro parked some
    exact absurd (asleep parked) some

theorem Locked.turn (locked : w.Locked calls i) (turn : Turn calling w v) : v.Locked calls i := by
  cases turn with
  | stays => exact locked
  | enter at_head goes => exact locked.move (by rw [at_head]; rfl) (by simp) nofun
  | leave at_head stopped => exact locked.move (by rw [at_head]; rfl) (by simp) nofun
  | lock outside free =>
    refine ⟨⟨fun _ => rfl, fun _ => rfl⟩, fun c => ⟨nofun, fun ⟨call, is, here, inside⟩ => ?_⟩, ?_, nofun⟩
    · have none := locked.no_call (fun c => by rw [free]; nofun) is here
      exact absurd none inside
    · rintro (at_test | at_wait)
      · cases at_test
      · cases at_wait
  | empty at_test none => exact locked.move (by rw [at_test]; rfl) (fun _ => none) nofun
  | filled at_test some => exact locked.move (by rw [at_test]; rfl) (by simp) nofun
  | stopped at_test stopped => exact locked.move (by rw [at_test]; rfl) (by simp) nofun
  | goes at_test goes => exact locked.move (by rw [at_test]; rfl) (fun _ => locked.empty (.inl at_test)) nofun
  | park at_wait => exact locked.release (by rw [at_wait]; rfl) rfl fun _ => locked.empty (.inr at_wait)
  | swap at_swap =>
    refine ⟨?_, locked.pushTask, fun _ => rfl, nofun⟩
    have execute := locked.execute
    rwa [at_swap] at execute
  | unlock at_unlock => exact locked.release (by rw [at_unlock]; rfl) rfl nofun
  | done at_batch none => exact locked.move (by rw [at_batch]; rfl) (by simp) nofun
  | take at_batch task rest first =>
    refine ⟨?_, locked.pushTask, by simp, nofun⟩
    have execute := locked.execute
    rwa [at_batch] at execute
  | run task at_run =>
    refine ⟨?_, locked.pushTask, by simp, nofun⟩
    have execute := locked.execute
    rwa [at_run] at execute
  | delete task at_running idle =>
    refine ⟨?_, locked.pushTask, by simp, nofun⟩
    have execute := locked.execute
    rwa [at_running] at execute

/-- The worker of a call that is inside the mutex is not. -/
theorem Locked.outside (locked : w.Locked calls i) (owner : w.owner = some (.pushTask c)) : w.pc.holds = false := by
  by_contra holds
  rw [Bool.not_eq_false] at holds
  rw [locked.execute.mpr holds] at owner
  cases owner

/-- The call that has the mutex goes on in it. -/
theorem pushTask_update {later : Call} (owner : w.owner = some (.pushTask c)) (here : later.worker = i)
    (inside : later.pc ≠ .lock)
    (others : ∀ d, d ≠ c → (w.owner = some (.pushTask d) ↔ ∃ call, calls d = some call ∧ call.worker = i ∧ call.pc ≠ .lock)) :
    ∀ d, w.owner = some (.pushTask d) ↔
      ∃ call, Function.update calls c (some later) d = some call ∧ call.worker = i ∧ call.pc ≠ .lock := by
  intro d
  by_cases same : d = c
  · subst same
    rw [Function.update_self]
    exact ⟨fun _ => ⟨later, rfl, here, inside⟩, fun _ => owner⟩
  · rw [Function.update_of_ne same]
    exact others d same

/-- With the mutex free, `PushTask` takes it. -/
theorem Locked.lock {later : Call} (locked : w.Locked calls i) (free : w.owner = none) (here : later.worker = i)
    (inside : later.pc ≠ .lock) :
    Worker.Locked (Function.update calls c (some later)) i { w with owner := some (.pushTask c) } := by
  have nobody : ∀ d, w.owner ≠ some (.pushTask d) := fun d => by rw [free]; nofun
  refine ⟨⟨nofun, fun holds => ?_⟩, ?_, locked.empty, fun parked some => ?_⟩
  · have owner := locked.execute.mpr holds
    rw [free] at owner
    cases owner
  · apply pushTask_update rfl here inside
    intro d other
    constructor
    · intro owner
      cases owner
      exact absurd rfl other
    · rintro ⟨call, is, there, within⟩
      exact absurd (locked.no_call nobody is there) within
  · obtain ⟨d, task, signal⟩ := locked.signalled parked some
    have none := locked.no_call nobody signal rfl
    cases none

/-- `PushTask` lets go of the mutex. -/
theorem Locked.leave (locked : w.Locked calls i) (under : calls c = some call) (owner : w.owner = some (.pushTask c))
    (signalled : call.pc ≠ .signal) : Worker.Locked (Function.update calls c none) i w.unlock := by
  have away := locked.outside owner
  -- nobody else is in the mutex
  have alone (d : Caller) (pushing : w.owner = some (.pushTask d)) : d = c := by
    rw [owner] at pushing
    cases pushing
    rfl
  refine ⟨⟨nofun, fun holds => ?_⟩, fun d => ⟨nofun, ?_⟩, locked.empty, fun parked some => ?_⟩
  · have holds : w.pc.holds = true := holds
    rw [away] at holds
    cases holds
  · rintro ⟨other, is, there, inside⟩
    by_cases same : d = c
    · subst same
      rw [Function.update_self] at is
      cases is
    · rw [Function.update_of_ne same] at is
      exact absurd (alone d ((locked.pushTask d).mpr ⟨other, is, there, inside⟩)) same
  · obtain ⟨d, task, signal⟩ := locked.signalled parked some
    obtain rfl := alone d ((locked.pushTask d).mpr ⟨_, signal, rfl, nofun⟩)
    rw [under] at signal
    cases signal
    exact absurd rfl signalled

theorem Locked.pushes (locked : w.Locked calls i) (under : calls c = some call) (here : call.worker = i)
    (pushes : Pushes c call w v next) : v.Locked (Function.update calls c next) i := by
  have owner (inside : call.pc ≠ .lock) : w.owner = some (.pushTask c) :=
    (locked.pushTask c).mpr ⟨call, under, here, inside⟩
  cases pushes with
  | lock at_lock free => exact locked.lock free here nofun
  | pushBack at_pushBack =>
    have owner := owner (by rw [at_pushBack]; nofun)
    have away := locked.outside owner
    refine ⟨locked.execute, ?_, ?_, fun _ _ => ⟨c, call.task, ?_⟩⟩
    · exact pushTask_update owner here nofun fun d _ => locked.pushTask d
    · rintro (at_test | at_wait)
      · rw [show w.pc = .testStop from at_test] at away
        cases away
      · rw [show w.pc = .wait from at_wait] at away
        cases away
    · rw [Function.update_self, here]
  | signal at_signal =>
    have owner := w.signal_owner.trans (owner (by rw [at_signal]; nofun))
    have woken := locked.signal
    refine ⟨woken.execute, ?_, woken.empty, fun parked => absurd parked w.signal_not_parked⟩
    exact pushTask_update owner here nofun fun d _ => woken.pushTask d
  | unlock at_unlock =>
    have owner := owner (by rw [at_unlock]; nofun)
    exact locked.leave under owner (by rw [at_unlock]; nofun)

end Worker

/-- A call stays with its worker. -/
theorem Pushes.worker (pushes : Pushes c call w v next) : ∀ later, next = some later → later.worker = call.worker := by
  intro later is
  cases pushes <;> cases is <;> rfl

theorem Locked.setWorker (locked : Locked s) (here : v.Locked s.calls i) : Locked (s.setWorker i v) := by
  intro j
  show ((s.setWorker i v).workers j).Locked s.calls j
  by_cases same : j = i
  · rw [same, State.setWorker_self]
    exact here
  · rw [State.setWorker_ne s v same]
    exact locked j

theorem Locked.push (locked : Locked s) (under : s.calls c = some call)
    (pushes : Pushes c call (s.workers call.worker) v next) : Locked ((s.setWorker call.worker v).setCall c next) := by
  intro j
  show (Function.update s.workers call.worker v j).Locked (Function.update s.calls c next) j
  by_cases same : j = call.worker
  · subst same
    rw [Function.update_self]
    exact (locked call.worker).pushes under rfl pushes
  · rw [Function.update_of_ne same]
    apply (locked j).update
    · intro other is
      rw [under] at is
      cases is
      exact .inl fun here => same here.symm
    · intro later is
      rw [pushes.worker later is]
      exact .inl fun here => same here.symm

theorem Locked.move (locked : Locked s) (move : Move threadNum s t) : Locked t := by
  cases move with
  | stays => exact locked
  | call c i idle there =>
    intro j
    apply (locked j).update
    · intro call is
      rw [idle] at is
      cases is
    · intro call is
      cases is
      exact .inr rfl
  | push c call under w next pushes added adds => exact locked.push under pushes
  | execute i there w turn => exact locked.setWorker ((locked i).turn turn)
  | wake i => exact locked.setWorker (locked i).signal
  | begin fresh => exact locked
  | again i at_first all => exact locked
  | finish i at_second all => exact locked
  | setStop round i at_set there => exact locked.setWorker (locked i).setStop
  | signal round i at_signal => exact locked.setWorker (locked i).signal
  | joined i at_join exited => exact locked

theorem Locked.init : Locked .init := by
  intro i
  refine ⟨⟨nofun, nofun⟩, fun c => ⟨nofun, ?_⟩, fun _ => rfl, nofun⟩
  rintro ⟨call, is, _⟩
  cases is

end Netter.Pool
