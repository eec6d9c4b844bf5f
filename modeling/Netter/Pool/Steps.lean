import Netter.Pool.Model

/-!
# What a step of the pool does

Every step as a change of one worker, of one call or of `Destory`. The invariants go through these
cases instead of the program text.
-/

namespace Netter.Pool

variable {threadNum : Nat} {s t : State} {w : Worker} {c d : Caller} {i j : Nat} {call : Call}

@[simp] theorem State.setWorker_self (s : State) (i : Nat) (w : Worker) : (s.setWorker i w).workers i = w :=
  Function.update_self ..

theorem State.setWorker_ne (s : State) {i j : Nat} (w : Worker) (other : j ≠ i) :
    (s.setWorker i w).workers j = s.workers j := Function.update_of_ne other ..

/-- A call is the one set now, or was there before. -/
theorem State.calls_of_setCall {s : State} {c d : Caller} {next : Option Call} {call : Call}
    (is : (s.setCall c next).calls d = some call) : d = c ∧ next = some call ∨ d ≠ c ∧ s.calls d = some call := by
  have is : Function.update s.calls c next d = some call := is
  by_cases same : d = c
  · rw [same, Function.update_self] at is
    exact .inl ⟨same, is⟩
  · rw [Function.update_of_ne same] at is
    exact .inr ⟨same, is⟩

/-- A pushed task was there before, or is the one that is put into the list now. -/
theorem State.pushed_of_pushBack {s : State} {i j : Nat} {task new : Task}
    (member : task ∈ ((s.setWorker i ((s.workers i).pushBack new)).workers j).pushed) :
    task ∈ (s.workers j).pushed ∨ j = i ∧ task = new := by
  by_cases same : j = i
  · rw [same, State.setWorker_self] at member
    rcases List.mem_append.mp member with before | last
    · rw [same]
      exact .inl before
    · exact .inr ⟨same, List.mem_singleton.mp last⟩
  · rw [State.setWorker_ne s _ same] at member
    exact .inl member

/-- What a step of `Execute` does to its worker. -/
inductive Turn (calling : Bool) (w : Worker) : Worker → Prop where
  /-- The worker waits for the mutex, for a signal or for its task, or it has left `Execute`. -/
  | stays : Turn calling w w
  | enter (at_head : w.pc = .head) (goes : w.stop = false) : Turn calling w { w with pc := .lock }
  | leave (at_head : w.pc = .head) (stopped : w.stop = true) : Turn calling w { w with pc := .exited }
  | lock (outside : w.pc = .lock ∨ w.pc = .woken) (free : w.owner = none) :
      Turn calling w { w.lock .execute with pc := .testEmpty }
  | empty (at_test : w.pc = .testEmpty) (none : w.taskList = []) : Turn calling w { w with pc := .testStop }
  | filled (at_test : w.pc = .testEmpty) (some : w.taskList ≠ []) : Turn calling w { w with pc := .swap }
  | stopped (at_test : w.pc = .testStop) (stopped : w.stop = true) : Turn calling w { w with pc := .swap }
  | goes (at_test : w.pc = .testStop) (goes : w.stop = false) : Turn calling w { w with pc := .wait }
  | park (at_wait : w.pc = .wait) : Turn calling w { w.unlock with pc := .parked }
  | swap (at_swap : w.pc = .swap) :
      Turn calling w { w with tmpTaskList := w.taskList, taskList := [], pc := .unlock }
  | unlock (at_unlock : w.pc = .unlock) : Turn calling w { w.unlock with pc := .batch }
  | done (at_batch : w.pc = .batch) (none : w.tmpTaskList = []) : Turn calling w { w with pc := .head }
  | take (at_batch : w.pc = .batch) (task : Task) (rest : List Task) (first : w.tmpTaskList = task :: rest) :
      Turn calling w { w.touch (.setThreadIdx task) with tmpTaskList := rest, pc := .run task }
  | run (task : Task) (at_run : w.pc = .run task) :
      Turn calling w { w.touch (.run task) with pc := .running task }
  | delete (task : Task) (at_running : w.pc = .running task) (idle : calling = false) :
      Turn calling w { w.touch (.delete task) with pc := .batch }

theorem Worker.execute_turn (w : Worker) (calling : Bool) : Turn calling w (w.execute calling) := by
  obtain ⟨stop, pc, owner, taskList, tmpTaskList, pushed, touched⟩ := w
  cases pc with
  | head =>
    cases stop with
    | false => exact .enter rfl rfl
    | true => exact .leave rfl rfl
  | lock =>
    cases owner with
    | none => exact .lock (.inl rfl) rfl
    | some holder => exact .stays
  | testEmpty =>
    cases taskList with
    | nil => exact .empty rfl rfl
    | cons task rest => exact .filled rfl (List.cons_ne_nil task rest)
  | testStop =>
    cases stop with
    | false => exact .goes rfl rfl
    | true => exact .stopped rfl rfl
  | wait => exact .park rfl
  | parked => exact .stays
  | woken =>
    cases owner with
    | none => exact .lock (.inr rfl) rfl
    | some holder => exact .stays
  | swap => exact .swap rfl
  | unlock => exact .unlock rfl
  | batch =>
    cases tmpTaskList with
    | nil => exact .done rfl rfl
    | cons task rest => exact .take rfl task rest rfl
  | run task => exact .run task rfl
  | running task =>
    cases calling with
    | false => exact .delete task rfl rfl
    | true => exact .stays
  | exited => exact .stays

/-- A step of `PushTask` as a change of the worker and of where the call stands. -/
inductive Pushes (c : Caller) (call : Call) (w : Worker) : Worker → Option Call → Prop where
  | lock (at_lock : call.pc = .lock) (free : w.owner = none) :
      Pushes c call w (w.lock (.pushTask c)) (some { call with pc := .pushBack })
  | pushBack (at_pushBack : call.pc = .pushBack) :
      Pushes c call w (w.pushBack call.task) (some { call with pc := .signal })
  | signal (at_signal : call.pc = .signal) : Pushes c call w w.signal (some { call with pc := .unlock })
  | unlock (at_unlock : call.pc = .unlock) : Pushes c call w w.unlock none

/-- What a step of the pool does. -/
inductive Move (threadNum : Nat) (s : State) : State → Prop where
  | stays : Move threadNum s s
  | call (c : Caller) (i : Nat) (idle : s.calls c = none) (there : i < threadNum) :
      Move threadNum s (s.callPushTask c i)
  | push (c : Caller) (call : Call) (under : s.calls c = some call) (w : Worker) (next : Option Call)
      (pushes : Pushes c call (s.workers call.worker) w next) (added : List Task)
      (adds : added = s.added ∨ s.destory = .notCalled ∧ call.pc = .unlock ∧ added = s.added ++ [call.task]) :
      Move threadNum s { (s.setWorker call.worker w).setCall c next with added }
  | execute (i : Nat) (there : i < threadNum) (w : Worker) (turn : Turn (s.calls (.task i)).isSome (s.workers i) w) :
      Move threadNum s (s.setWorker i w)
  | wake (i : Nat) : Move threadNum s (s.setWorker i (s.workers i).signal)
  | begin (fresh : s.destory = .notCalled) : Move threadNum s { s with destory := .setStop .first 0 }
  | again (i : Nat) (at_first : s.destory = .setStop .first i) (all : threadNum ≤ i) :
      Move threadNum s { s with destory := .setStop .second 0 }
  | finish (i : Nat) (at_second : s.destory = .setStop .second i) (all : threadNum ≤ i) :
      Move threadNum s { s with destory := .returned }
  | setStop (round : Round) (i : Nat) (at_set : s.destory = .setStop round i) (there : i < threadNum) :
      Move threadNum s { s.setWorker i (s.workers i).setStop with destory := .signal round i }
  | signal (round : Round) (i : Nat) (at_signal : s.destory = .signal round i) :
      Move threadNum s { s.setWorker i (s.workers i).signal with
        destory := match round with | .first => .setStop .first (i + 1) | .second => .join i }
  | joined (i : Nat) (at_join : s.destory = .join i) (exited : (s.workers i).pc = .exited) :
      Move threadNum s { s with destory := .setStop .second (i + 1) }

theorem Index.worker_lt {index : Index} (picked : index.worker threadNum = some i) : i < threadNum := by
  cases index with
  | given k =>
    obtain ⟨there, is⟩ := Option.ite_none_right_eq_some.mp picked
    cases is
    exact there
  | random value =>
    obtain ⟨there, is⟩ := Option.ite_none_left_eq_some.mp picked
    cases is
    exact Nat.mod_lt value (Nat.pos_of_ne_zero there)

theorem State.calls_of_mayCall (may : s.mayCall c = true) : s.calls c = none := by
  cases c with
  | other number => exact Option.isNone_iff_eq_none.mp may
  | task i => exact Option.isNone_iff_eq_none.mp (Bool.and_eq_true_iff.mp may).1

theorem State.pushTask_move (s : State) (under : s.calls c = some call) : Move threadNum s (s.pushTask c call) := by
  unfold State.pushTask
  cases pc : call.pc with
  | lock =>
    by_cases free : (s.workers call.worker).owner = none
    · show Move threadNum s (if _ then _ else _)
      rw [if_pos free]
      exact .push c call under _ _ (.lock pc free) s.added (.inl rfl)
    · show Move threadNum s (if _ then _ else _)
      rw [if_neg free]
      exact .stays
  | pushBack => exact .push c call under _ _ (.pushBack pc) s.added (.inl rfl)
  | signal => exact .push c call under _ _ (.signal pc) s.added (.inl rfl)
  | unlock =>
    refine .push c call under _ _ (.unlock pc) _ ?_
    by_cases early : s.destory = .notCalled
    · exact .inr ⟨early, pc, if_pos early⟩
    · exact .inl (if_neg early)

theorem State.stepDestory_move (s : State) : Move threadNum s (s.stepDestory threadNum) := by
  unfold State.stepDestory
  split
  next at_destory => exact .begin at_destory
  next i at_destory =>
    split
    next there => exact .setStop .first i at_destory there
    next gone => exact .again i at_destory (Nat.le_of_not_lt gone)
  next i at_destory =>
    split
    next there => exact .setStop .second i at_destory there
    next gone => exact .finish i at_destory (Nat.le_of_not_lt gone)
  next i at_destory => exact .signal .first i at_destory
  next i at_destory => exact .signal .second i at_destory
  next i at_destory =>
    split
    next exited => exact .joined i at_destory exited
    next => exact .stays
  next => exact .stays

theorem Step.exec_move (s : State) (step : Step) : Move threadNum s (step.exec threadNum s) := by
  unfold Step.exec
  split
  next c index =>
    split
    next i picked =>
      split
      next may =>
        have idle := State.calls_of_mayCall (Bool.and_eq_true_iff.mp may).1
        exact .call c i idle (Index.worker_lt picked)
      next => exact .stays
    next => exact .stays
  next c =>
    split
    next call under => exact s.pushTask_move under
    next => exact .stays
  next i =>
    split
    next there => exact .execute i there _ ((s.workers i).execute_turn _)
    next => exact .stays
  next i =>
    split
    next => exact .wake i
    next => exact .stays
  next => exact s.stepDestory_move

/-- The invariant rule for runs of the pool. -/
theorem runPool_inv {Inv : State → Prop} (keep : ∀ s t, Inv s → Move threadNum s t → Inv t) (start : Inv .init)
    (steps : List Step) : Inv (runPool threadNum steps) :=
  Lib.run_inv (fun s step inv => keep s _ inv (step.exec_move s)) start steps

end Netter.Pool
