import Netter.Lib.Eventually
import Netter.Pool.Drain

/-!
# Every task is run

A worker that runs its tasks in order could still leave them. In an endless run in which every thread gets on and
nobody waits for ever for a mutex that is free again and again, the task of every call of `AddTask` is run and deleted,
unless its worker is stopped.
-/

namespace Netter.Pool

open Lib

/-- The worker does something when its thread gets the processor. -/
def Worker.acts (w : Worker) (calling : Bool) : Prop :=
  match w.pc with
  | .parked | .exited => False
  | .lock | .woken => w.owner = none
  | .running _ => calling = false
  | _ => True

/-- The worker waits for a mutex that nobody has. -/
def Worker.admitted (w : Worker) : Prop := (w.pc = .lock ∨ w.pc = .woken) ∧ w.owner = none

def Pc.isRunning : Pc → Bool
  | .running _ => true
  | _ => false

/-- A call waits for a mutex that nobody has. -/
def State.admitted (s : State) (c : Caller) : Prop :=
  ∃ call, s.calls c = some call ∧ call.pc = .lock ∧ (s.workers call.worker).owner = none

/-- The states of an endless run of a pool with `threadNum` workers. -/
def stateAt (threadNum : Nat) (steps : Nat → Step) : Nat → State := Lib.stateAt (Step.exec threadNum) .init steps

/-- A worker in such a run. -/
def workerAt (threadNum : Nat) (steps : Nat → Step) (i n : Nat) : Worker := (stateAt threadNum steps n).workers i

/-- Every thread gets on. -/
structure Fair (threadNum : Nat) (steps : Nat → Step) : Prop where
  worker : ∀ i, i < threadNum → ∀ n, Later (fun m => steps m = .execute i) n
  caller : ∀ c, WeakFair (fun n => (stateAt threadNum steps n).calls c ≠ none) fun n => steps n = .pushTask c
  /-- Who waits for a mutex that is free again and again gets it. -/
  workerLock : ∀ i, StrongFair (fun n => (workerAt threadNum steps i n).admitted) fun n => steps n = .execute i
  callerLock : ∀ c, StrongFair (fun n => (stateAt threadNum steps n).admitted c) fun n => steps n = .pushTask c
  /-- The run of a task comes to its end. -/
  tasks : ∀ i n, Later (fun m => (workerAt threadNum steps i m).pc.isRunning = false) n

variable {threadNum : Nat} {steps : Nat → Step} {s t : State} {step : Step} {w v : Worker} {c d : Caller} {i j k n m : Nat}
  {call : Call} {next : Option Call} {calling : Bool} {task : Task}

/-! ## What others do -/

/-- What the other threads leave of a worker. -/
structure Worker.Beside (w v : Worker) : Prop where
  pc : v.pc = w.pc ∨ w.pc = .parked ∧ v.pc = .woken
  tmpTaskList : v.tmpTaskList = w.tmpTaskList
  touched : v.touched = w.touched
  pushed : w.pushed <+: v.pushed
  stop : w.stop = true → v.stop = true

namespace Worker

theorem beside_self (w : Worker) : w.Beside w := ⟨.inl rfl, rfl, rfl, List.prefix_rfl, id⟩

theorem beside_signal (w : Worker) : w.Beside w.signal := by
  rcases w.signal_cases with ⟨same, _⟩ | ⟨parked, woken⟩
  · rw [same]
    exact w.beside_self
  · rw [woken]
    exact ⟨.inr ⟨parked, rfl⟩, rfl, rfl, List.prefix_rfl, id⟩

end Worker

theorem Pushes.beside (pushes : Pushes c call w v next) : w.Beside v := by
  cases pushes with
  | lock at_lock free => exact ⟨.inl rfl, rfl, rfl, List.prefix_rfl, id⟩
  | pushBack at_pushBack => exact ⟨.inl rfl, rfl, rfl, List.prefix_append _ _, id⟩
  | signal at_signal => exact w.beside_signal
  | unlock at_unlock => exact ⟨.inl rfl, rfl, rfl, List.prefix_rfl, id⟩

theorem State.beside_setWorker (s : State) (j : Nat) (here : (s.workers i).Beside v) :
    (s.workers j).Beside ((s.setWorker i v).workers j) := by
  refine State.setWorker_cases (P := fun u => (s.workers j).Beside u) (fun same => ?_) fun _ => Worker.beside_self _
  rw [same]
  exact here

/-- Steps of other threads. -/
theorem exec_beside (other : step ≠ .execute i) : (s.workers i).Beside ((step.exec threadNum s).workers i) := by
  cases step with
  | addTask c index =>
    simp only [Step.exec]
    split
    · split
      · exact Worker.beside_self _
      · exact Worker.beside_self _
    · exact Worker.beside_self _
  | pushTask c =>
    simp only [Step.exec]
    split
    next call under =>
      unfold State.pushTask
      cases pc : call.pc with
      | lock =>
        by_cases free : (s.workers call.worker).owner = none
        · simp only [if_pos free]
          exact s.beside_setWorker i (Pushes.lock (c := c) pc free).beside
        · simp only [if_neg free]
          exact Worker.beside_self _
      | pushBack => exact s.beside_setWorker i (Pushes.pushBack (c := c) pc).beside
      | signal => exact s.beside_setWorker i (Worker.beside_signal _)
      | unlock => exact s.beside_setWorker i (Pushes.unlock (c := c) pc).beside
    next => exact Worker.beside_self _
  | execute j =>
    simp only [Step.exec]
    split
    · have away : i ≠ j := fun same => other (congrArg Step.execute same.symm)
      rw [State.setWorker_ne s _ away]
      exact Worker.beside_self _
    · exact Worker.beside_self _
  | wake j =>
    simp only [Step.exec]
    split
    · exact s.beside_setWorker i (Worker.beside_signal _)
    · exact Worker.beside_self _
  | destory =>
    simp only [Step.exec]
    unfold State.stepDestory
    have stops (j : Nat) : (s.workers i).Beside ((s.setWorker j (s.workers j).setStop).workers i) :=
      s.beside_setWorker i ⟨.inl rfl, rfl, rfl, List.prefix_rfl, fun _ => rfl⟩
    split
    · exact Worker.beside_self _
    · split
      · exact stops _
      · exact Worker.beside_self _
    · split
      · exact stops _
      · exact Worker.beside_self _
    · exact s.beside_setWorker i (Worker.beside_signal _)
    · exact s.beside_setWorker i (Worker.beside_signal _)
    · split
      · exact Worker.beside_self _
      · exact Worker.beside_self _
    · exact Worker.beside_self _

/-- A call goes on only by steps of its thread. -/
theorem exec_calls (under : s.calls c = some call) (other : step ≠ .pushTask c) :
    (step.exec threadNum s).calls c = some call := by
  cases step with
  | addTask d index =>
    simp only [Step.exec]
    split
    · split
      next may =>
        have away : c ≠ d := by
          rintro rfl
          have idle := State.calls_of_mayCall (Bool.and_eq_true_iff.mp may).1
          rw [under] at idle
          cases idle
        exact (Function.update_of_ne away ..).trans under
      next => exact under
    · exact under
  | pushTask d =>
    have away : c ≠ d := fun same => other (congrArg Step.pushTask same.symm)
    simp only [Step.exec]
    split
    next active here =>
      unfold State.pushTask
      cases pc : active.pc with
      | lock =>
        by_cases free : (s.workers active.worker).owner = none
        · simp only [if_pos free]
          exact (Function.update_of_ne away ..).trans under
        · simp only [if_neg free]
          exact under
      | _ => exact (Function.update_of_ne away ..).trans under
    next => exact under
  | execute j =>
    simp only [Step.exec]
    split
    · exact under
    · exact under
  | wake j =>
    simp only [Step.exec]
    split
    · exact under
    · exact under
  | destory =>
    simp only [Step.exec]
    unfold State.stepDestory
    repeat' split
    all_goals exact under

/-! ## The next task -/

namespace Worker

/-- How many steps the worker takes at most until a task is deleted. -/
def rank (w : Worker) : Nat :=
  match w.pc with
  | .running _ => 0
  | .run _ => 1
  | .batch => if w.tmpTaskList = [] then 8 else 2
  | .unlock => if w.tmpTaskList = [] then 9 else 3
  | .swap => 4
  | .testEmpty => 5
  | .lock | .woken => 6
  | .head | .parked => 7
  | .testStop | .wait | .exited => 0

/-- How many until it has deleted more than `k` tasks. -/
def left (w : Worker) (k : Nat) : Nat := (k + 1 - w.done.length) * 10 + w.rank

/-- The worker is not stopped, and the task in place `k` of those pushed to it is not deleted. -/
structure Owes (w : Worker) (k : Nat) : Prop where
  pushed : k < w.pushed.length
  undone : w.done.length ≤ k
  goes : w.stop = false

theorem Owes.listed (owes : w.Owes k) (lined : w.Lined) (outside : w.pc.current = []) (none : w.tmpTaskList = []) :
    w.taskList ≠ [] := by
  intro empty
  have pushed := owes.pushed
  rw [lined.pushed, outside, none, empty, List.append_nil, List.append_nil, List.append_nil] at pushed
  exact absurd owes.undone (Nat.not_le_of_lt pushed)

theorem left_lt (same : v.touched = w.touched) (less : v.rank < w.rank) : v.left k < w.left k := by
  unfold left Worker.done
  rw [same]
  omega

theorem rank_le (w : Worker) : w.rank ≤ 9 := by
  unfold rank
  split
  all_goals first | omega | (split <;> omega)

/-- **Each step of the worker brings the next deletion closer.** -/
theorem execute_left (owes : w.Owes k) (lined : w.Lined) (empty : w.pc = .testStop ∨ w.pc = .wait → w.taskList = [])
    (acts : w.acts calling) : (w.execute calling).left k < w.left k := by
  have idle (outside : w.pc.current = []) (none : w.pc.inBatch = false) : w.taskList ≠ [] :=
    owes.listed lined outside (lined.noBatch none)
  cases pc : w.pc with
  | head =>
    have is : w.execute calling = { w with pc := .lock } := by simp [execute, pc, owes.goes]
    rw [is]
    exact left_lt rfl (by simp [rank, pc])
  | lock =>
    have free : w.owner = none := by simpa [Worker.acts, pc] using acts
    have is : w.execute calling = { w.lock .execute with pc := .testEmpty } := by simp [execute, pc, free]
    rw [is]
    exact left_lt rfl (by simp [rank, pc])
  | woken =>
    have free : w.owner = none := by simpa [Worker.acts, pc] using acts
    have is : w.execute calling = { w.lock .execute with pc := .testEmpty } := by simp [execute, pc, free]
    rw [is]
    exact left_lt rfl (by simp [rank, pc])
  | testEmpty =>
    have some := idle (by rw [pc]; rfl) (by rw [pc]; rfl)
    have is : w.execute calling = { w with pc := .swap } := by simp [execute, pc, some]
    rw [is]
    exact left_lt rfl (by simp [rank, pc])
  | testStop => exact absurd (empty (.inl pc)) (idle (by rw [pc]; rfl) (by rw [pc]; rfl))
  | wait => exact absurd (empty (.inr pc)) (idle (by rw [pc]; rfl) (by rw [pc]; rfl))
  | parked => simp [Worker.acts, pc] at acts
  | exited => simp [Worker.acts, pc] at acts
  | swap =>
    have some := idle (by rw [pc]; rfl) (by rw [pc]; rfl)
    have is : w.execute calling = { w with tmpTaskList := w.taskList, taskList := [], pc := .unlock } := by
      simp [execute, pc]
    rw [is]
    exact left_lt rfl (by simp [rank, pc, some])
  | unlock =>
    have is : w.execute calling = { w.unlock with pc := .batch } := by simp [execute, pc]
    rw [is]
    refine left_lt rfl ?_
    simp only [rank, pc, unlock]
    split
    · omega
    · omega
  | batch =>
    cases tmp : w.tmpTaskList with
    | nil =>
      have is : w.execute calling = { w with pc := .head } := by simp [execute, pc, tmp]
      rw [is]
      exact left_lt rfl (by simp [rank, pc, tmp])
    | cons task rest =>
      have is : w.execute calling = { w.touch (.setThreadIdx task) with tmpTaskList := rest, pc := .run task } := by
        simp [execute, pc, tmp]
      have done : (w.execute calling).done = w.done := by simp [is, Worker.done, touch, deletedTask]
      unfold left
      rw [done]
      simp [is, rank, pc, tmp]
  | run task =>
    have is : w.execute calling = { w.touch (.run task) with pc := .running task } := by simp [execute, pc]
    have done : (w.execute calling).done = w.done := by simp [is, Worker.done, touch, deletedTask]
    unfold left
    rw [done]
    simp [is, rank, pc]
  | running task =>
    have returned : calling = false := by simpa [Worker.acts, pc] using acts
    have is : w.execute calling = { w.touch (.delete task) with pc := .batch } := by
      simp [execute, pc, returned]
    have done : (w.execute calling).done.length = w.done.length + 1 := by
      simp [is, Worker.done, touch, deletedTask]
    have small := (w.execute calling).rank_le
    have undone := owes.undone
    unfold left
    rw [done]
    omega

theorem execute_stays (rests : ¬ w.acts calling) : w.execute calling = w := by
  cases pc : w.pc <;> simp_all [Worker.acts, execute]

/-- What decides what the worker does next. -/
structure Same (w v : Worker) : Prop where
  pc : v.pc = w.pc
  tmpTaskList : v.tmpTaskList = w.tmpTaskList
  touched : v.touched = w.touched

theorem Same.left (same : w.Same v) (k : Nat) : v.left k = w.left k := by
  unfold Worker.left Worker.rank Worker.done
  rw [same.pc, same.tmpTaskList, same.touched]

theorem Same.beside (same : w.Same v) (awake : w.pc ≠ .parked) {u : Worker} (beside : v.Beside u) : w.Same u := by
  refine ⟨?_, beside.tmpTaskList.trans same.tmpTaskList, beside.touched.trans same.touched⟩
  rcases beside.pc with kept | ⟨parked, _⟩
  · exact kept.trans same.pc
  · exact absurd (same.pc.symm.trans parked) awake

end Worker

/-! ## Runs -/

/-- Only a stopped worker leaves `Execute`. -/
def Exited (s : State) : Prop := ∀ i, (s.workers i).pc = .exited → (s.workers i).stop = true

theorem Exited.setWorker (exited : Exited s) (here : v.pc = .exited → v.stop = true) : Exited (s.setWorker i v) := by
  intro j
  exact State.setWorker_cases (P := fun u => u.pc = .exited → u.stop = true) (fun _ => here) fun _ => exited j

theorem Exited.signal (exited : Exited s) (i : Nat) : Exited (s.setWorker i (s.workers i).signal) := by
  refine exited.setWorker fun gone => ?_
  rw [Worker.signal_stop]
  rcases (s.workers i).signal_cases with ⟨same, _⟩ | ⟨_, woken⟩
  · rw [same] at gone
    exact exited i gone
  · rw [woken] at gone
    cases gone

theorem Exited.move (exited : Exited s) (move : Move threadNum s t) : Exited t := by
  cases move with
  | push c call under w next pushes added adds =>
    cases pushes with
    | signal at_signal => exact exited.signal call.worker
    | _ => exact exited.setWorker (exited call.worker)
  | execute i there w turn =>
    refine exited.setWorker fun gone => ?_
    cases turn with
    | stays => exact exited i gone
    | leave at_head stopped => exact stopped
    | _ => cases gone
  | wake i => exact exited.signal i
  | setStop round i at_set there => exact exited.setWorker fun _ => rfl
  | signal round i at_signal => exact exited.signal i
  | _ => exact exited

structure Sound (threadNum : Nat) (s : State) : Prop where
  inv : Inv s
  added : Added threadNum s
  exited : Exited s

theorem sound_stateAt (threadNum : Nat) (steps : Nat → Step) (n : Nat) : Sound threadNum (stateAt threadNum steps n) := by
  refine stateAt_inv (fun s step sound => ?_) ⟨.init, ⟨nofun, nofun, nofun⟩, nofun⟩ n
  have move : Move threadNum s (step.exec threadNum s) := step.exec_move s
  exact ⟨sound.inv.move move, sound.added.move move, sound.exited.move move⟩

theorem workerAt_execute (there : i < threadNum) (now : steps n = .execute i) : workerAt threadNum steps i (n + 1) =
    (workerAt threadNum steps i n).execute ((stateAt threadNum steps n).calls (.task i)).isSome := by
  show ((steps n).exec threadNum (stateAt threadNum steps n)).workers i = _
  rw [now]
  simp only [Step.exec, if_pos there, State.setWorker_self]
  rfl

theorem workerAt_beside (other : steps n ≠ .execute i) :
    (workerAt threadNum steps i n).Beside (workerAt threadNum steps i (n + 1)) := exec_beside other

theorem pushed_succ (n : Nat) : (workerAt threadNum steps i n).pushed <+: (workerAt threadNum steps i (n + 1)).pushed := by
  by_cases now : steps n = .execute i
  · have kept : (workerAt threadNum steps i (n + 1)).pushed = (workerAt threadNum steps i n).pushed := by
      by_cases there : i < threadNum
      · rw [workerAt_execute there now, (Worker.execute_turn _ _).pushed]
      · have same : stateAt threadNum steps (n + 1) = stateAt threadNum steps n := by
          show (steps n).exec threadNum _ = _
          rw [now]
          exact if_neg there
        rw [workerAt, workerAt, same]
    exact ⟨[], by rw [List.append_nil, kept]⟩
  · exact (workerAt_beside now).pushed

theorem pushed_grows (least : n ≤ m) :
    (workerAt threadNum steps i n).pushed <+: (workerAt threadNum steps i m).pushed := by
  obtain ⟨k, rfl⟩ := Nat.exists_eq_add_of_le least
  clear least
  induction k with
  | zero => exact List.prefix_rfl
  | succ k ih => exact ih.trans (pushed_succ (n + k))

/-- The worker takes the step it is before at `n`. -/
structure Acts (threadNum : Nat) (steps : Nat → Step) (i n m : Nat) : Prop where
  now : steps m = .execute i
  acts : (workerAt threadNum steps i m).acts ((stateAt threadNum steps m).calls (.task i)).isSome
  same : (workerAt threadNum steps i n).Same (workerAt threadNum steps i m)

theorem acts_or_same (there : i < threadNum) (awake : (workerAt threadNum steps i n).pc ≠ .parked)
    (same : (workerAt threadNum steps i n).Same (workerAt threadNum steps i m)) :
    Acts threadNum steps i n m ∨ (workerAt threadNum steps i n).Same (workerAt threadNum steps i (m + 1)) := by
  by_cases now : steps m = .execute i
  · by_cases acts : (workerAt threadNum steps i m).acts ((stateAt threadNum steps m).calls (.task i)).isSome
    · exact .inl ⟨now, acts, same⟩
    · rw [workerAt_execute there now, Worker.execute_stays acts]
      exact .inr same
  · exact .inr (same.beside awake (workerAt_beside now))

/-! ## Phases -/

/-- A step that nobody can hold up. -/
def Pc.plain : Pc → Bool
  | .lock | .woken | .parked | .running _ | .exited => false
  | _ => true

theorem Pc.plain_of_holds {pc : Pc} (holds : pc.holds = true) : pc.plain = true := by
  cases pc <;> first | rfl | cases holds

theorem Worker.acts_of_plain (plain : w.pc.plain = true) (calling : Bool) : w.acts calling := by
  cases pc : w.pc <;> simp_all [Worker.acts, Pc.plain]

/-- How many steps the worker is from the end of its time in the mutex, at most. -/
def Pc.inside : Pc → Nat
  | .testEmpty => 3
  | .testStop => 2
  | .swap => 1
  | _ => 0

theorem Worker.execute_inside (holds : w.pc.holds = true) (calling : Bool) :
    (w.execute calling).owner = none ∨ (w.execute calling).pc.inside < w.pc.inside := by
  cases pc : w.pc with
  | testEmpty =>
    right
    simp only [execute, pc]
    split
    · decide
    · decide
  | testStop =>
    right
    simp only [execute, pc]
    split
    · decide
    · decide
  | swap =>
    right
    simp only [execute, pc]
    decide
  | wait =>
    left
    simp only [execute, pc]
    rfl
  | unlock =>
    left
    simp only [execute, pc]
    rfl
  | _ =>
    rw [pc] at holds
    cases holds

namespace Fair

variable (fair : Fair threadNum steps)
include fair

theorem acts_of_plain (there : i < threadNum) (plain : (workerAt threadNum steps i n).pc.plain = true) :
    Later (Acts threadNum steps i n) n := by
  have awake : (workerAt threadNum steps i n).pc ≠ .parked := by
    intro parked
    rw [parked] at plain
    cases plain
  refine later_until (P := fun m => (workerAt threadNum steps i n).Same (workerAt threadNum steps i m)) ⟨rfl, rfl, rfl⟩
    (fun m _ same => (acts_or_same there awake same).imp_right .inl) ((fair.worker i there n).mono fun m _ now same => ?_)
  exact ⟨now, Worker.acts_of_plain (same.pc ▸ plain) _, same⟩

/-- A call takes the step it is before. -/
theorem call_steps (under : (stateAt threadNum steps n).calls c = some call) :
    Later (fun m => steps m = .pushTask c ∧ (stateAt threadNum steps m).calls c = some call) n := by
  refine later_until (P := fun m => (stateAt threadNum steps m).calls c = some call) under (fun m _ under => ?_)
    ((fair.caller c n).mono fun m _ taken under => ?_)
  · by_cases now : steps m = .pushTask c
    · exact .inl ⟨now, under⟩
    · exact .inr (.inl (exec_calls under now))
  · have busy : (stateAt threadNum steps m).calls c ≠ none := by
      rw [under]
      nofun
    exact ⟨taken busy, under⟩

theorem frees_of_unlock (under : (stateAt threadNum steps n).calls c = some call) (at_unlock : call.pc = .unlock) :
    Later (fun m => (workerAt threadNum steps call.worker m).owner = none) n := by
  refine (fair.call_steps under).trans fun m _ taken => ⟨m + 1, Nat.le_succ m, ?_⟩
  show (((steps m).exec threadNum (stateAt threadNum steps m)).workers call.worker).owner = none
  rw [taken.1]
  simp only [Step.exec, taken.2, State.pushTask, at_unlock]
  exact congrArg Worker.owner (State.setWorker_self ..)

theorem frees_of_signal (under : (stateAt threadNum steps n).calls c = some call) (at_signal : call.pc = .signal) :
    Later (fun m => (workerAt threadNum steps call.worker m).owner = none) n := by
  refine (fair.call_steps under).trans fun m _ taken => ?_
  have next : (stateAt threadNum steps (m + 1)).calls c = some { call with pc := .unlock } := by
    show ((steps m).exec threadNum (stateAt threadNum steps m)).calls c = _
    rw [taken.1]
    simp only [Step.exec, taken.2, State.pushTask, at_signal]
    exact Function.update_self ..
  obtain ⟨k, after, free⟩ := fair.frees_of_unlock next rfl
  exact ⟨k, by omega, free⟩

theorem frees_of_pushBack (under : (stateAt threadNum steps n).calls c = some call) (at_pushBack : call.pc = .pushBack) :
    Later (fun m => (workerAt threadNum steps call.worker m).owner = none) n := by
  refine (fair.call_steps under).trans fun m _ taken => ?_
  have next : (stateAt threadNum steps (m + 1)).calls c = some { call with pc := .signal } := by
    show ((steps m).exec threadNum (stateAt threadNum steps m)).calls c = _
    rw [taken.1]
    simp only [Step.exec, taken.2, State.pushTask, at_pushBack]
    exact Function.update_self ..
  obtain ⟨k, after, free⟩ := fair.frees_of_signal next rfl
  exact ⟨k, by omega, free⟩

/-- **The mutex of a worker is free again and again.** -/
theorem frees (there : i < threadNum) (n : Nat) : Later (fun m => (workerAt threadNum steps i m).owner = none) n := by
  refine later_of_decreasing (fun m => (workerAt threadNum steps i m).pc.inside) fun m _ taken => ?_
  have locked := (sound_stateAt threadNum steps m).inv.locked i
  cases owner : (workerAt threadNum steps i m).owner with
  | none => exact absurd owner taken
  | some holder =>
    cases holder with
    | pushTask c =>
      obtain ⟨call, under, rfl, inside⟩ := (locked.pushTask c).mp owner
      have free : Later (fun m => (workerAt threadNum steps call.worker m).owner = none) m := by
        cases pc : call.pc with
        | lock => exact absurd pc inside
        | pushBack => exact fair.frees_of_pushBack under pc
        | signal => exact fair.frees_of_signal under pc
        | unlock => exact fair.frees_of_unlock under pc
      exact free.mono fun k _ free => .inl free
    | execute =>
      have holds := locked.execute.mp owner
      obtain ⟨k, after, acts⟩ := fair.acts_of_plain there (Pc.plain_of_holds holds)
      have goes := Worker.execute_inside (acts.same.pc.symm ▸ holds) ((stateAt threadNum steps k).calls (.task i)).isSome
      rw [← workerAt_execute there acts.now, acts.same.pc] at goes
      exact ⟨k + 1, by omega, goes⟩

/-- **A worker takes the step it is before**, when it is not asleep. -/
theorem acts (there : i < threadNum) (awake : (workerAt threadNum steps i n).pc ≠ .parked)
    (inside : (workerAt threadNum steps i n).pc ≠ .exited) : Later (Acts threadNum steps i n) n := by
  have keep (m : Nat) (_ : n ≤ m) (same : (workerAt threadNum steps i n).Same (workerAt threadNum steps i m)) :
      Acts threadNum steps i n m ∨ (workerAt threadNum steps i n).Same (workerAt threadNum steps i (m + 1)) ∨
        Acts threadNum steps i n (m + 1) :=
    (acts_or_same there awake same).imp_right .inl
  have of_lock (waits : (workerAt threadNum steps i n).pc = .lock ∨ (workerAt threadNum steps i n).pc = .woken) :
      Later (Acts threadNum steps i n) n := by
    refine (fair.workerLock i).later (P := fun m => (workerAt threadNum steps i n).Same (workerAt threadNum steps i m))
      ⟨rfl, rfl, rfl⟩ keep (fun m _ _ => (fair.frees there m).mono fun k _ free same => ?_)
      fun m _ same admitted now => ⟨m, Nat.le_refl m, now, ?_, same⟩
    · exact ⟨by rwa [same.pc], free⟩
    · rcases admitted.1 with pc | pc
      · simp [Worker.acts, pc, admitted.2]
      · simp [Worker.acts, pc, admitted.2]
  cases pc : (workerAt threadNum steps i n).pc with
  | lock => exact of_lock (.inl pc)
  | woken => exact of_lock (.inr pc)
  | parked => exact absurd pc awake
  | exited => exact absurd pc inside
  | running task =>
    refine later_until (P := fun m => (workerAt threadNum steps i n).Same (workerAt threadNum steps i m)) ⟨rfl, rfl, rfl⟩ keep
      ((fair.tasks i n).mono fun m _ returned same => ?_)
    rw [same.pc, pc] at returned
    cases returned
  | _ => exact fair.acts_of_plain there (by rw [pc]; rfl)

/-- A worker that sleeps beside a task is woken up. -/
theorem wakes (there : i < threadNum) (parked : (workerAt threadNum steps i n).pc = .parked)
    (some : (workerAt threadNum steps i n).taskList ≠ []) (k : Nat) :
    Later (fun m => (workerAt threadNum steps i m).left k < (workerAt threadNum steps i n).left k) n := by
  obtain ⟨c, task, under⟩ := ((sound_stateAt threadNum steps n).inv.locked i).signalled parked some
  refine later_until (P := fun m => (workerAt threadNum steps i n).Same (workerAt threadNum steps i m)) ⟨rfl, rfl, rfl⟩
    (fun m _ same => .inr ?_) ((fair.call_steps under).trans fun m _ taken => ⟨m + 1, Nat.le_succ m, fun same => ?_⟩)
  · by_cases now : steps m = .execute i
    · have rests : ¬ (workerAt threadNum steps i m).acts ((stateAt threadNum steps m).calls (.task i)).isSome := by
        simp [Worker.acts, same.pc.trans parked]
      rw [workerAt_execute there now, Worker.execute_stays rests]
      exact .inl same
    · have beside : (workerAt threadNum steps i m).Beside _ := workerAt_beside now
      have touched := beside.touched.trans same.touched
      rcases beside.pc with kept | ⟨_, woken⟩
      · exact .inl ⟨kept.trans same.pc, beside.tmpTaskList.trans same.tmpTaskList, touched⟩
      · exact .inr (Worker.left_lt touched (by simp [Worker.rank, parked, woken]))
  · have awake : (workerAt threadNum steps i (m + 1)).pc ≠ .parked := by
      show (((steps m).exec threadNum (stateAt threadNum steps m)).workers i).pc ≠ _
      rw [taken.1]
      simp only [Step.exec, taken.2, State.pushTask]
      show ((State.setWorker _ i _).workers i).pc ≠ _
      rw [State.setWorker_self]
      exact Worker.signal_not_parked _
    exact absurd (same.pc.trans parked) awake

/-- The worker gets to the task in place `k`. -/
theorem gets_to (there : i < threadNum) (pushed : k < (workerAt threadNum steps i n).pushed.length) :
    Later (fun m => k < (workerAt threadNum steps i m).done.length ∨ (workerAt threadNum steps i m).stop = true) n := by
  refine later_of_decreasing (fun m => (workerAt threadNum steps i m).left k) fun m least not_yet => ?_
  have owes {j : Nat} (after : n ≤ j) (undone : (workerAt threadNum steps i j).done.length ≤ k)
      (goes : (workerAt threadNum steps i j).stop = false) : (workerAt threadNum steps i j).Owes k :=
    ⟨Nat.lt_of_lt_of_le pushed (pushed_grows after).length_le, undone, goes⟩
  have sound := sound_stateAt threadNum steps m
  obtain ⟨undone, goes⟩ := not_or.mp not_yet
  have here := owes least (Nat.le_of_not_lt undone) (eq_false_of_ne_true goes)
  by_cases parked : (workerAt threadNum steps i m).pc = .parked
  · have lined := sound.inv.lined i
    have some := here.listed lined (by rw [parked]; rfl) (lined.noBatch (by
      show (workerAt threadNum steps i m).pc.inBatch = false
      rw [parked]
      rfl))
    exact (fair.wakes there parked some k).mono fun j _ less => .inr less
  · obtain ⟨j, after, acts⟩ := fair.acts there parked fun gone => goes (sound.exited i gone)
    by_cases stopped : (workerAt threadNum steps i j).stop = true
    · exact ⟨j, after, .inl (.inr stopped)⟩
    · have done : (workerAt threadNum steps i j).done = (workerAt threadNum steps i m).done := by
        unfold Worker.done
        rw [acts.same.touched]
      have there' := owes (Nat.le_trans least after) (done ▸ here.undone) (eq_false_of_ne_true stopped)
      have sound := sound_stateAt threadNum steps j
      have less := Worker.execute_left there' (sound.inv.lined i) (sound.inv.locked i).empty acts.acts
      rw [← workerAt_execute there acts.now, acts.same.left] at less
      exact ⟨j + 1, by omega, .inr less⟩

theorem runs_pushed (there : i < threadNum) (pushed : task ∈ (workerAt threadNum steps i n).pushed) :
    Later (fun m => task ∈ (workerAt threadNum steps i m).done ∨ (workerAt threadNum steps i m).stop = true) n := by
  obtain ⟨before, behind, split⟩ := List.append_of_mem pushed
  have inside : before.length < (workerAt threadNum steps i n).pushed.length := by simp [split]
  refine (fair.gets_to there inside).mono fun m least either => either.imp_left fun more => ?_
  have whole : before ++ [task] <+: (workerAt threadNum steps i m).pushed := by
    refine List.IsPrefix.trans ?_ (pushed_grows least)
    simp [split]
  have done : (workerAt threadNum steps i m).done <+: (workerAt threadNum steps i m).pushed := by
    have lined := (sound_stateAt threadNum steps m).inv.lined i
    have pushed : (workerAt threadNum steps i m).pushed = _ := lined.pushed
    rw [pushed, List.append_assoc, List.append_assoc]
    exact List.prefix_append _ _
  have front : before ++ [task] <+: (workerAt threadNum steps i m).done :=
    List.prefix_of_prefix_length_le whole done (by rw [List.length_append]; exact more)
  exact front.subset (List.mem_append_right _ List.mem_cons_self)

theorem pushes_of_pushBack (under : (stateAt threadNum steps n).calls c = some call) (at_pushBack : call.pc = .pushBack) :
    Later (fun m => call.task ∈ (workerAt threadNum steps call.worker m).pushed) n := by
  refine (fair.call_steps under).trans fun m _ taken => ⟨m + 1, Nat.le_succ m, ?_⟩
  show call.task ∈ (((steps m).exec threadNum (stateAt threadNum steps m)).workers call.worker).pushed
  rw [taken.1]
  simp only [Step.exec, taken.2, State.pushTask, at_pushBack]
  show call.task ∈ ((State.setWorker _ call.worker _).workers call.worker).pushed
  rw [State.setWorker_self]
  exact List.mem_append_right _ List.mem_cons_self

/-- `PushTask` gets the mutex. -/
theorem pushes_of_lock (there : call.worker < threadNum) (under : (stateAt threadNum steps n).calls c = some call)
    (at_lock : call.pc = .lock) : Later (fun m => call.task ∈ (workerAt threadNum steps call.worker m).pushed) n := by
  have got : Later (fun m => (stateAt threadNum steps m).calls c = some { call with pc := .pushBack }) n := by
    have takes (m : Nat) (under : (stateAt threadNum steps m).calls c = some call) (now : steps m = .pushTask c)
        (free : ((stateAt threadNum steps m).workers call.worker).owner = none) :
        (stateAt threadNum steps (m + 1)).calls c = some { call with pc := .pushBack } := by
      show ((steps m).exec threadNum (stateAt threadNum steps m)).calls c = _
      rw [now]
      simp only [Step.exec, under, State.pushTask, at_lock]
      rw [if_pos free]
      exact Function.update_self ..
    refine (fair.callerLock c).later (P := fun m => (stateAt threadNum steps m).calls c = some call) under
      (fun m _ under => .inr ?_) (fun m _ _ => (fair.frees there m).mono fun k _ free under => ⟨call, under, at_lock, free⟩)
      fun m _ under admitted now => ⟨m + 1, Nat.le_succ m, ?_⟩
    · by_cases now : steps m = .pushTask c
      · by_cases free : ((stateAt threadNum steps m).workers call.worker).owner = none
        · exact .inr (takes m under now free)
        · left
          show ((steps m).exec threadNum (stateAt threadNum steps m)).calls c = _
          rw [now]
          simp only [Step.exec, under, State.pushTask, at_lock]
          rw [if_neg free]
          exact under
      · exact .inl (exec_calls under now)
    · obtain ⟨same, is, _, free⟩ := admitted
      rw [under] at is
      cases is
      exact takes m under now free
  refine got.trans fun m _ under => ?_
  have pushed := fair.pushes_of_pushBack under rfl
  exact pushed

end Fair

/-! ## What is bound to happen -/

/-- **The task of every call of `AddTask` is run and deleted**, if its worker is not stopped. -/
theorem task_runs (fair : Fair threadNum steps) (under : (stateAt threadNum steps n).calls c = some call) :
    Later (fun m => call.task ∈ (workerAt threadNum steps call.worker m).done ∨
      (workerAt threadNum steps call.worker m).stop = true) n := by
  have sound := sound_stateAt threadNum steps n
  have there := sound.added.called c call under
  have pushed : Later (fun m => call.task ∈ (workerAt threadNum steps call.worker m).pushed) n := by
    cases pc : call.pc with
    | lock => exact fair.pushes_of_lock there under pc
    | pushBack => exact fair.pushes_of_pushBack under pc
    | signal => exact ⟨n, Nat.le_refl n, sound.added.late c call under (by simp [Call.pending, pc])⟩
    | unlock => exact ⟨n, Nat.le_refl n, sound.added.late c call under (by simp [Call.pending, pc])⟩
  exact pushed.trans fun m _ pushed => fair.runs_pushed there pushed

/-! ## A schedule -/

/-- A thread adds a task, and the only worker runs it and goes to sleep. -/
def oneTask : Nat → Step
  | 0 => .addTask (.other 0) (.given 0)
  | 1 | 2 | 3 | 4 => .pushTask (.other 0)
  | _ => .execute 0

theorem oneTask_asleep (k : Nat) : stateAt 1 oneTask (k + 25) = stateAt 1 oneTask 25 := by
  induction k with
  | zero => rfl
  | succ k ih =>
    show (oneTask (k + 25)).exec 1 (stateAt 1 oneTask (k + 25)) = _
    rw [ih]
    show State.setWorker _ 0 ((State.workers _ 0)) = _
    rw [State.setWorker, Function.update_eq_self]

theorem oneTask_fair : Fair 1 oneTask := by
  have later {P : Nat → Prop} (n : Nat) (holds : ∀ k, P (k + 25)) : Later P n := ⟨n + 25, Nat.le_add_right n 25, holds n⟩
  have idle (c : Caller) (k : Nat) : (stateAt 1 oneTask (k + 25)).calls c = none := by
    rw [oneTask_asleep]
    cases c with
    | other number => cases number <;> rfl
    | task i => rfl
  have asleep (i k : Nat) : (workerAt 1 oneTask i (k + 25)).pc = .parked ∨ (workerAt 1 oneTask i (k + 25)).pc = .head := by
    rw [workerAt, oneTask_asleep]
    cases i with
    | zero => exact .inl rfl
    | succ i => exact .inr rfl
  constructor
  · intro i there n
    obtain rfl : i = 0 := by omega
    exact later n fun _ => rfl
  · exact fun c n => later n fun k busy => absurd (idle c k) busy
  · intro i often
    obtain ⟨m, least, waits, -⟩ := often 25
    obtain ⟨k, rfl⟩ := Nat.exists_eq_add_of_le' least
    rcases asleep i k with is | is <;> simp [is] at waits
  · intro c often
    obtain ⟨m, least, call, under, -⟩ := often 25
    obtain ⟨k, rfl⟩ := Nat.exists_eq_add_of_le' least
    rw [idle] at under
    cases under
  · intro i n
    refine later n fun k => ?_
    rcases asleep i k with is | is
    · rw [is]
      rfl
    · rw [is]
      rfl

theorem task_runs_oneTask : Later (fun m => 0 ∈ (workerAt 1 oneTask 0 m).done ∨ (workerAt 1 oneTask 0 m).stop = true) 1 := by
  have under : (stateAt 1 oneTask 1).calls (.other 0) = some ⟨0, 0, .lock⟩ := rfl
  exact task_runs oneTask_fair under

end Netter.Pool
