import Netter.Pool.Stop

/-!
# What `Destory` leaves behind

A worker that leaves `Execute` at the head of its loop does not look at `m_task_list` any more. The
tasks that are added before `Destory` are all run if and only if each worker, at the moment its flag is
set, has none of them in its list or is still on the way from the head of the loop to the swap.
-/

namespace Netter.Pool

/-- The worker has tested the flag at the head of its loop and has not swapped the lists yet. -/
def Pc.beforeSwap : Pc → Bool
  | .lock | .testEmpty | .testStop | .wait | .parked | .woken | .swap => true
  | _ => false

/-- A stopped worker that will not swap its list again. -/
structure Worker.Strands (w : Worker) (task : Task) : Prop where
  stop : w.stop = true
  past : w.pc.beforeSwap = false
  listed : task ∈ w.taskList

/-- An added task is left behind. -/
def Stranded (s : State) : Prop := ∃ i, ∃ task ∈ s.added, (s.workers i).Strands task

/-- The first `Stop` of a worker finds none of the added tasks in its list, or the worker before its swap. -/
def Step.MeetsStop (threadNum : Nat) (s : State) (step : Step) : Prop :=
  step = .destory → ∀ i, i < threadNum → s.destory = .setStop .first i →
    (s.workers i).pc.beforeSwap = true ∨ ∀ task ∈ s.added, task ∉ (s.workers i).taskList

instance (threadNum : Nat) (s : State) : (step : Step) → Decidable (step.MeetsStop threadNum s)
  | .destory => decidable_of_iff (∀ i, i < threadNum → s.destory = .setStop .first i →
      (s.workers i).pc.beforeSwap = true ∨ ∀ task ∈ s.added, task ∉ (s.workers i).taskList) ⟨fun h _ => h, fun h => h rfl⟩
  | .addTask _ _ => .isTrue nofun
  | .pushTask _ => .isTrue nofun
  | .execute _ => .isTrue nofun
  | .wake _ => .isTrue nofun

/-- Every added task is run once and deleted, by one worker, and none is left in a list. -/
structure Drained (threadNum : Nat) (s : State) : Prop where
  ran : ∀ task ∈ s.added, ∃ i, i < threadNum ∧ (s.workers i).touched.count (.run task) = 1 ∧
    (s.workers i).touched.count (.delete task) = 1 ∧ ∀ j, j ≠ i → ∀ touch ∈ (s.workers j).touched, touch.task ≠ task
  noneLeft : ∀ task ∈ s.added, ∀ i, task ∉ (s.workers i).taskList

variable {threadNum : Nat} {s t : State} {w v : Worker} {c d : Caller} {i j : Nat} {call : Call}
  {next : Option Call} {calling : Bool} {task : Task}

/-- The added tasks have been pushed. -/
structure Added (threadNum : Nat) (s : State) : Prop where
  pushed : ∀ task ∈ s.added, ∃ i, i < threadNum ∧ task ∈ (s.workers i).pushed
  called : ∀ c call, s.calls c = some call → call.worker < threadNum
  late : ∀ c call, s.calls c = some call → ¬ call.pending → call.task ∈ (s.workers call.worker).pushed

theorem Pushes.pushed (pushes : Pushes c call w v next) (member : task ∈ w.pushed) : task ∈ v.pushed := by
  cases pushes with
  | pushBack at_pushBack => exact List.mem_append_left _ member
  | signal at_signal => rwa [Worker.signal_pushed]
  | _ => exact member

/-- A call that has put its task into the list. -/
theorem Pushes.late (pushes : Pushes c call w v next) (before : ¬ call.pending → call.task ∈ w.pushed) :
    ∀ later, next = some later → ¬ later.pending → later.task ∈ v.pushed := by
  intro later is past
  cases pushes with
  | lock at_lock free =>
    cases is
    exact absurd (.inr rfl) past
  | pushBack at_pushBack =>
    cases is
    exact List.mem_append_right _ List.mem_cons_self
  | signal at_signal =>
    cases is
    rw [Worker.signal_pushed]
    apply before
    rintro (at_lock | at_pushBack)
    · rw [at_lock] at at_signal
      cases at_signal
    · rw [at_pushBack] at at_signal
      cases at_signal
  | unlock at_unlock => cases is

theorem Added.setWorker (added : Added threadNum s) (kept : ∀ task ∈ (s.workers i).pushed, task ∈ v.pushed) :
    Added threadNum (s.setWorker i v) := by
  have grown (j : Nat) (task : Task) (member : task ∈ (s.workers j).pushed) :
      task ∈ ((s.setWorker i v).workers j).pushed := by
    refine State.setWorker_cases (P := (task ∈ ·.pushed)) (fun same => ?_) fun _ => member
    subst same
    exact kept task member
  constructor
  · intro task member
    obtain ⟨j, there, inside⟩ := added.pushed task member
    exact ⟨j, there, grown j task inside⟩
  · exact added.called
  · intro c call under past
    exact grown call.worker call.task (added.late c call under past)

theorem Added.push {tasks : List Task} (added : Added threadNum s) (under : s.calls c = some call)
    (pushes : Pushes c call (s.workers call.worker) v next)
    (adds : tasks = s.added ∨ s.destory = .notCalled ∧ call.pc = .unlock ∧ tasks = s.added ++ [call.task]) :
    Added threadNum { (s.setWorker call.worker v).setCall c next with added := tasks } := by
  have kept := added.setWorker fun _ => pushes.pushed
  have there := added.called c call under
  constructor
  · intro task member
    rcases adds with rfl | ⟨_, at_unlock, rfl⟩
    · exact kept.pushed task member
    · rcases List.mem_append.mp member with old | last
      · exact kept.pushed task old
      · rw [List.mem_singleton.mp last]
        refine ⟨call.worker, there, kept.late c call under ?_⟩
        rintro (at_lock | at_pushBack)
        · rw [at_lock] at at_unlock
          cases at_unlock
        · rw [at_pushBack] at at_unlock
          cases at_unlock
  · intro d later is
    rcases State.calls_of_setCall is with ⟨_, set⟩ | ⟨_, was⟩
    · rw [pushes.worker later set]
      exact there
    · exact added.called d later was
  · intro d later is past
    rcases State.calls_of_setCall is with ⟨_, set⟩ | ⟨_, was⟩
    · show later.task ∈ ((s.setWorker call.worker v).workers later.worker).pushed
      rw [pushes.worker later set, State.setWorker_self]
      exact pushes.late (added.late c call under) later set past
    · exact kept.late d later was past

theorem Added.move (added : Added threadNum s) (move : Move threadNum s t) : Added threadNum t := by
  have signal (i : Nat) : Added threadNum (s.setWorker i (s.workers i).signal) :=
    added.setWorker fun task member => by rwa [Worker.signal_pushed]
  cases move with
  | stays => exact added
  | call c i idle there =>
    refine ⟨added.pushed, fun d call is => ?_, fun d call is past => ?_⟩
    · rcases State.calls_of_setCall is with ⟨_, new⟩ | ⟨_, was⟩
      · cases new
        exact there
      · exact added.called d call was
    · rcases State.calls_of_setCall is with ⟨_, new⟩ | ⟨_, was⟩
      · cases new
        exact absurd (.inl rfl) past
      · exact added.late d call was past
  | push c call under w next pushes tasks adds => exact added.push under pushes adds
  | execute i there w turn => exact added.setWorker fun task member => turn.pushed ▸ member
  | wake i => exact signal i
  | begin fresh => exact ⟨added.pushed, added.called, added.late⟩
  | again i at_first all => exact ⟨added.pushed, added.called, added.late⟩
  | finish i at_second all => exact ⟨added.pushed, added.called, added.late⟩
  | setStop round i at_set there =>
    have kept : Added threadNum (s.setWorker i (s.workers i).setStop) := added.setWorker fun _ member => member
    exact ⟨kept.pushed, kept.called, kept.late⟩
  | signal round i at_signal => exact ⟨(signal i).pushed, (signal i).called, (signal i).late⟩
  | joined i at_join exited => exact ⟨added.pushed, added.called, added.late⟩

/-! ## A task that is left behind -/

theorem Worker.Strands.turn (strands : w.Strands task) (turn : Turn calling w v) : v.Strands task := by
  obtain ⟨stop, past, listed⟩ := strands
  have absurd_pc {pc : Pc} (at_pc : w.pc = pc) (before : pc.beforeSwap = true) : v.Strands task := by
    rw [at_pc, before] at past
    cases past
  cases turn with
  | stays => exact ⟨stop, past, listed⟩
  | enter at_head goes =>
    rw [stop] at goes
    cases goes
  | leave at_head stopped => exact ⟨stop, rfl, listed⟩
  | lock outside free =>
    rcases outside with at_lock | at_woken
    · exact absurd_pc at_lock rfl
    · exact absurd_pc at_woken rfl
  | empty at_test none => exact absurd_pc at_test rfl
  | filled at_test some => exact absurd_pc at_test rfl
  | stopped at_test stopped => exact absurd_pc at_test rfl
  | goes at_test goes => exact absurd_pc at_test rfl
  | park at_wait => exact absurd_pc at_wait rfl
  | swap at_swap => exact absurd_pc at_swap rfl
  | unlock at_unlock => exact ⟨stop, rfl, listed⟩
  | done at_batch none => exact ⟨stop, rfl, listed⟩
  | take at_batch task rest first => exact ⟨stop, rfl, listed⟩
  | run task at_run => exact ⟨stop, rfl, listed⟩
  | delete task at_running idle => exact ⟨stop, rfl, listed⟩

/-- A step of `Execute` leaves nothing behind: the list is empty after the swap. -/
theorem Worker.Strands.of_turn (strands : v.Strands task) (turn : Turn calling w v) : w.Strands task := by
  obtain ⟨stop, past, listed⟩ := strands
  have same {pc : Pc} (at_pc : w.pc = pc) (after : pc.beforeSwap = false) (stop : w.stop = true)
      (listed : task ∈ w.taskList) : w.Strands task := by
    refine ⟨stop, ?_, listed⟩
    rw [at_pc]
    exact after
  cases turn with
  | stays => exact ⟨stop, past, listed⟩
  | enter at_head goes => cases past
  | leave at_head stopped => exact same at_head rfl stop listed
  | lock outside free => cases past
  | empty at_test none => cases past
  | filled at_test some => cases past
  | stopped at_test stopped => cases past
  | goes at_test goes => cases past
  | park at_wait => cases past
  | swap at_swap => cases listed
  | unlock at_unlock => exact same at_unlock rfl stop listed
  | done at_batch none => exact same at_batch rfl stop listed
  | take at_batch task rest first => exact same at_batch rfl stop listed
  | run task at_run => exact same at_run rfl stop listed
  | delete task at_running idle => exact same at_running rfl stop listed

theorem Worker.strands_signal : w.signal.Strands task ↔ w.Strands task := by
  have pc : w.signal.pc.beforeSwap = w.pc.beforeSwap := by
    rcases w.signal_cases with ⟨same, _⟩ | ⟨parked, woken⟩
    · rw [same]
    · rw [woken, parked]
      rfl
  constructor
  · rintro ⟨stop, past, listed⟩
    rw [signal_stop] at stop
    rw [pc] at past
    rw [signal_taskList] at listed
    exact ⟨stop, past, listed⟩
  · rintro ⟨stop, past, listed⟩
    constructor
    · rwa [signal_stop]
    · rwa [pc]
    · rwa [signal_taskList]

theorem Worker.Strands.pushes (strands : w.Strands task) (pushes : Pushes c call w v next) : v.Strands task := by
  cases pushes with
  | lock at_lock free => exact ⟨strands.stop, strands.past, strands.listed⟩
  | pushBack at_pushBack => exact ⟨strands.stop, strands.past, List.mem_append_left _ strands.listed⟩
  | signal at_signal => exact strands_signal.mpr strands
  | unlock at_unlock => exact ⟨strands.stop, strands.past, strands.listed⟩

theorem Worker.Strands.of_pushes (strands : v.Strands task) (pushes : Pushes c call w v next) :
    w.Strands task ∨ call.pending ∧ task = call.task := by
  cases pushes with
  | lock at_lock free => exact .inl ⟨strands.stop, strands.past, strands.listed⟩
  | pushBack at_pushBack =>
    rcases List.mem_append.mp strands.listed with old | last
    · exact .inl ⟨strands.stop, strands.past, old⟩
    · exact .inr ⟨.inr at_pushBack, List.mem_singleton.mp last⟩
  | signal at_signal => exact .inl (strands_signal.mp strands)
  | unlock at_unlock => exact .inl ⟨strands.stop, strands.past, strands.listed⟩

theorem Stranded.setWorker (stranded : Stranded s) (kept : ∀ task, (s.workers i).Strands task → v.Strands task) :
    Stranded (s.setWorker i v) := by
  obtain ⟨j, task, member, strands⟩ := stranded
  refine ⟨j, task, member, State.setWorker_cases (P := (·.Strands task)) (fun same => ?_) fun _ => strands⟩
  subst same
  exact kept task strands

theorem Stranded.of_setWorker (stranded : Stranded (s.setWorker i v))
    (back : ∀ task ∈ s.added, v.Strands task → (s.workers i).Strands task) : Stranded s := by
  obtain ⟨j, task, member, strands⟩ := stranded
  refine ⟨j, task, member, ?_⟩
  by_cases same : j = i
  · subst same
    rw [State.setWorker_self] at strands
    exact back task member strands
  · rwa [State.setWorker_ne s v same] at strands

theorem Stranded.move (stranded : Stranded s) (move : Move threadNum s t) : Stranded t := by
  cases move with
  | stays => exact stranded
  | call c i idle there => exact stranded
  | push c call under w next pushes added adds =>
    obtain ⟨j, task, member, strands⟩ := stranded.setWorker fun _ strands => strands.pushes pushes
    refine ⟨j, task, ?_, strands⟩
    rcases adds with rfl | ⟨_, _, rfl⟩
    · exact member
    · exact List.mem_append_left _ member
  | execute i there w turn => exact stranded.setWorker fun _ strands => strands.turn turn
  | wake i => exact stranded.setWorker fun _ => Worker.strands_signal.mpr
  | begin fresh => exact stranded
  | again i at_first all => exact stranded
  | finish i at_second all => exact stranded
  | setStop round i at_set there =>
    exact stranded.setWorker (v := (s.workers i).setStop) fun _ strands => ⟨rfl, strands.past, strands.listed⟩
  | signal round i at_signal =>
    exact stranded.setWorker (v := (s.workers i).signal) fun _ => Worker.strands_signal.mpr
  | joined i at_join exited => exact stranded

structure Drains (threadNum : Nat) (s : State) : Prop where
  inv : Inv s
  stopped : Stopped threadNum s
  added : Added threadNum s

theorem Drains.move (drains : Drains threadNum s) (move : Move threadNum s t) : Drains threadNum t :=
  ⟨drains.inv.move move, drains.stopped.move move, drains.added.move move⟩

theorem Drains.init : Drains threadNum .init := ⟨.init, .init, nofun, nofun, nofun⟩

/-- A task is left behind only by the first `Stop` of its worker. -/
theorem Drains.stranded_of_move (drains : Drains threadNum s) (move : Move threadNum s t) (stranded : Stranded t) :
    Stranded s ∨ ∃ i, i < threadNum ∧ s.destory = .setStop .first i ∧ t.destory = .signal .first i ∧
      (s.workers i).pc.beforeSwap = false ∧ ∃ task ∈ s.added, task ∈ (s.workers i).taskList := by
  obtain ⟨inv, stopped, added⟩ := drains
  cases move with
  | stays => exact .inl stranded
  | call c i idle there => exact .inl stranded
  | push c call under w next pushes tasks adds =>
    rcases adds with rfl | ⟨early, _, rfl⟩
    · refine .inl (Stranded.of_setWorker stranded fun task member strands => ?_)
      rcases strands.of_pushes pushes with before | ⟨pending, rfl⟩
      · exact before
      · obtain ⟨j, _, pushed⟩ := added.pushed _ member
        exact absurd pushed (inv.fresh.pending c call under pending j)
    · obtain ⟨j, task, _, strands⟩ := stranded
      have running := (stopped.setWorker pushes.stop pushes.exited).early early j
      have stop : ((s.setWorker call.worker w).workers j).stop = true := strands.stop
      rw [running] at stop
      cases stop
  | execute i there w turn => exact .inl (stranded.of_setWorker fun _ _ strands => strands.of_turn turn)
  | wake i => exact .inl (stranded.of_setWorker fun _ _ => Worker.strands_signal.mp)
  | begin fresh => exact .inl stranded
  | again i at_first all => exact .inl stranded
  | finish i at_second all => exact .inl stranded
  | setStop round i at_set there =>
    obtain ⟨j, task, member, strands⟩ := stranded
    have left : ((s.setWorker i (s.workers i).setStop).workers j).Strands task := strands
    clear strands
    by_cases same : j = i
    · subst same
      rw [State.setWorker_self] at left
      cases round with
      | first => exact .inr ⟨j, there, at_set, rfl, left.past, task, member, left.listed⟩
      | second =>
        have stop := stopped.stopped j there (by rw [at_set]; trivial)
        exact .inl ⟨j, task, member, stop, left.past, left.listed⟩
    · rw [State.setWorker_ne s _ same] at left
      exact .inl ⟨j, task, member, left⟩
  | signal round i at_signal =>
    have before : Stranded (s.setWorker i (s.workers i).signal) := stranded
    exact .inl (before.of_setWorker fun _ _ => Worker.strands_signal.mp)
  | joined i at_join exited => exact .inl stranded

theorem Drains.stranded_iff {step : Step} (drains : Drains threadNum s) (fine : ¬ Stranded s) :
    Stranded (step.exec threadNum s) ↔ ¬ step.MeetsStop threadNum s := by
  constructor
  · intro stranded meets
    rcases drains.stranded_of_move (step.exec_move s) stranded with before | ⟨i, there, at_set, passed, past, left⟩
    · exact fine before
    · by_cases is : step = .destory
      · obtain ⟨task, member, listed⟩ := left
        rcases meets is i there at_set with before | none
        · rw [past] at before
          cases before
        · exact none task member listed
      · rw [Step.exec_destory is, at_set] at passed
        cases passed
  · intro misses
    unfold Step.MeetsStop at misses
    push Not at misses
    obtain ⟨rfl, i, there, at_set, past, task, member, listed⟩ := misses
    have after : Step.exec threadNum s .destory =
        { s.setWorker i (s.workers i).setStop with destory := .signal .first i } := by
      show s.stepDestory threadNum = _
      unfold State.stepDestory
      rw [at_set]
      exact if_pos there
    rw [after]
    refine ⟨i, task, member, ?_⟩
    show ((s.setWorker i (s.workers i).setStop).workers i).Strands task
    rw [State.setWorker_self]
    exact ⟨rfl, Bool.not_eq_true _ ▸ past, listed⟩

theorem count_run_life (tasks : List Task) (task : Task) : (tasks.flatMap life).count (.run task) = tasks.count task := by
  induction tasks with
  | nil => rfl
  | cons other tasks ih =>
    rw [List.flatMap_cons, List.count_append, ih, List.count_cons]
    by_cases same : other = task <;> simp [life, same, Nat.add_comm]

theorem count_delete_life (tasks : List Task) (task : Task) :
    (tasks.flatMap life).count (.delete task) = tasks.count task := by
  induction tasks with
  | nil => rfl
  | cons other tasks ih =>
    rw [List.flatMap_cons, List.count_append, ih, List.count_cons]
    by_cases same : other = task <;> simp [life, same, Nat.add_comm]

theorem Drains.drained_iff (drains : Drains threadNum s) (returned : s.destory = .returned) :
    Drained threadNum s ↔ ¬ Stranded s := by
  obtain ⟨inv, stopped, added⟩ := drains
  constructor
  · rintro drained ⟨i, task, member, strands⟩
    exact drained.noneLeft task member i strands.listed
  · intro fine
    have left (i : Nat) (there : i < threadNum) (task : Task) (member : task ∈ s.added) : task ∉ (s.workers i).taskList := by
      intro listed
      have stop := stopped.stopped i there (by rw [returned]; trivial)
      have exited := stopped.joined i there (by rw [returned]; trivial)
      exact fine ⟨i, task, member, stop, by rw [exited]; rfl, listed⟩
    constructor
    · intro task member
      obtain ⟨i, there, pushed⟩ := added.pushed task member
      have exited := stopped.joined i there (by rw [returned]; trivial)
      have lined := inv.lined i
      have touched := lined.touched
      have nodup := lined.touched_nodup (inv.fresh.nodup i)
      have empty := lined.noBatch (by rw [exited]; rfl)
      have once : (s.workers i).done.count task = 1 := by
        have place := lined.pushed
        rw [exited] at nodup place
        rw [place, empty] at pushed
        simp only [Pc.current, List.append_nil, List.mem_append] at pushed nodup
        exact List.count_eq_one_of_mem nodup (pushed.resolve_right (left i there task member))
      rw [exited] at touched
      simp only [Pc.touches, List.append_nil] at touched
      refine ⟨i, there, ?_, ?_, ?_⟩
      · rw [touched, count_run_life, once]
      · rw [touched, count_delete_life, once]
      · rintro j other touch inside rfl
        have away := (inv.lined j).pushed_of_touched inside
        exact other (inv.fresh.apart j i _ away pushed)
    · intro task member j listed
      obtain ⟨i, there, pushed⟩ := added.pushed task member
      have inside : task ∈ (s.workers j).pushed := by
        rw [(inv.lined j).pushed]
        exact List.mem_append_right _ listed
      obtain rfl := inv.fresh.apart j i task inside pushed
      exact left j there task member listed

/-- **Whether `Destory` drains the pool.** -/
theorem destory_drains_iff (threadNum : Nat) (steps : List Step) (returned : (runPool threadNum steps).destory = .returned) :
    Drained threadNum (runPool threadNum steps) ↔
      Lib.Along (Step.exec threadNum) (fun s step => step.MeetsStop threadNum s) .init steps := by
  have drains : Drains threadNum (runPool threadNum steps) := runPool_inv (fun _ _ => Drains.move) .init steps
  refine (drains.drained_iff returned).trans (Lib.run_iff_along (I := Drains threadNum) (P := (¬ Stranded ·)) ?_ ?_ ?_ .init ?_)
  · intro s step drains fine meets
    refine ⟨drains.move (step.exec_move s), fun stranded => ?_⟩
    exact (drains.stranded_iff fine).mp stranded meets
  · exact fun s step drains fine misses still => still ((drains.stranded_iff fine).mpr misses)
  · exact fun s step stranded fine => stranded fun before => fine (before.move (step.exec_move s))
  · rintro ⟨i, task, member, _⟩
    cases member

/-- A thread adds a task to a pool with one worker. -/
def addOne : List Step :=
  [.addTask (.other 0) (.given 0), .pushTask (.other 0), .pushTask (.other 0), .pushTask (.other 0), .pushTask (.other 0)]

def destoryOne : List Step := [.destory, .destory, .destory, .destory, .destory, .destory, .execute 0, .destory, .destory]

/-- The worker stands at the head of its loop when its flag is set, so that it does not run the task. -/
theorem not_drained : (runPool 1 (addOne ++ destoryOne)).destory = .returned ∧
    ¬ Drained 1 (runPool 1 (addOne ++ destoryOne)) := by
  refine ⟨by decide, fun drained => ?_⟩
  refine drained.noneLeft 0 ?_ 0 ?_ <;> decide

/-- The worker has passed the head of its loop before. -/
def drainOne : List Step :=
  .execute 0 :: addOne ++ List.replicate 6 .destory ++ List.replicate 9 (.execute 0) ++ [.destory, .destory]

theorem destory_drains_iff_one : (runPool 1 drainOne).added = [0] ∧ Drained 1 (runPool 1 drainOne) :=
  ⟨by decide +kernel, (destory_drains_iff 1 drainOne (by decide +kernel)).mpr (by decide +kernel)⟩

end Netter.Pool
