import Mathlib.Data.List.Nodup
import Mathlib.Data.List.Flatten
import Netter.Pool.Locked

/-!
# Tasks run in order

The tasks ever pushed to a worker are, in this order, those it has deleted, the one in its hand, the
rest of its batch and those in `m_task_list`. With the mutex this gives what a worker promises: it runs
the tasks in the order they are pushed, it deletes each one right after its run and does not touch it
again, and it does not sleep beside a task.
-/

namespace Netter.Pool

def Touch.task : Touch → Task
  | .setThreadIdx task => task
  | .run task => task
  | .delete task => task

def ranTask : Touch → Option Task
  | .run task => some task
  | _ => none

def deletedTask : Touch → Option Task
  | .delete task => some task
  | _ => none

/-- The tasks that a worker has run, or runs. -/
def Worker.ran (w : Worker) : List Task := w.touched.filterMap ranTask

/-- The tasks that a worker has run and deleted. -/
def Worker.done (w : Worker) : List Task := w.touched.filterMap deletedTask

/-- All that is done with a task. -/
def life (task : Task) : List Touch := [.setThreadIdx task, .run task, .delete task]

namespace Pc

/-- The task in the worker's hand. -/
def current : Pc → List Task
  | .run task => [task]
  | .running task => [task]
  | _ => []

/-- What is done with it so far. -/
def touches : Pc → List Touch
  | .run task => [.setThreadIdx task]
  | .running task => [.setThreadIdx task, .run task]
  | _ => []

/-- `tmp_task_list` is there. -/
def inBatch : Pc → Bool
  | .unlock | .batch | .run _ | .running _ => true
  | _ => false

end Pc

structure Worker.Lined (w : Worker) : Prop where
  pushed : w.pushed = w.done ++ w.pc.current ++ w.tmpTaskList ++ w.taskList
  touched : w.touched = w.done.flatMap life ++ w.pc.touches
  noBatch : w.pc.inBatch = false → w.tmpTaskList = []

variable {threadNum : Nat} {s t : State} {w v : Worker} {c d : Caller} {i j : Nat} {call : Call}
  {next : Option Call} {calling : Bool} {task : Task}

namespace Worker

/-- A step outside of the batch. -/
theorem Lined.step {pc : Pc} {owner : Option Holder} (lined : w.Lined) (current : pc.current = w.pc.current)
    (touches : pc.touches = w.pc.touches) (batch : pc.inBatch = false → w.pc.inBatch = false ∨ w.tmpTaskList = []) :
    Worker.Lined { w with pc, owner } := by
  refine ⟨?_, ?_, fun outside => ?_⟩
  · show w.pushed = w.done ++ pc.current ++ w.tmpTaskList ++ w.taskList
    rw [current]
    exact lined.pushed
  · show w.touched = w.done.flatMap life ++ pc.touches
    rw [touches]
    exact lined.touched
  · rcases batch outside with before | empty
    · exact lined.noBatch before
    · exact empty

/-- A step that does something with a task. -/
theorem Lined.touch {touch : Touch} {pc : Pc} {tmp : List Task} (lined : w.Lined)
    (tasks : (deletedTask touch).toList ++ pc.current ++ tmp = w.pc.current ++ w.tmpTaskList)
    (touches : (deletedTask touch).toList.flatMap life ++ pc.touches = w.pc.touches ++ [touch])
    (inBatch : pc.inBatch = true) : Worker.Lined { w.touch touch with tmpTaskList := tmp, pc } := by
  have done : (w.touched ++ [touch]).filterMap deletedTask = w.done ++ (deletedTask touch).toList := by
    rw [List.filterMap_append]
    cases touch <;> rfl
  refine ⟨?_, ?_, fun outside => ?_⟩
  · show w.pushed = (w.touched ++ [touch]).filterMap deletedTask ++ pc.current ++ tmp ++ w.taskList
    rw [done, lined.pushed, List.append_assoc w.done w.pc.current, ← tasks]
    simp only [List.append_assoc]
  · show w.touched ++ [touch] = ((w.touched ++ [touch]).filterMap deletedTask).flatMap life ++ pc.touches
    rw [done, lined.touched, List.flatMap_append, List.append_assoc, List.append_assoc, touches]
  · have outside : pc.inBatch = false := outside
    rw [inBatch] at outside
    cases outside

theorem Lined.turn (lined : w.Lined) (turn : Turn calling w v) : v.Lined := by
  have step {pc : Pc} (owner : Option Holder) (old : Pc) (at_old : w.pc = old) (current : pc.current = old.current)
      (touches : pc.touches = old.touches) (batch : pc.inBatch = false → old.inBatch = false ∨ w.tmpTaskList = []) :
      Worker.Lined { w with pc, owner } := by
    subst at_old
    exact lined.step current touches batch
  cases turn with
  | stays => exact lined
  | enter at_head goes => exact step _ _ at_head rfl rfl fun _ => .inl rfl
  | leave at_head stopped => exact step _ _ at_head rfl rfl fun _ => .inl rfl
  | lock outside free =>
    rcases outside with at_lock | at_woken
    · exact step _ _ at_lock rfl rfl fun _ => .inl rfl
    · exact step _ _ at_woken rfl rfl fun _ => .inl rfl
  | empty at_test none => exact step _ _ at_test rfl rfl fun _ => .inl rfl
  | filled at_test some => exact step _ _ at_test rfl rfl fun _ => .inl rfl
  | stopped at_test stopped => exact step _ _ at_test rfl rfl fun _ => .inl rfl
  | goes at_test goes => exact step _ _ at_test rfl rfl fun _ => .inl rfl
  | park at_wait => exact step _ _ at_wait rfl rfl fun _ => .inl rfl
  | unlock at_unlock => exact step _ _ at_unlock rfl rfl nofun
  | done at_batch none => exact step _ _ at_batch rfl rfl fun _ => .inr none
  | swap at_swap =>
    obtain ⟨pushed, touched, noBatch⟩ := lined
    rw [at_swap] at pushed touched noBatch
    refine ⟨?_, touched, nofun⟩
    rw [noBatch rfl] at pushed
    show w.pushed = w.done ++ [] ++ w.taskList ++ []
    have empty : Pc.swap.current = [] := rfl
    rw [pushed, empty, List.append_nil, List.append_nil, List.append_nil]
  | take at_batch task rest first =>
    apply lined.touch
    · rw [at_batch, first]
      rfl
    · rw [at_batch]
      rfl
    · rfl
  | run task at_run =>
    apply lined.touch
    · rw [at_run]
      rfl
    · rw [at_run]
      rfl
    · rfl
  | delete task at_running idle =>
    apply lined.touch
    · rw [at_running]
      rfl
    · rw [at_running]
      rfl
    · rfl

theorem Lined.signal (lined : w.Lined) : w.signal.Lined := by
  rcases w.signal_cases with ⟨same, _⟩ | ⟨parked, woken⟩
  · rw [same]
    exact lined
  · rw [woken]
    exact lined.step (by rw [parked]; rfl) (by rw [parked]; rfl) fun _ => .inl (by rw [parked]; rfl)

theorem Lined.pushes (lined : w.Lined) (pushes : Pushes c call w v next) : v.Lined := by
  cases pushes with
  | lock at_lock free => exact ⟨lined.pushed, lined.touched, lined.noBatch⟩
  | pushBack at_pushBack =>
    refine ⟨?_, lined.touched, lined.noBatch⟩
    show w.pushed ++ [call.task] = w.done ++ w.pc.current ++ w.tmpTaskList ++ (w.taskList ++ [call.task])
    rw [← List.append_assoc, ← lined.pushed]
  | signal at_signal => exact lined.signal
  | unlock at_unlock => exact ⟨lined.pushed, lined.touched, lined.noBatch⟩

end Worker

def Lined (s : State) : Prop := ∀ i, (s.workers i).Lined

theorem Lined.setWorker (lined : Lined s) (here : v.Lined) : Lined (s.setWorker i v) := by
  intro j
  by_cases same : j = i
  · rw [same, State.setWorker_self]
    exact here
  · rw [State.setWorker_ne s v same]
    exact lined j

theorem Lined.move (lined : Lined s) (move : Move threadNum s t) : Lined t := by
  cases move with
  | stays => exact lined
  | call c i idle there => exact lined
  | push c call under w next pushes added adds => exact lined.setWorker ((lined call.worker).pushes pushes)
  | execute i there w turn => exact lined.setWorker ((lined i).turn turn)
  | wake i => exact lined.setWorker (lined i).signal
  | begin fresh => exact lined
  | again i at_first all => exact lined
  | finish i at_second all => exact lined
  | setStop round i at_set there =>
    have here := lined i
    exact lined.setWorker ⟨here.pushed, here.touched, here.noBatch⟩
  | signal round i at_signal => exact lined.setWorker (lined i).signal
  | joined i at_join exited => exact lined

/-! ## Every task is pushed once -/

/-- The call has not put its task into the list yet. -/
def Call.pending (call : Call) : Prop := call.pc = .lock ∨ call.pc = .pushBack

structure Fresh (s : State) : Prop where
  pushed : ∀ i, ∀ task ∈ (s.workers i).pushed, task < s.next
  called : ∀ c call, s.calls c = some call → call.task < s.next
  single : ∀ c d call other, s.calls c = some call → s.calls d = some other → call.task = other.task → c = d
  pending : ∀ c call, s.calls c = some call → call.pending → ∀ i, call.task ∉ (s.workers i).pushed
  nodup : ∀ i, (s.workers i).pushed.Nodup
  apart : ∀ i j task, task ∈ (s.workers i).pushed → task ∈ (s.workers j).pushed → i = j

/-- Only `pushed` matters of a worker, and of a call its task and whether it is pending. -/
theorem Fresh.of_same (fresh : Fresh s) (pushed : ∀ i, (t.workers i).pushed = (s.workers i).pushed)
    (calls : ∀ c call, t.calls c = some call →
      ∃ old, s.calls c = some old ∧ old.task = call.task ∧ (call.pending → old.pending))
    (next : t.next = s.next) : Fresh t := by
  constructor
  · intro i task member
    rw [pushed] at member
    rw [next]
    exact fresh.pushed i task member
  · intro c call is
    obtain ⟨old, was, same, _⟩ := calls c call is
    rw [next, ← same]
    exact fresh.called c old was
  · intro c d call other is also same
    obtain ⟨old, was, task, _⟩ := calls c call is
    obtain ⟨before, wasAlso, other_task, _⟩ := calls d other also
    exact fresh.single c d old before was wasAlso (by rw [task, same, other_task])
  · intro c call is waits i
    obtain ⟨old, was, same, before⟩ := calls c call is
    rw [pushed, ← same]
    exact fresh.pending c old was (before waits) i
  · intro i
    rw [pushed]
    exact fresh.nodup i
  · intro i j task here there
    rw [pushed] at here there
    exact fresh.apart i j task here there

theorem State.setWorker_pushed (s : State) (same : v.pushed = (s.workers i).pushed) (j : Nat) :
    ((s.setWorker i v).workers j).pushed = (s.workers j).pushed := by
  by_cases at_i : j = i
  · rw [at_i, State.setWorker_self]
    exact same
  · rw [State.setWorker_ne s v at_i]

theorem Turn.pushed (turn : Turn calling w v) : v.pushed = w.pushed := by
  cases turn <;> rfl

/-- A call with a new task. -/
theorem Fresh.callPushTask (fresh : Fresh s) : Fresh (s.callPushTask c i) := by
  have calls (d : Caller) (call : Call) (is : (s.callPushTask c i).calls d = some call) :
      d = c ∧ call.task = s.next ∨ s.calls d = some call := by
    rcases State.calls_of_setCall is with ⟨at_c, new⟩ | ⟨_, old⟩
    · cases new
      exact .inl ⟨at_c, rfl⟩
    · exact .inr old
  constructor
  · intro j task member
    exact Nat.lt_succ_of_lt (fresh.pushed j task member)
  · intro d call is
    rcases calls d call is with ⟨_, new⟩ | old
    · rw [new]
      exact Nat.lt_succ_self _
    · exact Nat.lt_succ_of_lt (fresh.called d call old)
  · intro d e call other is also same
    rcases calls d call is with ⟨at_c, new⟩ | old
    · rcases calls e other also with ⟨other_c, _⟩ | was
      · rw [at_c, other_c]
      · have below := fresh.called e other was
        rw [← same, new] at below
        exact absurd below (Nat.lt_irrefl s.next)
    · rcases calls e other also with ⟨_, new⟩ | was
      · have below := fresh.called d call old
        rw [same, new] at below
        exact absurd below (Nat.lt_irrefl s.next)
      · exact fresh.single d e call other old was same
  · intro d call is waits j member
    rcases calls d call is with ⟨_, new⟩ | old
    · have below := fresh.pushed j call.task member
      rw [new] at below
      exact absurd below (Nat.lt_irrefl s.next)
    · exact fresh.pending d call old waits j member
  · exact fresh.nodup
  · exact fresh.apart

/-- A step of a call in which it stays, with its task, and does not become pending. -/
theorem State.calls_of_step (under : s.calls c = some call)
    (known : ∀ new, next = some new → new.task = call.task ∧ (new.pending → call.pending)) (d : Caller) (new : Call)
    (is : (s.setCall c next).calls d = some new) :
    ∃ old, s.calls d = some old ∧ old.task = new.task ∧ (new.pending → old.pending) := by
  rcases State.calls_of_setCall is with ⟨rfl, set⟩ | ⟨_, is⟩
  · obtain ⟨task, pending⟩ := known new set
    exact ⟨call, under, task.symm, pending⟩
  · exact ⟨new, is, rfl, fun waits => waits⟩

theorem Call.not_pending_signal (call : Call) : ¬ { call with pc := .signal : Call }.pending := by
  rintro (at_lock | at_push)
  · cases at_lock
  · cases at_push

theorem Call.not_pending_unlock (call : Call) : ¬ { call with pc := .unlock : Call }.pending := by
  rintro (at_lock | at_push)
  · cases at_lock
  · cases at_push

/-- A call that puts its task into the list. -/
theorem Fresh.pushBack (fresh : Fresh s) (under : s.calls c = some call) (at_pushBack : call.pc = .pushBack)
    {added : List Task} :
    Fresh { (s.setWorker call.worker ((s.workers call.worker).pushBack call.task)).setCall c
      (some { call with pc := .signal }) with added } := by
  have unpushed := fresh.pending c call under (.inr at_pushBack)
  have known (new : Call) (is : some { call with pc := .signal } = some new) :
      new.task = call.task ∧ (new.pending → call.pending) := by
    cases is
    exact ⟨rfl, fun waits => absurd waits call.not_pending_signal⟩
  have calls := State.calls_of_step under known
  constructor
  · intro j task member
    rcases State.pushed_of_pushBack member with before | ⟨_, rfl⟩
    · exact fresh.pushed j task before
    · exact fresh.called c call under
  · intro d later is
    obtain ⟨before, was, same, _⟩ := calls d later is
    rw [← same]
    exact fresh.called d before was
  · intro d e later other is also same
    obtain ⟨before, was, task, _⟩ := calls d later is
    obtain ⟨first, wasAlso, other_task, _⟩ := calls e other also
    exact fresh.single d e before first was wasAlso (by rw [task, same, other_task])
  · intro d later is waits j member
    rcases State.calls_of_setCall is with ⟨_, new⟩ | ⟨other, was⟩
    · cases new
      exact call.not_pending_signal waits
    · rcases State.pushed_of_pushBack member with there | ⟨_, new⟩
      · exact fresh.pending d later was waits j there
      · exact other (fresh.single d c later call was under new)
  · intro j
    show ((s.setWorker call.worker ((s.workers call.worker).pushBack call.task)).workers j).pushed.Nodup
    by_cases same : j = call.worker
    · rw [same, State.setWorker_self]
      refine List.Nodup.append (fresh.nodup call.worker) (List.nodup_singleton call.task) ?_
      intro task before last
      rw [List.mem_singleton.mp last] at before
      exact unpushed call.worker before
    · rw [State.setWorker_ne s _ same]
      exact fresh.nodup j
  · intro j k task here there
    rcases State.pushed_of_pushBack here with before | ⟨at_j, new⟩
    · rcases State.pushed_of_pushBack there with also | ⟨_, new⟩
      · exact fresh.apart j k task before also
      · rw [new] at before
        exact absurd before (unpushed j)
    · rcases State.pushed_of_pushBack there with also | ⟨at_k, _⟩
      · rw [new] at also
        exact absurd also (unpushed k)
      · rw [at_j, at_k]

theorem Fresh.push {added : List Task} (fresh : Fresh s) (under : s.calls c = some call)
    (pushes : Pushes c call (s.workers call.worker) v next) :
    Fresh { (s.setWorker call.worker v).setCall c next with added } := by
  cases pushes with
  | lock at_lock free =>
    refine fresh.of_same (s.setWorker_pushed rfl) (State.calls_of_step under fun new is => ?_) rfl
    cases is
    exact ⟨rfl, fun _ => .inl at_lock⟩
  | pushBack at_pushBack => exact fresh.pushBack under at_pushBack
  | signal at_signal =>
    refine fresh.of_same (s.setWorker_pushed (Worker.signal_pushed _)) (State.calls_of_step under fun new is => ?_) rfl
    cases is
    exact ⟨rfl, fun waits => absurd waits call.not_pending_unlock⟩
  | unlock at_unlock => exact fresh.of_same (s.setWorker_pushed rfl) (State.calls_of_step under nofun) rfl

theorem Fresh.move (fresh : Fresh s) (move : Move threadNum s t) : Fresh t := by
  have setWorker (i : Nat) (v : Worker) (same : v.pushed = (s.workers i).pushed) : Fresh (s.setWorker i v) :=
    fresh.of_same (s.setWorker_pushed same) (fun _ call is => ⟨call, is, rfl, fun waits => waits⟩) rfl
  have keep {t : State} (fresh : Fresh t) (destory : DestoryPc) : Fresh { t with destory } :=
    ⟨fresh.pushed, fresh.called, fresh.single, fresh.pending, fresh.nodup, fresh.apart⟩
  cases move with
  | stays => exact fresh
  | call c i idle there => exact fresh.callPushTask
  | push c call under w next pushes added adds => exact fresh.push under pushes
  | execute i there w turn => exact setWorker i w turn.pushed
  | wake i => exact setWorker i _ (Worker.signal_pushed _)
  | begin at_start => exact keep fresh _
  | again i at_first all => exact keep fresh _
  | finish i at_second all => exact keep fresh _
  | setStop round i at_set there => exact keep (setWorker i (s.workers i).setStop rfl) _
  | signal round i at_signal => exact keep (setWorker i _ (Worker.signal_pushed _)) _
  | joined i at_join exited => exact keep fresh _

/-! ## Runs -/

structure Inv (s : State) : Prop where
  locked : Locked s
  lined : Lined s
  fresh : Fresh s

theorem Inv.move (inv : Inv s) (move : Move threadNum s t) : Inv t :=
  ⟨inv.locked.move move, inv.lined.move move, inv.fresh.move move⟩

theorem Inv.init : Inv .init := by
  refine ⟨.init, fun _ => ⟨rfl, rfl, fun _ => rfl⟩, ?_⟩
  exact ⟨nofun, nofun, nofun, nofun, fun _ => List.nodup_nil, nofun⟩

theorem runPool_sound (steps : List Step) : Inv (runPool threadNum steps) :=
  runPool_inv (fun _ _ => Inv.move) .init steps

theorem ranTask_life (tasks : List Task) : (tasks.flatMap life).filterMap ranTask = tasks := by
  induction tasks with
  | nil => rfl
  | cons task tasks ih =>
    rw [List.flatMap_cons, List.filterMap_append, ih]
    rfl

theorem task_of_mem_life {touch : Touch} (member : touch ∈ life task) : touch.task = task := by
  simp only [life, List.mem_cons, List.not_mem_nil, or_false] at member
  rcases member with rfl | rfl | rfl <;> rfl

theorem Pc.task_of_mem_touches {pc : Pc} {touch : Touch} (member : touch ∈ pc.touches) : touch.task ∈ pc.current := by
  cases pc with
  | run task => exact List.mem_singleton.mpr (task_of_mem_life (List.mem_of_mem_take (i := 1) member))
  | running task => exact List.mem_singleton.mpr (task_of_mem_life (List.mem_of_mem_take (i := 2) member))
  | _ => cases member

/-- Only tasks that are deleted or in the hand have been touched. -/
theorem task_of_mem_touched {done : List Task} {pc : Pc} {touch : Touch}
    (member : touch ∈ done.flatMap life ++ pc.touches) : touch.task ∈ done ++ pc.current := by
  rcases List.mem_append.mp member with gone | inHand
  · obtain ⟨task, is, touches⟩ := List.mem_flatMap.mp gone
    rw [task_of_mem_life touches]
    exact List.mem_append_left _ is
  · exact List.mem_append_right _ (Pc.task_of_mem_touches inHand)

/-- What stands around the run of a task. -/
structure Lives (pc : Pc) (task : Task) (before after : List Touch) : Prop where
  first : ∃ earlier, before = earlier ++ [.setThreadIdx task] ∧ ∀ touch ∈ earlier, touch.task ≠ task
  last : after = [] ∧ pc = .running task ∨
    ∃ later, after = .delete task :: later ∧ ∀ touch ∈ later, touch.task ≠ task

theorem lives_of_touched {done : List Task} {pc : Pc} {before after : List Touch} (nodup : (done ++ pc.current).Nodup)
    (touched : done.flatMap life ++ pc.touches = before ++ .run task :: after) : Lives pc task before after := by
  induction done generalizing before with
  | nil =>
    cases pc with
    | run other =>
      rcases before with _ | ⟨first, before⟩
      · cases touched
      · have rest : [] = before ++ Touch.run task :: after := (List.cons.inj touched).2
        cases before <;> cases rest
    | running other =>
      rcases before with _ | ⟨first, _ | ⟨second, before⟩⟩
      · cases touched
      · cases touched
        exact ⟨⟨[], rfl, nofun⟩, .inl ⟨rfl, rfl⟩⟩
      · have rest : [] = before ++ Touch.run task :: after := (List.cons.inj (List.cons.inj touched).2).2
        cases before <;> cases rest
    | _ => cases before <;> cases touched
  | cons deleted done ih =>
    have fresh : ∀ touch ∈ done.flatMap life ++ pc.touches, touch.task ≠ deleted := by
      rintro touch member rfl
      exact (List.nodup_cons.mp nodup).1 (task_of_mem_touched member)
    rw [List.flatMap_cons, List.append_assoc] at touched
    rcases before with _ | ⟨first, _ | ⟨second, _ | ⟨third, before⟩⟩⟩
    · cases touched
    · cases touched
      exact ⟨⟨[], rfl, nofun⟩, .inr ⟨_, rfl, fresh⟩⟩
    · cases touched
    · obtain ⟨one, touched⟩ := List.cons.inj touched
      obtain ⟨two, touched⟩ := List.cons.inj touched
      obtain ⟨three, rest⟩ := List.cons.inj touched
      subst one two three
      have rest : done.flatMap life ++ pc.touches = before ++ .run task :: after := rest
      have lives := ih (List.nodup_cons.mp nodup).2 rest
      obtain ⟨earlier, rfl, clean⟩ := lives.first
      have other : task ≠ deleted := by
        apply fresh (.run task)
        rw [rest]
        exact List.mem_append_right _ List.mem_cons_self
      refine ⟨⟨life deleted ++ earlier, rfl, fun touch member => ?_⟩, lives.last⟩
      rcases List.mem_append.mp member with here | there
      · rw [task_of_mem_life here]
        exact other.symm
      · exact clean touch there

/-- What a worker promises. -/
structure Orderly (s : State) (i : Nat) : Prop where
  /-- Tasks run in the order in which they are pushed. -/
  inOrder : (s.workers i).ran <+: (s.workers i).pushed
  once : (s.workers i).ran.Nodup
  /-- A task is deleted right after its run, and no worker touches it again. -/
  lives : ∀ task before after, (s.workers i).touched = before ++ .run task :: after →
    Lives (s.workers i).pc task before after
  alone : ∀ task, .run task ∈ (s.workers i).touched → ∀ j, j ≠ i → ∀ touch ∈ (s.workers j).touched, touch.task ≠ task
  /-- A worker that sleeps beside a task while it is not stopped is about to get a signal. -/
  awake : (s.workers i).pc = .parked → (s.workers i).taskList ≠ [] → (s.workers i).stop = false →
    ∃ c task, s.calls c = some ⟨i, task, .signal⟩

theorem Worker.Lined.touched_nodup (lined : w.Lined) (nodup : w.pushed.Nodup) : (w.done ++ w.pc.current).Nodup := by
  rw [lined.pushed, List.append_assoc] at nodup
  exact nodup.of_append_left

theorem Worker.Lined.pushed_of_touched {touch : Touch} (lined : w.Lined) (member : touch ∈ w.touched) :
    touch.task ∈ w.pushed := by
  rw [lined.touched] at member
  rw [lined.pushed, List.append_assoc]
  exact List.mem_append_left _ (task_of_mem_touched member)

theorem Worker.Lined.ran_prefix (lined : w.Lined) : w.ran <+: w.done ++ w.pc.current := by
  unfold Worker.ran
  rw [lined.touched, List.filterMap_append, ranTask_life]
  refine List.prefix_append_right_inj _ |>.mpr ?_
  cases w.pc with
  | run task => exact List.nil_prefix
  | _ => exact List.prefix_rfl

theorem Inv.orderly (inv : Inv s) (i : Nat) : Orderly s i := by
  have lined := inv.lined i
  have nodup := lined.touched_nodup (inv.fresh.nodup i)
  constructor
  · rw [lined.pushed, List.append_assoc]
    exact lined.ran_prefix.trans (List.prefix_append _ _)
  · exact nodup.sublist lined.ran_prefix.sublist
  · intro task before after touched
    rw [lined.touched] at touched
    exact lives_of_touched nodup touched
  · rintro task ran j other touch member rfl
    have here : (Touch.run touch.task).task ∈ (s.workers i).pushed := lined.pushed_of_touched ran
    exact other (inv.fresh.apart j i _ ((inv.lined j).pushed_of_touched member) here)
  · intro parked some _
    exact (inv.locked i).signalled parked some

/-- **A worker runs its tasks in order, each at most once**, in every state of every run. -/
theorem worker_orderly (threadNum : Nat) (steps : List Step) (i : Nat) : Orderly (runPool threadNum steps) i :=
  (runPool_sound steps).orderly i

end Netter.Pool
