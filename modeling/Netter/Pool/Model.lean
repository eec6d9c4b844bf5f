import Mathlib.Logic.Function.Basic
import Netter.Lib.Run

/-!
# The thread pool

`ThreadPool` and its `WorkerThread`s under every interleaving. Each lock, unlock, wait and signal and
each read or write of `m_stop` and of `m_task_list` is one step of the thread that makes it. A task is
known by its place on the heap, so no two calls of `AddTask` push the same one.
-/

namespace Netter.Pool

/-- A place on the heap. -/
abbrev Task := Nat

/-- A thread that calls `AddTask`: one of the program, or the task that a worker runs. -/
inductive Caller where
  | other (number : Nat)
  | task (worker : Nat)
  deriving DecidableEq

/-- Who holds the mutex of a worker. -/
inductive Holder where
  | execute
  | pushTask (caller : Caller)
  deriving DecidableEq

/-- Where a worker stands in `Execute`. -/
inductive Pc where
  /-- Before `while (!m_stop)`. -/
  | head
  | lock
  /-- Before `m_task_list.empty()`. -/
  | testEmpty
  /-- Before `!m_stop` of the inner loop. -/
  | testStop
  | wait
  /-- In `Wait()`, without the mutex. -/
  | parked
  /-- Woken up in `Wait()`, before it has the mutex again. -/
  | woken
  | swap
  | unlock
  /-- Before the next round of the loop over `tmp_task_list`. -/
  | batch
  | run (task : Task)
  | running (task : Task)
  | exited
  deriving DecidableEq

/-- What the library does with a task after it is pushed. -/
inductive Touch where
  | setThreadIdx (task : Task)
  | run (task : Task)
  | delete (task : Task)
  deriving DecidableEq

structure Worker where
  stop : Bool
  pc : Pc
  owner : Option Holder
  taskList : List Task
  tmpTaskList : List Task
  /-- All tasks ever put into `m_task_list`, and all that is ever done with tasks. -/
  pushed : List Task
  touched : List Touch

namespace Worker

/-- A worker after `Start`. -/
def init : Worker := ⟨false, .head, none, [], [], [], []⟩

variable (w : Worker)

/-- `Lock()`, which succeeds when nobody has the mutex. -/
def lock (holder : Holder) : Worker := { w with owner := some holder }

def unlock : Worker := { w with owner := none }

/-- `Signal()` has no effect when the worker does not wait. -/
def signal : Worker := if w.pc = .parked then { w with pc := .woken } else w

def touch (touch : Touch) : Worker := { w with touched := w.touched ++ [touch] }

/-- `m_stop = true` of `Stop`. -/
def setStop : Worker := { w with stop := true }

/-- `m_task_list.push_back(pTask)`. -/
def pushBack (task : Task) : Worker :=
  { w with taskList := w.taskList ++ [task], pushed := w.pushed ++ [task] }

/-- The next step of `Execute`. A task that is in a call of `AddTask` does not return from `run`. -/
def execute (calling : Bool) : Worker :=
  match w.pc with
  | .head => { w with pc := if w.stop then .exited else .lock }
  | .lock => if w.owner = none then { w.lock .execute with pc := .testEmpty } else w
  | .testEmpty => { w with pc := if w.taskList.isEmpty then .testStop else .swap }
  | .testStop => { w with pc := if w.stop then .swap else .wait }
  | .wait => { w.unlock with pc := .parked }
  | .parked => w
  | .woken => if w.owner = none then { w.lock .execute with pc := .testEmpty } else w
  | .swap => { w with tmpTaskList := w.taskList, taskList := [], pc := .unlock }
  | .unlock => { w.unlock with pc := .batch }
  | .batch =>
    match w.tmpTaskList with
    | [] => { w with pc := .head }
    | task :: rest => { w.touch (.setThreadIdx task) with tmpTaskList := rest, pc := .run task }
  | .run task => { w.touch (.run task) with pc := .running task }
  | .running task => if calling then w else { w.touch (.delete task) with pc := .batch }
  | .exited => w

/-- A spurious wake-up. -/
def wake : Worker := w.signal

end Worker

/-- Where a call of `PushTask` stands. -/
inductive CallPc where
  | lock
  | pushBack
  | signal
  | unlock
  deriving DecidableEq

structure Call where
  worker : Nat
  task : Task
  pc : CallPc
  deriving DecidableEq

inductive Round where
  | first
  | second
  deriving DecidableEq

/-- Where `Destory` stands: before the two statements of `Stop` in one of its loops, or before the join. -/
inductive DestoryPc where
  | notCalled
  | setStop (round : Round) (worker : Nat)
  | signal (round : Round) (worker : Nat)
  | join (worker : Nat)
  | returned
  deriving DecidableEq

structure State where
  workers : Nat → Worker
  calls : Caller → Option Call
  destory : DestoryPc
  /-- The heap: places from `next` on are unused. -/
  next : Task
  /-- The tasks whose `AddTask` has returned before `Destory` is called. -/
  added : List Task

/-- A pool after `Init`. -/
def State.init : State := ⟨fun _ => .init, fun _ => none, .notCalled, 0, []⟩

namespace State

variable (s : State)

def setWorker (i : Nat) (w : Worker) : State := { s with workers := Function.update s.workers i w }

def setCall (c : Caller) (call : Option Call) : State := { s with calls := Function.update s.calls c call }

/-- The next step of `PushTask`. -/
def pushTask (c : Caller) (call : Call) : State :=
  let w := s.workers call.worker
  match call.pc with
  | .lock =>
    if w.owner = none then
      (s.setWorker call.worker (w.lock (.pushTask c))).setCall c (some { call with pc := .pushBack })
    else s
  | .pushBack => (s.setWorker call.worker (w.pushBack call.task)).setCall c (some { call with pc := .signal })
  | .signal => (s.setWorker call.worker w.signal).setCall c (some { call with pc := .unlock })
  | .unlock =>
    { (s.setWorker call.worker w.unlock).setCall c none with
      added := if s.destory = .notCalled then s.added ++ [call.task] else s.added }

/-- A call of `PushTask` with a new task. -/
def callPushTask (c : Caller) (i : Nat) : State :=
  { s.setCall c (some ⟨i, s.next, .lock⟩) with next := s.next + 1 }

/-- The thread is there and in no call: a task calls only while it runs. -/
def mayCall : Caller → Bool
  | .other number => (s.calls (.other number)).isNone
  | .task i => (s.calls (.task i)).isNone && (s.workers i).pc matches .running _

/-- The next step of `Destory`. -/
def stepDestory (threadNum : Nat) : State :=
  match s.destory with
  | .notCalled => { s with destory := .setStop .first 0 }
  | .setStop .first i =>
    if i < threadNum then { s.setWorker i (s.workers i).setStop with destory := .signal .first i }
    else { s with destory := .setStop .second 0 }
  | .setStop .second i =>
    if i < threadNum then { s.setWorker i (s.workers i).setStop with destory := .signal .second i }
    else { s with destory := .returned }
  | .signal .first i => { s.setWorker i (s.workers i).signal with destory := .setStop .first (i + 1) }
  | .signal .second i => { s.setWorker i (s.workers i).signal with destory := .join i }
  | .join i => if (s.workers i).pc = .exited then { s with destory := .setStop .second (i + 1) } else s
  | .returned => s

end State

/-- The worker that `AddTask` picks: the given one, or the one that `random()` leads to. -/
inductive Index where
  | given (threadIdx : Nat)
  | random (value : Nat)

/-- An index that is out of range adds no task. Without workers `random() % m_thread_num` is undefined. -/
def Index.worker (threadNum : Nat) : Index → Option Nat
  | .given i => if i < threadNum then some i else none
  | .random value => if threadNum = 0 then none else some (value % threadNum)

/-- A step of some thread; one that cannot be taken changes nothing. -/
inductive Step where
  /-- `AddTask(pTask, thread_idx)` or `AddTask(pTask)`; there is no pool any more when `Destory` has returned. -/
  | addTask (caller : Caller) (index : Index)
  | pushTask (caller : Caller)
  | execute (worker : Nat)
  | wake (worker : Nat)
  | destory

def Step.exec (threadNum : Nat) (s : State) : Step → State
  | .addTask c index =>
    match index.worker threadNum with
    | some i => if s.mayCall c && s.destory != .returned then s.callPushTask c i else s
    | none => s
  | .pushTask c =>
    match s.calls c with
    | some call => s.pushTask c call
    | none => s
  | .execute i =>
    if i < threadNum then s.setWorker i ((s.workers i).execute (s.calls (.task i)).isSome) else s
  | .wake i => if i < threadNum then s.setWorker i (s.workers i).wake else s
  | .destory => s.stepDestory threadNum

/-- The state after a run of a pool with `threadNum` workers. -/
def runPool (threadNum : Nat) (steps : List Step) : State := Lib.run (Step.exec threadNum) .init steps

end Netter.Pool
