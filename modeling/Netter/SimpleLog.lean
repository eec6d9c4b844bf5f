import Mathlib.Data.Prod.Lex
import Mathlib.Logic.Function.Basic
import Netter.Lib.Run

/-!
# `SimpleLog`

The log that threads share, with a file for each day. A call of `LogMessage` reads the clock before it waits for the
mutex, and `OpenFile` reads it again, so at midnight the calls do not come in the order of their ticks, and the file that
is opened may be of a later day than the call that opens it. A line is still not put into the file of a day before it was
stamped.

The directories are there and `fopen` and `fwrite` succeed.
-/

namespace Netter.SimpleLog

inductive LogLevel where
  | error
  | warning
  | info
  | debug
  deriving DecidableEq

/-- The values of `LogLevel`. -/
def LogLevel.value : LogLevel → Nat
  | .error => 0
  | .warning => 1
  | .info => 2
  | .debug => 3

def kMaxLogLineSize : Nat := 4096

/-- A call of `LogMessage`, with what its two formats give. -/
structure Call where
  level : LogLevel
  /-- The time, the thread and the level. -/
  front : List UInt8
  text : List UInt8
  small : front.length < kMaxLogLineSize

/-- `log_buf_` after `vsnprintf`, without the zero behind it. -/
def Call.formatted (call : Call) : List UInt8 := call.front ++ call.text.take (kMaxLogLineSize - call.front.length - 1)

/-- What `fwrite` gets: as much of it as `strlen` sees. -/
def Call.line (call : Call) : List UInt8 := call.formatted.takeWhile (· ≠ 0)

/-- A call with its `curr_time`. -/
structure Frame where
  call : Call
  currTime : Nat

/-- Where a call stands between the constructor and the destructor of its `MutexGuard`. -/
inductive Place where
  | snprintf
  | vsnprintf
  | isNewDay
  | fclose
  | openFile
  | fwrite
  | lastLogTime
  | unlock
  deriving DecidableEq

/-- Where a thread stands. -/
inductive Pc where
  | idle
  /-- Before `time(&curr_time)`. -/
  | time (call : Call)
  /-- Before the mutex. -/
  | lock (frame : Frame)
  | inside (place : Place) (frame : Frame)

/-- A line that has been written: by whom, into which file and when. -/
structure Line (Date : Type) where
  thread : Nat
  frame : Frame
  file : Date
  time : Nat

/-- A `Date` is the year, the month and the day of a `tm`; it names a file. -/
structure State (Date : Type) where
  now : Nat
  logLevel : LogLevel
  logFile : Option Date
  lastLogTime : Nat
  logBuf : List UInt8
  owner : Option Nat
  pc : Nat → Pc
  files : Date → List UInt8
  written : List (Line Date)
  /-- The calls of each thread that have passed the test of their level. -/
  accepted : Nat → List Call

variable {Date : Type}

/-- After `Init`, which sets `last_log_time_` and then opens the file. -/
def State.init (localtime : Nat → Date) (level : LogLevel) (files : Date → List UInt8) (lastLogTime now : Nat) : State Date :=
  ⟨now, level, some (localtime now), lastLogTime, [], none, fun _ => .idle, files, [], fun _ => []⟩

/-- The call of a thread that is not in a file yet. -/
def Pc.pending : Pc → List Call
  | .idle => []
  | .time call => [call]
  | .lock frame => [frame.call]
  | .inside .lastLogTime _ => []
  | .inside .unlock _ => []
  | .inside _ frame => [frame.call]

namespace State

variable (localtime : Nat → Date) (s : State Date)

def setPc (thread : Nat) (pc : Pc) : State Date := { s with pc := Function.update s.pc thread pc }

def goTo (thread : Nat) (place : Place) (frame : Frame) : State Date := s.setPc thread (.inside place frame)

theorem setPc_self {t : Nat} {pc : Pc} : (s.setPc t pc).pc t = pc := by
  simp only [setPc, Function.update_self]

theorem setPc_of_ne {t o : Nat} {pc : Pc} (beside : o ≠ t) : (s.setPc t pc).pc o = s.pc o := by
  simp only [setPc, Function.update_of_ne beside]

theorem setPc_cases {t o : Nat} {pc pc' : Pc} (is : (s.setPc t pc).pc o = pc') :
    o = t ∧ pc = pc' ∨ o ≠ t ∧ s.pc o = pc' := by
  by_cases same : o = t
  · subst same
    exact .inl ⟨rfl, s.setPc_self.symm.trans is⟩
  · exact .inr ⟨same, (s.setPc_of_ne same).symm.trans is⟩

theorem pending_kept {t o : Nat} {pc : Pc} (kept : pc.pending = (s.pc t).pending) :
    ((s.setPc t pc).pc o).pending = (s.pc o).pending := by
  by_cases same : o = t
  · rw [same, s.setPc_self, kept]
  · rw [s.setPc_of_ne same]

/-- The first lines of `LogMessage`. -/
def logMessage (thread : Nat) (call : Call) : State Date :=
  match s.pc thread with
  | .idle =>
    if s.logLevel.value < call.level.value then s
    else
      { s.setPc thread (.time call) with
        accepted := Function.update s.accepted thread (s.accepted thread ++ [call]) }
  | _ => s

variable [LinearOrder Date]

/-- `fwrite` and `fflush`, if there is a file. -/
def fwrite (thread : Nat) (frame : Frame) : State Date :=
  match s.logFile with
  | none => s
  | some file => { s with
      files := Function.update s.files file (s.files file ++ s.logBuf.takeWhile (· ≠ 0))
      written := s.written ++ [⟨thread, frame, file, s.now⟩] }

/-- A step of a call that has the mutex. -/
def insideStep (thread : Nat) (frame : Frame) : Place → State Date
  | .snprintf => { s with logBuf := frame.call.front.take (kMaxLogLineSize - 1) }.goTo thread .vsnprintf frame
  | .vsnprintf =>
    { s with logBuf :=
        s.logBuf.take frame.call.front.length ++ frame.call.text.take (kMaxLogLineSize - frame.call.front.length - 1) }.goTo
      thread .isNewDay frame
  | .isNewDay => s.goTo thread (if localtime s.lastLogTime = localtime frame.currTime then .fwrite else .fclose) frame
  | .fclose => { s with logFile := none }.goTo thread .openFile frame
  | .openFile => { s with logFile := some (localtime s.now) }.goTo thread .fwrite frame
  | .fwrite => (s.fwrite thread frame).goTo thread .lastLogTime frame
  | .lastLogTime => { s with lastLogTime := frame.currTime }.goTo thread .unlock frame
  | .unlock => { s.setPc thread .idle with owner := none }

/-- The next step of a thread in its call; one that waits for the mutex stays where it is. -/
def advance (thread : Nat) : State Date :=
  match s.pc thread with
  | .idle => s
  | .time call => s.setPc thread (.lock ⟨call, s.now⟩)
  | .lock frame => if s.owner = none then { s.goTo thread .snprintf frame with owner := some thread } else s
  | .inside place frame => s.insideStep localtime thread frame place

end State

inductive Step where
  /-- The clock, which does not go back. -/
  | tick (time : Nat)
  | setLogLevel (level : LogLevel)
  | logMessage (thread : Nat) (call : Call)
  | advance (thread : Nat)

variable [LinearOrder Date]

def Step.exec (localtime : Nat → Date) (s : State Date) : Step → State Date
  | .tick time => { s with now := max s.now time }
  | .setLogLevel level => { s with logLevel := level }
  | .logMessage thread call => s.logMessage thread call
  | .advance thread => s.advance localtime thread

/-! ## The lines of the files -/

structure Logged (localtime : Nat → Date) (before : Date → List UInt8) (s : State Date) : Prop where
  /-- Behind what it had before a file has whole lines. -/
  whole : ∀ d, s.files d = before d ++ (s.written.filter (·.file = d)).flatMap (·.frame.call.line)
  /-- Every call that has passed the test has one line, in the order of the calls of its thread, but for one under way. -/
  once : ∀ t, (s.written.filter (·.thread = t)).map (·.frame.call) ++ (s.pc t).pending = s.accepted t
  /-- The file is not of a day before the tick of the line, and not of a day to come. -/
  dated : ∀ l ∈ s.written, localtime l.frame.currTime ≤ l.file ∧ l.file ≤ localtime l.time
  /-- No line is written into a file when there is one in the file of a later day. -/
  sorted : (s.written.map (·.file)).Pairwise (· ≤ ·)

/-- The open file is not of a day before the tick, and not of a day to come. -/
def State.OpenFor (localtime : Nat → Date) (s : State Date) (tick : Nat) : Prop :=
  ∃ file, s.logFile = some file ∧ localtime tick ≤ file ∧ file ≤ localtime s.now

/-- What a call that has the mutex finds. -/
def Place.Stands (localtime : Nat → Date) (s : State Date) (frame : Frame) : Place → Prop
  | .snprintf => s.OpenFor localtime s.lastLogTime
  | .vsnprintf => s.OpenFor localtime s.lastLogTime ∧ s.logBuf = frame.call.front
  | .isNewDay => s.OpenFor localtime s.lastLogTime ∧ s.logBuf = frame.call.formatted
  | .fclose => s.logBuf = frame.call.formatted
  | .openFile => s.logBuf = frame.call.formatted
  | .fwrite => s.OpenFor localtime frame.currTime ∧ s.logBuf = frame.call.formatted
  | .lastLogTime => s.OpenFor localtime frame.currTime
  | .unlock => s.OpenFor localtime s.lastLogTime

structure Inv (localtime : Nat → Date) (before : Date → List UInt8) (s : State Date) : Prop
    extends Logged localtime before s where
  holds : ∀ t place frame, s.pc t = .inside place frame → s.owner = some t
  free : s.owner = none → s.OpenFor localtime s.lastLogTime
  stamped : ∀ t frame, s.pc t = .lock frame → frame.currTime ≤ s.now
  stands : ∀ t place frame, s.pc t = .inside place frame → frame.currTime ≤ s.now ∧ place.Stands localtime s frame
  past : ∀ l ∈ s.written, l.file ≤ localtime s.now
  shelf : ∀ file, s.logFile = some file → ∀ l ∈ s.written, l.file ≤ file

variable {localtime : Nat → Date} {before : Date → List UInt8} {s : State Date} {t k n : Nat} {place next : Place}
  {frame : Frame} {pc : Pc}

namespace Inv

theorem init (mono : Monotone localtime) (level : LogLevel) (opened : k ≤ n) :
    Inv localtime before (State.init localtime level before k n) where
  whole _ := (List.append_nil _).symm
  once _ := rfl
  dated _ there := absurd there List.not_mem_nil
  sorted := List.Pairwise.nil
  holds _ _ _ is := Pc.noConfusion is
  free _ := ⟨localtime n, rfl, mono opened, le_rfl⟩
  stamped _ _ is := Pc.noConfusion is
  stands _ _ _ is := Pc.noConfusion is
  past _ there := absurd there List.not_mem_nil
  shelf _ _ _ there := absurd there List.not_mem_nil

/-- Nobody else has the mutex. -/
theorem alone (inv : Inv localtime before s) (there : s.pc t = .inside place frame) {other : Nat} (beside : other ≠ t)
    (place' : Place) (frame' : Frame) : s.pc other ≠ .inside place' frame' := by
  intro is
  have owner := (inv.holds t place frame there).symm.trans (inv.holds other place' frame' is)
  exact beside (Option.some.inj owner).symm

theorem tick (mono : Monotone localtime) (inv : Inv localtime before s) (time : Nat) :
    Inv localtime before { s with now := max s.now time } := by
  have later : s.now ≤ max s.now time := le_max_left _ _
  have openFor {k : Nat} (is : s.OpenFor localtime k) : State.OpenFor localtime { s with now := max s.now time } k := by
    obtain ⟨file, opened, least, most⟩ := is
    exact ⟨file, opened, least, most.trans (mono later)⟩
  refine ⟨⟨inv.whole, inv.once, inv.dated, inv.sorted⟩, inv.holds, fun is => openFor (inv.free is),
    fun t frame is => (inv.stamped t frame is).trans later, fun t place frame is => ?_,
    fun l there => (inv.past l there).trans (mono later), inv.shelf⟩
  obtain ⟨stamped, stands⟩ := inv.stands t place frame is
  refine ⟨stamped.trans later, ?_⟩
  cases place with
  | snprintf => exact openFor stands
  | vsnprintf => exact ⟨openFor stands.1, stands.2⟩
  | isNewDay => exact ⟨openFor stands.1, stands.2⟩
  | fclose => exact stands
  | openFile => exact stands
  | fwrite => exact ⟨openFor stands.1, stands.2⟩
  | lastLogTime => exact openFor stands
  | unlock => exact openFor stands

/-- A step of a thread outside of the mutex. -/
theorem outside (inv : Inv localtime before s) (accepted : Nat → List Call)
    (others : ∀ o, o ≠ t → accepted o = s.accepted o)
    (mine : (s.written.filter (·.thread = t)).map (·.frame.call) ++ pc.pending = accepted t)
    (away : ∀ place frame, pc ≠ .inside place frame) (stamped : ∀ frame, pc = .lock frame → frame.currTime ≤ s.now) :
    Inv localtime before { s.setPc t pc with accepted } := by
  refine ⟨⟨inv.whole, fun o => ?_, inv.dated, inv.sorted⟩, fun o place frame is => ?_, inv.free, fun o frame is => ?_,
    fun o place frame is => ?_, inv.past, inv.shelf⟩
  · by_cases same : o = t
    · subst same
      exact (congrArg (_ ++ Pc.pending ·) s.setPc_self).trans mine
    · exact (congrArg (_ ++ Pc.pending ·) (s.setPc_of_ne same)).trans ((inv.once o).trans (others o same).symm)
  · rcases s.setPc_cases is with ⟨-, rfl⟩ | ⟨-, is⟩
    · exact absurd rfl (away place frame)
    · exact inv.holds o place frame is
  · rcases s.setPc_cases is with ⟨-, rfl⟩ | ⟨-, is⟩
    · exact stamped frame rfl
    · exact inv.stamped o frame is
  · rcases s.setPc_cases is with ⟨-, rfl⟩ | ⟨-, is⟩
    · exact absurd rfl (away place frame)
    · exact inv.stands o place frame is

/-- The thread gets the mutex. -/
theorem lock (inv : Inv localtime before s) (there : s.pc t = .lock frame) (free : s.owner = none) :
    Inv localtime before { s.goTo t .snprintf frame with owner := some t } := by
  have nobody (o : Nat) (place : Place) (frame : Frame) : s.pc o ≠ .inside place frame := by
    intro is
    exact Option.some_ne_none o ((inv.holds o place frame is).symm.trans free)
  have kept : (Pc.inside .snprintf frame).pending = (s.pc t).pending := (congrArg Pc.pending there).symm
  refine ⟨⟨inv.whole, fun o => ?_, inv.dated, inv.sorted⟩, fun o place' frame' is => ?_,
    fun unowned => (Option.some_ne_none t unowned).elim, fun o frame' is => ?_, fun o place' frame' is => ?_,
    inv.past, inv.shelf⟩
  · exact (congrArg (_ ++ ·) (s.pending_kept kept)).trans (inv.once o)
  · rcases s.setPc_cases is with ⟨rfl, -⟩ | ⟨-, is⟩
    · rfl
    · exact absurd is (nobody o place' frame')
  · rcases s.setPc_cases is with ⟨-, is⟩ | ⟨-, is⟩
    · exact Pc.noConfusion is
    · exact inv.stamped o frame' is
  · rcases s.setPc_cases is with ⟨-, is⟩ | ⟨-, is⟩
    · cases is
      exact ⟨inv.stamped t frame there, inv.free free⟩
    · exact absurd is (nobody o place' frame')

/-- A step under the mutex that writes no line. -/
theorem goTo (inv : Inv localtime before s) (there : s.pc t = .inside place frame) (logFile : Option Date) (tick : Nat)
    (buf : List UInt8) (stands : next.Stands localtime { s with logFile, lastLogTime := tick, logBuf := buf } frame)
    (pending : (Pc.inside next frame).pending = (Pc.inside place frame).pending)
    (shelf : ∀ file, logFile = some file → ∀ l ∈ s.written, l.file ≤ file) :
    Inv localtime before ({ s with logFile, lastLogTime := tick, logBuf := buf }.goTo t next frame) := by
  have owner := inv.holds t place frame there
  refine ⟨⟨inv.whole, fun o => ?_, inv.dated, inv.sorted⟩, fun o place' frame' is => ?_,
    fun unowned => (Option.some_ne_none t (owner.symm.trans unowned)).elim, fun o frame' is => ?_,
    fun o place' frame' is => ?_, inv.past, shelf⟩
  · exact (congrArg (_ ++ ·) (State.pending_kept _ (pending.trans (congrArg Pc.pending there).symm))).trans (inv.once o)
  · rcases State.setPc_cases _ is with ⟨rfl, -⟩ | ⟨-, is⟩
    · exact owner
    · exact inv.holds o place' frame' is
  · rcases State.setPc_cases _ is with ⟨-, is⟩ | ⟨-, is⟩
    · exact Pc.noConfusion is
    · exact inv.stamped o frame' is
  · rcases State.setPc_cases _ is with ⟨-, is⟩ | ⟨beside, is⟩
    · cases is
      exact ⟨(inv.stands t place frame there).1, stands⟩
    · exact absurd is (inv.alone there beside place' frame')

/-- A line of the call that has the mutex goes into the file that is open. -/
theorem fwrite (inv : Inv localtime before s) (there : s.pc t = .inside .fwrite frame) :
    Inv localtime before ((s.fwrite t frame).goTo t .lastLogTime frame) := by
  obtain ⟨stamped, ⟨file, opened, least, most⟩, formatted⟩ := inv.stands t .fwrite frame there
  have line : s.logBuf.takeWhile (· ≠ 0) = frame.call.line := by rw [formatted, Call.line]
  have owner := inv.holds t .fwrite frame there
  unfold State.fwrite
  rw [opened]
  dsimp only
  rw [line]
  have below : ∀ l ∈ s.written ++ [⟨t, frame, file, s.now⟩], l.file ≤ file := by
    intro l there
    rcases List.mem_append.mp there with old | new
    · exact inv.shelf file opened l old
    · rw [List.mem_singleton.mp new]
  refine ⟨⟨fun d => ?_, fun o => ?_, fun l there => ?_, ?_⟩, fun o place' frame' is => ?_,
    fun unowned => (Option.some_ne_none t (owner.symm.trans unowned)).elim, fun o frame' is => ?_, fun o place' frame' is => ?_,
    fun l there => (below l there).trans most, fun file' is l there => ?_⟩
  · show Function.update s.files file _ d = before d ++ ((s.written ++ [_]).filter _).flatMap _
    rw [List.filter_append, List.flatMap_append, ← List.append_assoc, ← inv.whole d]
    by_cases same : d = file
    · subst same
      simp
    · simp [same, Ne.symm same]
  · show ((s.written ++ [_]).filter _).map _ ++ Pc.pending (Function.update s.pc t _ o) = s.accepted o
    rw [← inv.once o, List.filter_append, List.map_append, List.append_assoc]
    congr 1
    by_cases same : o = t
    · subst same
      simp [there, Pc.pending]
    · simp [same, Ne.symm same]
  · rcases List.mem_append.mp there with old | new
    · exact inv.dated l old
    · rw [List.mem_singleton.mp new]
      exact ⟨least, most⟩
  · show ((s.written ++ [_]).map _).Pairwise _
    rw [List.map_append, List.pairwise_append]
    refine ⟨inv.sorted, List.pairwise_singleton _ _, fun d old d' new => ?_⟩
    obtain ⟨l, written, rfl⟩ := List.mem_map.mp old
    rw [List.mem_singleton.mp new]
    exact inv.shelf file opened l written
  · rcases State.setPc_cases _ is with ⟨rfl, -⟩ | ⟨-, is⟩
    · exact owner
    · exact inv.holds o place' frame' is
  · rcases State.setPc_cases _ is with ⟨-, is⟩ | ⟨-, is⟩
    · exact Pc.noConfusion is
    · exact inv.stamped o frame' is
  · rcases State.setPc_cases _ is with ⟨-, is⟩ | ⟨beside, is⟩
    · cases is
      exact ⟨stamped, file, rfl, least, most⟩
    · exact absurd is (inv.alone there beside place' frame')
  · rw [← Option.some.inj is]
    exact below l there

/-- The thread gives the mutex back. -/
theorem unlock (inv : Inv localtime before s) (there : s.pc t = .inside .unlock frame) :
    Inv localtime before { s.setPc t .idle with owner := none } := by
  have stands := (inv.stands t .unlock frame there).2
  have kept : Pc.idle.pending = (s.pc t).pending := (congrArg Pc.pending there).symm
  refine ⟨⟨inv.whole, fun o => (congrArg (_ ++ ·) (s.pending_kept kept)).trans (inv.once o), inv.dated, inv.sorted⟩,
    fun o place' frame' is => ?_, fun _ => stands, fun o frame' is => ?_, fun o place' frame' is => ?_, inv.past, inv.shelf⟩
  · rcases s.setPc_cases is with ⟨-, is⟩ | ⟨beside, is⟩
    · exact Pc.noConfusion is
    · exact absurd is (inv.alone there beside place' frame')
  · rcases s.setPc_cases is with ⟨-, is⟩ | ⟨-, is⟩
    · exact Pc.noConfusion is
    · exact inv.stamped o frame' is
  · rcases s.setPc_cases is with ⟨-, is⟩ | ⟨beside, is⟩
    · exact Pc.noConfusion is
    · exact absurd is (inv.alone there beside place' frame')

theorem insideStep (mono : Monotone localtime) (inv : Inv localtime before s) (there : s.pc t = .inside place frame) :
    Inv localtime before (s.insideStep localtime t frame place) := by
  obtain ⟨stamped, stands⟩ := inv.stands t place frame there
  cases place with
  | snprintf =>
    have front : frame.call.front.take (kMaxLogLineSize - 1) = frame.call.front :=
      List.take_of_length_le (Nat.le_sub_one_of_lt frame.call.small)
    unfold State.insideStep
    rw [front]
    exact inv.goTo there s.logFile s.lastLogTime frame.call.front ⟨stands, rfl⟩ rfl inv.shelf
  | vsnprintf =>
    obtain ⟨opened, buf⟩ := stands
    unfold State.insideStep
    rw [buf, List.take_length]
    exact inv.goTo there s.logFile s.lastLogTime frame.call.formatted ⟨opened, rfl⟩ rfl inv.shelf
  | isNewDay =>
    obtain ⟨⟨file, opened, least, most⟩, buf⟩ := stands
    unfold State.insideStep
    by_cases same : localtime s.lastLogTime = localtime frame.currTime
    -- The open file may be of a later day than both ticks.
    · rw [if_pos same]
      exact inv.goTo there s.logFile s.lastLogTime s.logBuf ⟨⟨file, opened, same ▸ least, most⟩, buf⟩ rfl inv.shelf
    · rw [if_neg same]
      exact inv.goTo there s.logFile s.lastLogTime s.logBuf buf rfl inv.shelf
  | fclose => exact inv.goTo there none s.lastLogTime s.logBuf stands rfl fun file closed =>
    (Option.some_ne_none file closed.symm).elim
  | openFile =>
    -- `OpenFile` reads the clock again.
    have opened : ∃ file, some (localtime s.now) = some file ∧ localtime frame.currTime ≤ file ∧
        file ≤ localtime s.now :=
      ⟨_, rfl, mono stamped, le_rfl⟩
    refine inv.goTo there (some (localtime s.now)) s.lastLogTime s.logBuf ⟨opened, stands⟩ rfl fun file is l old => ?_
    rw [← Option.some.inj is]
    exact inv.past l old
  | fwrite => exact inv.fwrite there
  | lastLogTime => exact inv.goTo there s.logFile frame.currTime s.logBuf stands rfl inv.shelf
  | unlock => exact inv.unlock there

theorem advance (mono : Monotone localtime) (inv : Inv localtime before s) (t : Nat) :
    Inv localtime before (s.advance localtime t) := by
  unfold State.advance
  split
  next => exact inv
  next call there =>
    refine inv.outside s.accepted (fun _ _ => rfl) ?_ (fun _ _ is => Pc.noConfusion is) fun frame is => ?_
    · rw [← inv.once t, there]
      rfl
    · cases is
      exact Nat.le_refl s.now
  next frame there =>
    split
    next free => exact inv.lock there free
    next => exact inv
  next place frame there => exact inv.insideStep mono there

theorem logMessage (inv : Inv localtime before s) (t : Nat) (call : Call) : Inv localtime before (s.logMessage t call) := by
  unfold State.logMessage
  split
  next there =>
    split
    next => exact inv
    next =>
      refine inv.outside _ (fun o beside => Function.update_of_ne beside _ _) ?_ (fun _ _ is => Pc.noConfusion is)
        fun _ is => Pc.noConfusion is
      have settled := inv.once t
      rw [there, Pc.pending, List.append_nil] at settled
      rw [settled, Function.update_self]
      rfl
  next => exact inv

theorem exec (mono : Monotone localtime) (inv : Inv localtime before s) (step : Step) :
    Inv localtime before (step.exec localtime s) := by
  cases step with
  | tick time => exact inv.tick mono time
  | setLogLevel level => exact { inv with }
  | logMessage t call => exact inv.logMessage t call
  | advance t => exact inv.advance mono t

end Inv

/-- **Every line is whole, and it is in a file from the day of its tick to the day it is written on.** -/
theorem logged (mono : Monotone localtime) (level : LogLevel) (opened : k ≤ n) (steps : List Step) :
    Logged localtime before (Lib.run (Step.exec localtime) (State.init localtime level before k n) steps) := by
  have inv : Inv localtime before (Lib.run (Step.exec localtime) (State.init localtime level before k n) steps) :=
    Lib.run_inv (fun _ step inv => inv.exec mono step) (Inv.init mono level opened) steps
  exact inv.toLogged

/-! ## A midnight -/

/-- `localtime` in January 1970. -/
def january (tick : Nat) : ℕ ×ₗ ℕ ×ₗ ℕ := toLex (70, toLex (0, tick / 86400 + 1))

theorem january_mono : Monotone january := by
  intro a b least
  have days : a / 86400 + 1 ≤ b / 86400 + 1 := Nat.succ_le_succ (Nat.div_le_div_right least)
  exact Prod.Lex.toLex_le_toLex.mpr (.inr ⟨rfl, Prod.Lex.toLex_le_toLex.mpr (.inr ⟨rfl, days⟩)⟩)

def goodNight : Call := ⟨.info, [110], [10], by decide⟩

/-- Thread 0 reads the clock before midnight; thread 1 reads it after midnight and is the first to get the mutex. -/
def midnight : List Step :=
  [.logMessage 0 goodNight, .advance 0, .tick 86400, .logMessage 1 goodNight, .advance 1] ++ List.replicate 9 (.advance 1) ++
    List.replicate 9 (.advance 0)

/-- The line of thread 0 comes second and in the file of the new day. -/
theorem logged_midnight :
    ((Lib.run (Step.exec january) (State.init january .debug (fun _ => []) 86399 86399) midnight).written.map
      fun l => (l.thread, l.frame.currTime, l.file)) = [(1, 86400, january 86400), (0, 86399, january 86400)] ∧
    Logged january (fun _ => []) (Lib.run (Step.exec january) (State.init january .debug (fun _ => []) 86399 86399) midnight) :=
  ⟨rfl, logged january_mono .debug (Nat.le_refl 86399) midnight⟩

end Netter.SimpleLog
