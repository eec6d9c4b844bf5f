import Netter.Lib.Run

/-!
# References around calls on a connection

The calls of virtual methods on one connection in its loop thread, with the overrides that call the
method of `BaseConn` first. `conn_callback` holds a reference around its call; `connect_callback`,
`loop_callback`, `CloseHandle` and the methods of `BaseConn` that call `Close()` do not. The object is
destroyed when the count reaches zero, which is too early while a call that the library has made on
it is still running.
-/

namespace Netter.Outlive

/-- A virtual method of `BaseConn`. -/
inductive Method where
  | onConnect
  | onConfirm
  | onRead
  | onWrite
  | onClose
  | onTimer
  | close
  deriving DecidableEq

/-- Who has made a call: `conn_callback`, another place of the library, or the application. -/
inductive Maker where
  | connCallback
  | library
  | application
  deriving DecidableEq

/-- A call that is running. `based` says that the method of `BaseConn` has returned to the override. -/
structure Call where
  method : Method
  maker : Maker
  based : Bool

/-- A connection over its life. Its handle is valid, and it is in `conn_map`, while it is registered. -/
inductive Life where
  | absent
  | made
  | registered
  | closed
  deriving DecidableEq

structure State where
  life : Life
  refCount : Nat
  /-- The calls that are running, the innermost one first. -/
  stack : List Call

def State.init : State := ⟨.absent, 0, []⟩

/-- The override of the innermost call runs: after the method of `BaseConn`, or in `HandlePkt`, which
`BaseConn::OnRead` calls. Outside of all calls other code of the loop thread runs. -/
def State.appRuns (s : State) : Bool :=
  match s.stack with
  | [] => true
  | call :: _ => call.based || call.method = .onRead

def State.push (s : State) (method : Method) (maker : Maker) : State :=
  { s with stack := ⟨method, maker, false⟩ :: s.stack }

/-- `BaseConn::Close`. -/
def State.baseClose (s : State) : State :=
  if s.life = .registered then { s with life := .closed, refCount := s.refCount - 1 } else s

/-- The method of `BaseConn`. `OnClose` calls `Close()`; `OnTimer` does after a timeout, and `OnRead` calls
`OnClose()` when a packet is malformed or an exception comes out of `HandlePkt`. -/
def State.base (s : State) (fails : Bool) : Method → State
  | .onConnect => { s with life := .registered }
  | .onConfirm => s
  | .onRead => if fails then s.push .onClose .library else s
  | .onWrite => s
  | .onClose => s.push .close .library
  | .onTimer => if fails then s.push .close .library else s
  | .close => s.baseClose

/-- What happens next in the loop thread; a step that cannot be taken changes nothing. -/
inductive Step where
  /-- `connect_callback`: `new T()` and `OnConnect`. -/
  | accept
  /-- `BaseConn::Connect` by the application. -/
  | connect
  /-- `conn_callback` with a message: the reference and the call. -/
  | callback (method : Method)
  /-- `loop_callback` comes to a posted close. -/
  | postedClose
  /-- `CloseHandle` in the loop thread, from an override of this connection or from elsewhere. -/
  | closeHandle
  /-- The application calls `Close()` itself. -/
  | close
  /-- The innermost call runs the method of `BaseConn`; `fails` is a timeout or a malformed packet. -/
  | base (fails : Bool)
  /-- The innermost call returns. -/
  | done

def Step.exec (s : State) : Step → State
  | .accept => if s.life = .absent then { s.push .onConnect .library with life := .made, refCount := 1 } else s
  | .connect => if s.life = .absent then { s with life := .registered, refCount := 1 } else s
  | .callback method =>
    if s.stack.isEmpty ∧ s.life = .registered ∧ method ≠ .onConnect ∧ method ≠ .close then
      { s.push method .connCallback with refCount := s.refCount + 1 }
    else s
  | .postedClose => if s.stack.isEmpty ∧ s.life = .registered then s.push .close .library else s
  | .closeHandle => if s.appRuns ∧ s.life = .registered then s.push .close .library else s
  | .close => if s.appRuns ∧ s.life ≠ .absent then s.push .close .application else s
  | .base fails =>
    match s.stack with
    | [] => s
    | call :: rest =>
      if call.based then s
      else State.base { s with stack := { call with based := true } :: rest } fails call.method
  | .done =>
    match s.stack with
    | [] => s
    | call :: rest =>
      if call.based then
        { s with
          stack := rest
          refCount := if call.maker = .connCallback then s.refCount - 1 else s.refCount }
      else s

def runCalls (steps : List Step) : State := Lib.run Step.exec .init steps

/-! ## The object outlives the calls on it -/

/-- A call that the library has made on the object is running. -/
def State.inCall (s : State) : Prop := ∃ call ∈ s.stack, call.maker ≠ .application

/-- The object is there as long as a call that the library has made on it is running. -/
def Outlives (s : State) : Prop := s.inCall → 0 < s.refCount

/-- `BaseConn::Close` takes effect, within a call that the library has made on the object, only in a callback
that `conn_callback` has made. -/
def Step.Meets (s : State) (step : Step) : Prop :=
  ∀ fails call rest, step = .base fails → s.stack = call :: rest → call.based = false → call.method = .close →
    s.life = .registered → s.inCall → ∃ outer ∈ s.stack, outer.maker = .connCallback

/-- Only the outermost call is made by `conn_callback`. -/
def Outermost : List Call → Prop
  | [] => True
  | call :: rest => (call.maker = .connCallback → rest = []) ∧ Outermost rest

def callbacks (stack : List Call) : Nat := stack.countP (·.maker = .connCallback)

/-- The reference that the connection has of itself until it is closed. -/
def Life.refs : Life → Nat
  | .made => 1
  | .registered => 1
  | _ => 0

structure Inv (s : State) : Prop where
  counted : s.refCount = s.life.refs + callbacks s.stack
  outermost : Outermost s.stack
  /-- The application calls nothing but `Close()`. -/
  application : ∀ call ∈ s.stack, call.maker = .application → call.method = .close
  absent : s.life = .absent → s.stack = []
  /-- Nothing else is called before `BaseConn::OnConnect` has registered the connection. -/
  made : s.life = .made → s.stack = [⟨.onConnect, .library, false⟩]
  connecting : ∀ call ∈ s.stack, call.method = .onConnect → call.based = false → s.life = .made

variable {s : State} {call : Call} {rest : List Call} {method : Method} {maker : Maker} {steps : List Step}

theorem Inv.push (inv : Inv s) (there : s.life ≠ .absent) (known : s.life ≠ .made) (later : method ≠ .onConnect)
    (inner : maker ≠ .connCallback) (closes : maker = .application → method = .close) : Inv (s.push method maker) := by
  constructor
  · show s.refCount = s.life.refs + (⟨method, maker, false⟩ :: s.stack : List Call).countP _
    rw [List.countP_cons_of_neg (by simpa using inner)]
    exact inv.counted
  · exact ⟨fun made => absurd made inner, inv.outermost⟩
  · intro call member
    rcases List.mem_cons.mp member with rfl | old
    · exact closes
    · exact inv.application call old
  · exact fun absent => absurd absent there
  · exact fun made => absurd made known
  · intro call member
    rcases List.mem_cons.mp member with rfl | old
    · exact fun connect => absurd connect later
    · exact inv.connecting call old

/-- One call is running. -/
theorem Inv.single {life : Life} {refCount : Nat} (counted : refCount = life.refs + callbacks [call])
    (maker : call.maker ≠ .application) (there : life ≠ .absent)
    (made : life = .made → call = ⟨.onConnect, .library, false⟩)
    (connecting : call.method = .onConnect → call.based = false → life = .made) : Inv ⟨life, refCount, [call]⟩ := by
  refine ⟨counted, ⟨fun _ => rfl, trivial⟩, ?_, fun absent => absurd absent there, ?_, ?_⟩
  · intro other member application
    rw [List.mem_singleton.mp member] at application
    exact absurd application maker
  · exact fun is => congrArg (fun call => [call]) (made is)
  · intro other member
    rw [List.mem_singleton.mp member]
    exact connecting

/-- The application runs only before the connection is made or after it is registered. -/
theorem Inv.not_made (inv : Inv s) (runs : s.appRuns = true) : s.life ≠ .made := by
  intro made
  unfold State.appRuns at runs
  rw [inv.made made] at runs
  cases runs

/-- The method of `BaseConn` has returned. -/
theorem Inv.based (inv : Inv s) (stack : s.stack = call :: rest) (later : call.method ≠ .onConnect) :
    Inv { s with stack := { call with based := true } :: rest } := by
  obtain ⟨counted, outermost, application, absent, made, connecting⟩ := inv
  rw [stack] at counted outermost application absent made connecting
  constructor
  · exact counted
  · exact outermost
  · intro other member
    rcases List.mem_cons.mp member with rfl | old
    · exact application call List.mem_cons_self
    · exact application other (List.mem_cons_of_mem call old)
  · exact fun none => absurd (absent none) (List.cons_ne_nil call rest)
  · intro is
    obtain ⟨rfl, _⟩ := List.cons.inj (made is)
    exact absurd rfl later
  · intro other member
    rcases List.mem_cons.mp member with rfl | old
    · exact fun connect => absurd connect later
    · exact connecting other (List.mem_cons_of_mem call old)

theorem Inv.baseClose (inv : Inv s) : Inv s.baseClose := by
  unfold State.baseClose
  split
  next registered =>
    refine ⟨?_, inv.outermost, inv.application, nofun, nofun, fun call member connect unbased => ?_⟩
    · show s.refCount - 1 = 0 + callbacks s.stack
      rw [inv.counted, registered]
      show 1 + callbacks s.stack - 1 = 0 + callbacks s.stack
      omega
    · have made := inv.connecting call member connect unbased
      rw [registered] at made
      cases made
  next => exact inv

theorem Inv.base {fails : Bool} (inv : Inv s) (stack : s.stack = call :: rest) (unbased : call.based = false) :
    Inv (State.base { s with stack := { call with based := true } :: rest } fails call.method) := by
  have there : s.life ≠ .absent := by
    intro absent
    rw [inv.absent absent] at stack
    cases stack
  have known (later : call.method ≠ .onConnect) : s.life ≠ .made := by
    intro made
    rw [inv.made made] at stack
    cases stack
    exact later rfl
  obtain ⟨method, maker, based⟩ := call
  cases method with
  | onConnect =>
    have made := inv.connecting _ (stack ▸ List.mem_cons_self) rfl unbased
    have only := inv.made made
    rw [stack] at only
    obtain ⟨is, rfl⟩ := List.cons.inj only
    cases is
    have counted := inv.counted
    rw [made, stack] at counted
    exact .single counted nofun nofun nofun nofun
  | onConfirm => exact inv.based stack nofun
  | onWrite => exact inv.based stack nofun
  | onRead =>
    cases fails with
    | false => exact inv.based stack nofun
    | true => exact (inv.based stack nofun).push there (known nofun) nofun nofun nofun
  | onClose => exact (inv.based stack nofun).push there (known nofun) nofun nofun nofun
  | onTimer =>
    cases fails with
    | false => exact inv.based stack nofun
    | true => exact (inv.based stack nofun).push there (known nofun) nofun nofun nofun
  | close => exact (inv.based stack nofun).baseClose

theorem Inv.done (inv : Inv s) (stack : s.stack = call :: rest) (based : call.based = true) :
    Inv { s with
      stack := rest
      refCount := if call.maker = .connCallback then s.refCount - 1 else s.refCount } := by
  obtain ⟨counted, outermost, application, absent, made, connecting⟩ := inv
  rw [stack] at counted outermost application absent made connecting
  refine ⟨?_, outermost.2, fun other member => application other (List.mem_cons_of_mem call member), ?_, ?_, ?_⟩
  · show (if call.maker = .connCallback then s.refCount - 1 else s.refCount) = s.life.refs + callbacks rest
    unfold callbacks at counted ⊢
    by_cases callback : call.maker = .connCallback
    · rw [List.countP_cons_of_pos (by simpa using callback)] at counted
      rw [if_pos callback]
      omega
    · rw [List.countP_cons_of_neg (by simpa using callback)] at counted
      rw [if_neg callback]
      exact counted
  · exact fun none => absurd (absent none) (List.cons_ne_nil call rest)
  · intro is
    obtain ⟨rfl, _⟩ := List.cons.inj (made is)
    cases based
  · exact fun other member => connecting other (List.mem_cons_of_mem call member)

theorem Inv.exec (inv : Inv s) (step : Step) : Inv (step.exec s) := by
  unfold Step.exec
  split
  next =>
    split
    next absent =>
      unfold State.push
      rw [inv.absent absent]
      exact .single rfl nofun nofun (fun _ => rfl) fun _ _ => rfl
    next => exact inv
  next =>
    split
    next absent =>
      have none := inv.absent absent
      refine ⟨?_, inv.outermost, inv.application, nofun, nofun, fun call member => ?_⟩
      · show 1 = 1 + callbacks s.stack
        rw [none]
        rfl
      · rw [none] at member
        cases member
    next => exact inv
  next method =>
    split
    next starts =>
      obtain ⟨idle, registered, later, inner⟩ := starts
      have counted := inv.counted
      unfold State.push
      rw [List.isEmpty_iff.mp idle, registered] at counted ⊢
      refine .single ?_ nofun nofun nofun fun connect => absurd connect later
      rw [counted]
      rfl
    next => exact inv
  next =>
    split
    next starts => exact inv.push (by rw [starts.2]; nofun) (by rw [starts.2]; nofun) nofun nofun nofun
    next => exact inv
  next =>
    split
    next starts => exact inv.push (by rw [starts.2]; nofun) (by rw [starts.2]; nofun) nofun nofun nofun
    next => exact inv
  next =>
    split
    next starts => exact inv.push starts.2 (inv.not_made starts.1) nofun nofun fun _ => rfl
    next => exact inv
  next fails =>
    split
    next => exact inv
    next call rest stack =>
      split
      next => exact inv
      next unbased => exact inv.base stack (Bool.not_eq_true _ ▸ unbased)
  next =>
    split
    next => exact inv
    next call rest stack =>
      split
      next based => exact inv.done stack based
      next => exact inv

theorem Inv.init : Inv .init := ⟨rfl, trivial, nofun, fun _ => rfl, nofun, nofun⟩

theorem callbacks_pos {stack : List Call} : 0 < callbacks stack ↔ ∃ call ∈ stack, call.maker = .connCallback := by
  unfold callbacks
  rw [List.countP_pos_iff]
  simp only [decide_eq_true_eq]

theorem Inv.registered_pos (inv : Inv s) (registered : s.life = .registered) : 0 < s.refCount := by
  rw [inv.counted, registered]
  exact Nat.add_pos_left Nat.one_pos _

/-- A call within a call. -/
theorem Outlives.push (outlives : Outlives s) (within : s.inCall ∨ 0 < s.refCount) : Outlives (s.push method maker) := by
  intro _
  rcases within with inCall | positive
  · exact outlives inCall
  · exact positive

/-- A call of the application does not count. -/
theorem Outlives.pushOwn (outlives : Outlives s) : Outlives (s.push method .application) := by
  rintro ⟨call, member, made⟩
  rcases List.mem_cons.mp member with rfl | old
  · exact absurd rfl made
  · exact outlives ⟨call, old, made⟩

theorem inCall_based {based : Bool} (stack : s.stack = call :: rest) :
    State.inCall { s with stack := { call with based } :: rest } ↔ s.inCall := by
  unfold State.inCall
  rw [stack]
  simp only [List.mem_cons, exists_eq_or_imp]

/-- The effect of `BaseConn::Close` within a call. -/
theorem Inv.close_iff (inv : Inv s) (registered : s.life = .registered) :
    Outlives s.baseClose ↔ (s.inCall → ∃ outer ∈ s.stack, outer.maker = .connCallback) := by
  have counted := inv.counted
  have left : s.refCount - 1 = callbacks s.stack := by
    rw [counted, registered]
    show 1 + callbacks s.stack - 1 = callbacks s.stack
    omega
  unfold Outlives State.baseClose
  rw [if_pos registered]
  show (s.inCall → 0 < s.refCount - 1) ↔ _
  rw [left, callbacks_pos]

theorem Inv.base_iff (fails : Bool) (inv : Inv s) (outlives : Outlives s) (stack : s.stack = call :: rest)
    (unbased : call.based = false) :
    Outlives (State.base { s with stack := { call with based := true } :: rest } fails call.method) ↔
      (call.method = .close → s.life = .registered → s.inCall → ∃ outer ∈ s.stack, outer.maker = .connCallback) := by
  have same : Outlives { s with stack := { call with based := true } :: rest } := by
    intro inCall
    exact outlives ((inCall_based stack).mp inCall)
  have within (other : call.method ≠ .close) : State.inCall { s with stack := { call with based := true } :: rest } := by
    refine (inCall_based stack).mpr ⟨call, stack ▸ List.mem_cons_self, fun application => other ?_⟩
    exact inv.application call (stack ▸ List.mem_cons_self) application
  obtain ⟨method, maker, based⟩ := call
  have kept {t : State} (holds : Outlives t) (other : method ≠ .close) :
      Outlives t ↔ (method = .close → s.life = .registered → s.inCall → ∃ outer ∈ s.stack, outer.maker = .connCallback) :=
    ⟨fun _ is => absurd is other, fun _ => holds⟩
  cases method with
  | onConnect => exact kept same nofun
  | onConfirm => exact kept same nofun
  | onWrite => exact kept same nofun
  | onRead =>
    cases fails with
    | false => exact kept same nofun
    | true => exact kept (same.push (.inl (within nofun))) nofun
  | onClose => exact kept (same.push (.inl (within nofun))) nofun
  | onTimer =>
    cases fails with
    | false => exact kept same nofun
    | true => exact kept (same.push (.inl (within nofun))) nofun
  | close =>
    by_cases registered : s.life = .registered
    · have closing := (inv.based stack nofun).close_iff registered
      rw [inCall_based stack] at closing
      refine closing.trans ⟨fun safe _ _ inCall => ?_, fun safe inCall => ?_⟩
      · rw [stack]
        simpa using safe inCall
      · have outer := safe rfl registered inCall
        rw [stack] at outer
        simpa using outer
    · have idle : State.baseClose { s with stack := ⟨.close, maker, true⟩ :: rest } =
          { s with stack := ⟨.close, maker, true⟩ :: rest } := if_neg registered
      show Outlives (State.baseClose { s with stack := ⟨.close, maker, true⟩ :: rest }) ↔ _
      rw [idle]
      exact ⟨fun _ _ is => absurd is registered, fun _ => same⟩

/-- Only `BaseConn::Close` can take the object away too early. -/
theorem Outlives.exec (outlives : Outlives s) (inv : Inv s) {step : Step} (other : ∀ fails, step ≠ .base fails) :
    Outlives (step.exec s) := by
  unfold Step.exec
  split
  next =>
    split
    next => exact fun _ => Nat.one_pos
    next => exact outlives
  next =>
    split
    next => exact fun _ => Nat.one_pos
    next => exact outlives
  next method =>
    split
    next => exact fun _ => Nat.succ_pos s.refCount
    next => exact outlives
  next =>
    split
    next starts => exact outlives.push (.inr (inv.registered_pos starts.2))
    next => exact outlives
  next =>
    split
    next starts => exact outlives.push (.inr (inv.registered_pos starts.2))
    next => exact outlives
  next =>
    split
    next => exact outlives.pushOwn
    next => exact outlives
  next fails => exact absurd rfl (other fails)
  next =>
    split
    next => exact outlives
    next call rest stack =>
      split
      next =>
        rintro ⟨inner, member, made⟩
        have member : inner ∈ rest := member
        have outermost := inv.outermost
        rw [stack] at outermost
        have notCallback : call.maker ≠ .connCallback := by
          intro callback
          rw [outermost.1 callback] at member
          cases member
        show 0 < if call.maker = .connCallback then s.refCount - 1 else s.refCount
        rw [if_neg notCallback]
        exact outlives ⟨inner, stack ▸ List.mem_cons_of_mem call member, made⟩
      next => exact outlives

/-- A step keeps the object alive exactly if it meets the condition. -/
theorem Inv.exec_outlives_iff (inv : Inv s) (outlives : Outlives s) (step : Step) : Outlives (step.exec s) ↔ step.Meets s := by
  by_cases other : ∀ fails, step ≠ .base fails
  · exact ⟨fun _ fails _ _ is => absurd is (other fails), fun _ => outlives.exec inv other⟩
  · push Not at other
    obtain ⟨fails, rfl⟩ := other
    cases stack : s.stack with
    | nil =>
      have same : (Step.base fails).exec s = s := by
        simp only [Step.exec, stack]
      rw [same]
      refine ⟨fun _ _ call rest _ is => ?_, fun _ => outlives⟩
      rw [stack] at is
      cases is
    | cons call rest =>
      cases based : call.based with
      | true =>
        have same : (Step.base fails).exec s = s := by
          simp only [Step.exec, stack, based, if_true]
        rw [same]
        refine ⟨fun _ _ other _ _ is unbased => ?_, fun _ => outlives⟩
        rw [stack] at is
        cases is
        rw [based] at unbased
        cases unbased
      | false =>
        have runs : (Step.base fails).exec s =
            State.base { s with stack := { call with based := true } :: rest } fails call.method := by
          simp only [Step.exec, stack, based, Bool.false_eq_true, if_false]
        rw [runs]
        refine (inv.base_iff fails outlives stack based).trans ⟨fun safe _ other _ _ is _ => ?_, fun meets => ?_⟩
        · rw [stack] at is
          cases is
          exact safe
        · exact meets fails call rest rfl stack based

/-- **A connection outlives the calls on it** if and only if it is closed within them in callbacks only. -/
theorem outlives_iff (steps : List Step) :
    (∀ before, before <+: steps → Outlives (runCalls before)) ↔
      Lib.Along Step.exec (fun s step => step.Meets s) .init steps :=
  Lib.run_prefixes_iff (fun _ step inv => Inv.exec inv step) (fun _ step inv outlives => inv.exec_outlives_iff outlives step)
    .init nofun

/-- A posted close: `BaseConn::Close` destroys the object, and the override of `Close` still has to return. -/
theorem not_outlives : ¬ Outlives (runCalls [.connect, .postedClose, .base false]) := by
  intro outlives
  have positive := outlives ⟨⟨.close, .library, true⟩, List.mem_cons_self, nofun⟩
  exact absurd positive (by decide)

end Netter.Outlive
