import Netter.Lib.EdgeTriggered
import Netter.Lib.Run
import Netter.Conn.Model

/-!
# Handlers that drain their source

`epoll_wait` reports a descriptor once for what has come in, so a handler has to go on until there is nothing
left. `_AcceptNewSocket`, `_RecvData` and `_ReadWakeupData` go on until a call fails, for whatever reason.
-/

namespace Netter.Drain

open Lib

/-- The reasons why a call fails: nothing is there, something passes (`EINTR`, `ECONNABORTED`, `EMFILE`), or the
socket is broken and is closed for that. -/
inductive Errno where
  | wouldBlock
  | transient (code : Nat)
  | fatal (code : Nat)
  deriving DecidableEq

def ECONNABORTED : Nat := 103

structure CallResult where
  ret : Int
  errno : Option Errno
  deriving DecidableEq

/-- Would-block, the end of the stream, or an error that closes the socket. -/
def CallResult.Final (r : CallResult) : Prop :=
  r.ret = 0 ∨ r.errno = some .wouldBlock ∨ ∃ code, r.errno = some (.fatal code)

inductive Handler where
  | acceptNewSocket
  | recvData
  | readWakeupData
  deriving DecidableEq

def INVALID_SOCKET : Int := -1

/-- Whether the loop goes on after the result of its call. -/
def Handler.goesOn : Handler → Int → Bool
  | .acceptNewSocket, fd => !(fd == INVALID_SOCKET)
  | .recvData, ret => !decide (ret ≤ 0)
  | .readWakeupData, ret => decide (ret > 0)

/-- How much a call takes at the most: a connection, or the bytes that its buffer has room for. -/
def Handler.most : Handler → Nat
  | .acceptNewSocket => 1
  | .recvData => kReadBufSize.toNat
  | .readWakeupData => 16

/-- What the kernel answers to a call. `serve` takes something, at most `n` of it, if something is there; for
`accept`, `fd` is the new descriptor. -/
inductive Answer where
  | serve (n fd : Nat)
  | transient (code : Nat)
  | fatal (code : Nat)

variable {α : Type}

/-- The result of a call, and the source after it. -/
def Handler.call (handler : Handler) (source : Source α) : Answer → CallResult × Source α
  | .transient code => (⟨-1, some (.transient code)⟩, source)
  | .fatal code => (⟨-1, some (.fatal code)⟩, source.shut)
  | .serve n fd =>
    if source.queue.isEmpty then
      if source.fin then (⟨0, none⟩, source) else (⟨-1, some .wouldBlock⟩, source.block)
    else
      let count := min (max n 1) (min handler.most source.queue.length)
      (⟨if handler = .acceptNewSocket then fd else count, none⟩, source.take count)

structure State (α : Type) where
  source : Source α
  /-- The handler is in its loop. -/
  running : Bool
  /-- The results with which it has returned. -/
  returns : List CallResult

/-- A descriptor that has just been registered. -/
def State.watch (queue : List α) : State α := ⟨.watch queue, false, []⟩

/-- The event is reported. A listening socket and the wakeup socket go into their loop; for a connection `OnRead`
first asks how much is there, and it closes the connection if that is nothing. -/
def State.report (handler : Handler) (s : State α) (ioctlFails : Bool) : State α :=
  if handler = .recvData ∧ (ioctlFails || s.source.queue.isEmpty) = true then
    { s with source := s.source.report.shut }
  else { s with source := s.source.report, running := true }

/-- A round of the loop. At the end of the stream `OnRead` closes the connection afterwards. -/
def State.round (handler : Handler) (s : State α) (answer : Answer) : State α :=
  let (result, source) := handler.call s.source answer
  if handler.goesOn result.ret then { s with source := source }
  else
    { source := if handler = .recvData ∧ result.ret = 0 then source.shut else source
      running := false
      returns := s.returns ++ [result] }

/-- Things happen on the other side, in the loop and in the handler. -/
inductive Step (α : Type) where
  | arrive (items : List α) (extra : Bool)
  /-- The peer of a connection closes it. -/
  | finish (extra : Bool)
  | report (ioctlFails : Bool)
  | round (answer : Answer)
  /-- The program closes the descriptor. -/
  | close

/-- One that cannot be taken changes nothing. -/
def State.step (handler : Handler) (s : State α) : Step α → State α
  | .arrive items extra => { s with source := s.source.arrive items extra }
  | .finish extra => if handler = .recvData then { s with source := s.source.finish extra } else s
  | .report ioctlFails => if s.source.edge && s.source.isOpen && !s.running then s.report handler ioctlFails else s
  | .round answer => if s.running then s.round handler answer else s
  | .close => if s.running then s else { s with source := s.source.shut }

/-- What is promised: the handler has returned only when there was nothing left to take, and while it does not run
there is an event for whatever waits. -/
structure State.Drains (s : State α) : Prop where
  returned : ∀ r ∈ s.returns, r.Final
  reported : s.running = false → s.source.Waiting → s.source.edge = true

/-- The call of the handler does not fail for a reason that passes. -/
def Step.NoTransient (s : State α) : Step α → Prop
  | .round (.transient _) => s.running = false
  | _ => True

variable {handler : Handler} {s : State α} {source : Source α} {answer : Answer} {ioctlFails extra : Bool} {items queue : List α}

structure State.Inv (handler : Handler) (s : State α) : Prop where
  quiet : s.source.Quiet
  stream : handler ≠ .recvData → s.source.fin = false
  armed : s.running = false → (∀ r ∈ s.returns, r.Final) → s.source.Armed

theorem State.Inv.drains_iff (inv : s.Inv handler) : s.Drains ↔ ∀ r ∈ s.returns, r.Final := by
  constructor
  · exact fun drains => drains.returned
  · exact fun final => ⟨final, fun rest waiting => (inv.armed rest final).edge_of_waiting inv.quiet waiting⟩

theorem State.Inv.watch : (State.watch queue).Inv handler := ⟨.watch, fun _ => rfl, fun _ _ => .watch⟩

/-- What a call comes to. -/
inductive CallCase (handler : Handler) (source : Source α) (answer : Answer) : CallResult × Source α → Prop where
  | taken {ret : Int} {n : Nat} (goes : handler.goesOn ret = true) :
      CallCase handler source answer (⟨ret, none⟩, source.take n)
  | ends (empty : source.queue = []) (fin : source.fin = true) : CallCase handler source answer (⟨0, none⟩, source)
  | blocks (empty : source.queue = []) (noFin : source.fin = false) :
      CallCase handler source answer (⟨-1, some .wouldBlock⟩, source.block)
  | transient {code : Nat} (is : answer = .transient code) :
      CallCase handler source answer (⟨-1, some (.transient code)⟩, source)
  | fatal {code : Nat} : CallCase handler source answer (⟨-1, some (.fatal code)⟩, source.shut)

theorem call_cases (handler : Handler) (source : Source α) (answer : Answer) :
    CallCase handler source answer (handler.call source answer) := by
  cases answer with
  | transient code => exact .transient rfl
  | fatal code => exact .fatal
  | serve n fd =>
    simp only [Handler.call]
    split
    next empty =>
      have nothing : source.queue = [] := List.isEmpty_iff.mp empty
      cases fin : source.fin with
      | true => exact .ends nothing fin
      | false => exact .blocks nothing fin
    next some =>
      have there : 0 < source.queue.length := List.length_pos_iff.mpr (by simpa using some)
      apply CallCase.taken
      cases handler with
      | acceptNewSocket =>
        simp only [Handler.goesOn, if_true, INVALID_SOCKET, Bool.not_eq_true', beq_eq_false_iff_ne]
        omega
      | recvData =>
        have most : Handler.recvData.most = 2048 := rfl
        simp only [Handler.goesOn, reduceCtorEq, if_false, Bool.not_eq_true', decide_eq_false_iff_not]
        omega
      | readWakeupData =>
        have most : Handler.readWakeupData.most = 16 := rfl
        simp only [Handler.goesOn, reduceCtorEq, if_false, decide_eq_true_eq]
        omega

/-- A call that fails ends the loop, whatever the reason is. -/
theorem goesOn_neg_one (handler : Handler) : handler.goesOn (-1) = false := by
  cases handler <;> rfl

theorem not_final_transient {code : Nat} : ¬ CallResult.Final ⟨-1, some (.transient code)⟩ := by
  simp [CallResult.Final]

theorem State.Inv.report (inv : s.Inv handler) : (s.report handler ioctlFails).Inv handler := by
  unfold State.report
  split
  · exact ⟨inv.quiet, inv.stream, fun _ _ => .shut⟩
  · exact ⟨inv.quiet, inv.stream, fun rest => nomatch rest⟩

theorem State.Inv.round (inv : s.Inv handler) : (s.round handler answer).Inv handler := by
  have called := call_cases handler s.source answer
  unfold State.round
  generalize handler.call s.source answer = outcome at called ⊢
  cases called with
  | taken goes =>
    simp only [goes, if_true]
    refine ⟨inv.quiet.take, inv.stream, fun rest final => ?_⟩
    exact inv.armed rest final
  | ends empty fin =>
    -- only the stream of a connection has an end, and `OnRead` closes it
    obtain rfl : handler = .recvData := by
      by_contra other
      rw [inv.stream other] at fin
      cases fin
    exact ⟨inv.quiet, inv.stream, fun _ _ => .shut⟩
  | blocks empty noFin =>
    simp only [goesOn_neg_one, Bool.false_eq_true, if_false, Int.reduceNeg, Int.reduceEq, and_false]
    exact ⟨.block empty noFin, inv.stream, fun _ _ => .block⟩
  | @transient code =>
    simp only [goesOn_neg_one, Bool.false_eq_true, if_false, Int.reduceNeg, Int.reduceEq, and_false]
    refine ⟨inv.quiet, inv.stream, fun _ final => ?_⟩
    exact absurd (final ⟨-1, some (.transient code)⟩ (by simp)) not_final_transient
  | fatal =>
    simp only [goesOn_neg_one, Bool.false_eq_true, if_false, Int.reduceNeg, Int.reduceEq, and_false]
    exact ⟨inv.quiet, inv.stream, fun _ _ => .shut⟩

theorem State.Inv.step (inv : s.Inv handler) (step : Step α) : (s.step handler step).Inv handler := by
  cases step with
  | arrive items extra =>
    exact ⟨.of_not_drained rfl, inv.stream, fun rest final => (inv.armed rest final).arrive⟩
  | finish extra =>
    simp only [State.step]
    split
    next stream =>
      exact ⟨.of_not_drained rfl, fun other => absurd stream other, fun rest final => (inv.armed rest final).finish⟩
    next => exact inv
  | report ioctlFails =>
    simp only [State.step]
    split
    · exact inv.report
    · exact inv
  | round answer =>
    simp only [State.step]
    split
    · exact inv.round
    · exact inv
  | close =>
    simp only [State.step]
    split
    · exact inv
    · exact ⟨inv.quiet, inv.stream, fun _ _ => .shut⟩

theorem final_append {r : CallResult} {returns : List CallResult} (final : ∀ r ∈ returns, r.Final) :
    (∀ q ∈ returns ++ [r], q.Final) ↔ r.Final := by
  constructor
  · exact fun all => all r (by simp)
  · intro last q member
    rcases List.mem_append.mp member with old | new
    · exact final q old
    · exact List.mem_singleton.mp new ▸ last

/-- The handler returns for a good reason if and only if its call has not failed in passing. -/
theorem State.Inv.round_final_iff (inv : s.Inv handler) (final : ∀ r ∈ s.returns, r.Final) (running : s.running = true) :
    (∀ r ∈ (s.round handler answer).returns, r.Final) ↔ (Step.round (α := α) answer).NoTransient s := by
  by_cases passing : ∃ code, answer = .transient code
  · obtain ⟨code, rfl⟩ := passing
    simp only [State.round, Handler.call, goesOn_neg_one, Bool.false_eq_true, if_false, final_append final,
      not_final_transient, Step.NoTransient, running, reduceCtorEq]
  · have meets : (Step.round (α := α) answer).NoTransient s := by
      cases answer with
      | transient code => exact absurd ⟨code, rfl⟩ passing
      | serve => trivial
      | fatal => trivial
    refine ⟨fun _ => meets, fun _ => ?_⟩
    have called := call_cases handler s.source answer
    unfold State.round
    generalize handler.call s.source answer = outcome at called ⊢
    cases called with
    | taken goes =>
      simp only [goes, if_true]
      exact final
    | ends empty fin =>
      obtain rfl : handler = .recvData := by
        by_contra other
        rw [inv.stream other] at fin
        cases fin
      exact (final_append final).mpr (.inl rfl)
    | blocks =>
      simp only [goesOn_neg_one, Bool.false_eq_true, if_false]
      exact (final_append final).mpr (.inr (.inl rfl))
    | transient is => exact absurd ⟨_, is⟩ passing
    | fatal =>
      simp only [goesOn_neg_one, Bool.false_eq_true, if_false]
      exact (final_append final).mpr (.inr (.inr ⟨_, rfl⟩))

theorem State.Inv.step_drains_iff (inv : s.Inv handler) (drains : s.Drains) (step : Step α) :
    (s.step handler step).Drains ↔ step.NoTransient s := by
  have final := inv.drains_iff.mp drains
  rw [(inv.step step).drains_iff]
  cases step with
  | round answer =>
    simp only [State.step]
    split
    next running => exact inv.round_final_iff final running
    next rest =>
      refine ⟨fun _ => ?_, fun _ => final⟩
      cases answer with
      | transient => simpa [Step.NoTransient] using rest
      | serve => trivial
      | fatal => trivial
  | arrive => exact ⟨fun _ => trivial, fun _ => final⟩
  | finish =>
    refine ⟨fun _ => trivial, fun _ => ?_⟩
    simp only [State.step]
    split <;> exact final
  | report =>
    refine ⟨fun _ => trivial, fun _ => ?_⟩
    simp only [State.step, State.report]
    split
    · split <;> exact final
    · exact final
  | close =>
    refine ⟨fun _ => trivial, fun _ => ?_⟩
    simp only [State.step]
    split <;> exact final

/-- **The handlers drain their source** if and only if none of their calls fails for a reason that passes. -/
theorem handlers_drain_iff (handler : Handler) (queue : List α) (steps : List (Step α)) :
    (∀ js, js <+: steps → (run (State.step handler) (.watch queue) js).Drains) ↔
      Along (State.step handler) (fun s step => step.NoTransient s) (.watch queue) steps := by
  have start : (State.watch queue).Inv handler := .watch
  apply run_prefixes_iff (I := State.Inv handler)
  · exact fun s step inv => inv.step step
  · exact fun s step inv drains => inv.step_drains_iff drains step
  · exact start
  · exact start.drains_iff.mpr fun r member => nomatch member

/-- Two connections wait for the listening socket, and after the first one `accept` fails with `ECONNABORTED`: the
second one stays where it is, and no event is due for it. -/
theorem not_drains : ¬ (run (State.step .acceptNewSocket) (.watch [1, 2])
    [.report false, .round (.serve 1 5), .round (.transient ECONNABORTED)]).Drains := by
  intro drains
  have reported := drains.reported rfl ⟨rfl, .inl (List.cons_ne_nil 2 [])⟩
  cases reported

end Netter.Drain
