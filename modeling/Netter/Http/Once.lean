import Mathlib.Data.Nat.Find
import Netter.Lib.Run
import Netter.Http.Request
import Netter.Http.Conn

/-!
# How often a request is handled

Each `OnRead` parses all that the connection has received, and nothing records that a handler has been called
for it. A handler that answers later leaves the connection open; what is read until then has the same
request handled again.
-/

namespace Netter.Http

open Lib

/-- An `HttpConn` over its life. `served` has the buffer of each call of a handler and of each 404. -/
structure Life where
  inBuf : List UInt8
  registered : Bool
  served : List (List UInt8)

def Life.init : Life := ⟨[], true, []⟩

inductive LifeStep where
  /-- `OnRead` with the bytes that `_RecvData` gets. The wrapper is as another connection has left it; `closes`
  says whether a handler that is called closes the connection before it returns. -/
  | onRead (bytes : List UInt8) (w : HttpParserWrapper) (closes : Bool)
  /-- A posted close, a timeout, or the end of the stream. -/
  | close

def LifeStep.exec (handlers : HttpHandlerMap) (s : Life) : LifeStep → Life
  | .onRead bytes w closes =>
    if s.registered then
      let inBuf := s.inBuf ++ bytes
      match HttpConn.onRead handlers w inBuf with
      | some (.handler _ _) => { inBuf, registered := !closes, served := s.served ++ [inBuf] }
      | some .notFound => { inBuf, registered := false, served := s.served ++ [inBuf] }
      | none => { s with inBuf }
    else s
  | .close => { s with registered := false }

/-- There is a complete request in the buffer. -/
def HoldsRequest (buf : List UInt8) : Prop := .messageComplete ∈ (HttpParser.init.execute buf).2

/-- No request at the front of the stream has been handled twice. -/
def HandledOnce (s : Life) : Prop :=
  ∀ request, Complete request → s.served.countP (fun buf => request.isPrefixOf buf) ≤ 1

/-- Nothing is read behind a complete request. -/
def LifeStep.ReadsNothingBehind (s : Life) (step : LifeStep) : Prop :=
  ∀ bytes w closes, step = .onRead bytes w closes → s.registered = true → ¬ HoldsRequest s.inBuf

variable {handlers : HttpHandlerMap} {s : Life} {buf more : List UInt8} {w : HttpParserWrapper}

theorem HoldsRequest.of_prefix (holds : HoldsRequest buf) (isPrefix : buf <+: more) : HoldsRequest more := by
  obtain ⟨rest, rfl⟩ := isPrefix
  exact HttpParser.ready_init.complete_append holds

/-- The first request in a buffer. -/
theorem HoldsRequest.exists_complete (holds : HoldsRequest buf) : ∃ request, request <+: buf ∧ Complete request := by
  have some : ∃ k, .messageComplete ∈ (HttpParser.init.execute (buf.take k)).2 := ⟨buf.length, by rwa [List.take_length]⟩
  refine ⟨buf.take (Nat.find some), List.take_prefix _ _, Complete.of_take (Nat.find_spec some) fun k short => ?_⟩
  have less : k < Nat.find some := Nat.lt_of_lt_of_le short (List.length_take_le _ _)
  rw [List.take_take, Nat.min_eq_left (Nat.le_of_lt less)]
  exact Nat.find_min some less

/-- What has been served is at the front of what has been received, and a request in it has been served. -/
structure Life.Inv (s : Life) : Prop where
  front : ∀ buf ∈ s.served, buf <+: s.inBuf ∧ HoldsRequest buf
  served : s.registered = true → HoldsRequest s.inBuf → s.served ≠ []

/-- `OnRead` with a complete request serves it. -/
theorem exec_onRead_served (handlers : HttpHandlerMap) (w : HttpParserWrapper) (registered : s.registered = true)
    {bytes : List UInt8} (closes : Bool)
    (holds : HoldsRequest (s.inBuf ++ bytes)) :
    ∃ stays, (LifeStep.onRead bytes w closes).exec handlers s =
      ⟨s.inBuf ++ bytes, stays, s.served ++ [s.inBuf ++ bytes]⟩ := by
  obtain ⟨served, is⟩ := Option.isSome_iff_exists.mp ((isSome_onRead handlers w _).mpr holds)
  cases served with
  | handler handler seen => exact ⟨!closes, by simp [LifeStep.exec, registered, is]⟩
  | notFound => exact ⟨false, by simp [LifeStep.exec, registered, is]⟩

/-- Without one it waits for more. -/
theorem exec_onRead_waits (registered : s.registered = true)
    {bytes : List UInt8} (closes : Bool)
    (waits : ¬ HoldsRequest (s.inBuf ++ bytes)) :
    (LifeStep.onRead bytes w closes).exec handlers s = { s with inBuf := s.inBuf ++ bytes } := by
  have none : HttpConn.onRead handlers w (s.inBuf ++ bytes) = none := by
    rw [← Option.not_isSome_iff_eq_none, isSome_onRead]
    exact waits
  simp [LifeStep.exec, registered, none]

theorem exec_onRead_gone (gone : s.registered = false) (bytes : List UInt8) (closes : Bool) :
    (LifeStep.onRead bytes w closes).exec handlers s = s := by
  simp [LifeStep.exec, gone]

/-- What has been served stays in the record. -/
theorem served_grows (s : Life) (step : LifeStep) : s.served <+: (step.exec handlers s).served := by
  cases step with
  | close => exact List.prefix_rfl
  | onRead bytes w closes =>
    cases registered : s.registered with
    | false =>
      simp [exec_onRead_gone registered]
    | true =>
      by_cases holds : HoldsRequest (s.inBuf ++ bytes)
      · obtain ⟨stays, is⟩ := exec_onRead_served handlers w registered closes holds
        rw [is]
        exact List.prefix_append _ _
      · simp [exec_onRead_waits registered closes holds]

theorem Life.Inv.front_append (inv : s.Inv) (bytes : List UInt8) :
    ∀ buf ∈ s.served, buf <+: s.inBuf ++ bytes ∧ HoldsRequest buf := by
  intro buf member
  obtain ⟨isPrefix, holds⟩ := inv.front buf member
  exact ⟨isPrefix.trans (List.prefix_append _ _), holds⟩

theorem Life.Inv.exec (inv : s.Inv) (step : LifeStep) : (step.exec handlers s).Inv := by
  cases step with
  | close => exact ⟨inv.front, nofun⟩
  | onRead bytes w closes =>
    cases registered : s.registered with
    | false =>
      rw [exec_onRead_gone registered]
      exact inv
    | true =>
      by_cases holds : HoldsRequest (s.inBuf ++ bytes)
      · obtain ⟨stays, is⟩ := exec_onRead_served handlers w registered closes holds
        rw [is]
        refine ⟨fun buf member => ?_, fun _ _ => by simp⟩
        rcases List.mem_append.mp member with before | now
        · exact inv.front_append bytes buf before
        · rw [List.mem_singleton.mp now]
          exact ⟨List.prefix_rfl, holds⟩
      · rw [exec_onRead_waits registered closes holds]
        exact ⟨inv.front_append bytes, fun _ now => absurd now holds⟩

/-- Before a request is complete nothing has been served. -/
theorem Life.Inv.served_nil (inv : s.Inv) (waits : ¬ HoldsRequest s.inBuf) : s.served = [] := by
  by_contra some
  obtain ⟨buf, member⟩ := List.exists_mem_of_ne_nil _ some
  obtain ⟨isPrefix, holds⟩ := inv.front buf member
  exact waits (holds.of_prefix isPrefix)

theorem HandledOnce.of_length (few : s.served.length ≤ 1) : HandledOnce s :=
  fun _ _ => Nat.le_trans List.countP_le_length few

/-- **A step that reads nothing behind a request.** -/
theorem HandledOnce.exec (once : HandledOnce s) (inv : s.Inv) {step : LifeStep} (meets : step.ReadsNothingBehind s) :
    HandledOnce (step.exec handlers s) := by
  cases step with
  | close => exact once
  | onRead bytes w closes =>
    cases registered : s.registered with
    | false =>
      rw [exec_onRead_gone registered]
      exact once
    | true =>
      have none := inv.served_nil (meets bytes w closes rfl registered)
      apply HandledOnce.of_length
      by_cases holds : HoldsRequest (s.inBuf ++ bytes)
      · obtain ⟨stays, is⟩ := exec_onRead_served handlers w registered closes holds
        simp [is, none]
      · simp [exec_onRead_waits registered closes holds, none]

/-- **A step that reads behind a request** has it handled again. -/
theorem not_once_exec (inv : s.Inv) {step : LifeStep} (misses : ¬ step.ReadsNothingBehind s) :
    ¬ HandledOnce (step.exec handlers s) := by
  unfold LifeStep.ReadsNothingBehind at misses
  push Not at misses
  obtain ⟨bytes, w, closes, rfl, registered, holds⟩ := misses
  obtain ⟨first, member⟩ := List.exists_mem_of_ne_nil _ (inv.served registered holds)
  obtain ⟨isPrefix, held⟩ := inv.front first member
  obtain ⟨request, front, complete⟩ := held.exists_complete
  have again := holds.of_prefix (List.prefix_append s.inBuf bytes)
  obtain ⟨stays, is⟩ := exec_onRead_served handlers w registered closes again
  intro once
  have few := once request complete
  have twice : 0 < s.served.countP fun buf => request.isPrefixOf buf := by
    rw [List.countP_pos_iff]
    exact ⟨first, member, List.isPrefixOf_iff_prefix.mpr front⟩
  have last : request.isPrefixOf (s.inBuf ++ bytes) = true := by
    rw [List.isPrefixOf_iff_prefix]
    exact (front.trans isPrefix).trans (List.prefix_append _ _)
  rw [is, List.countP_append, List.countP_singleton, if_pos last] at few
  omega

/-- **An HTTP request is handled at most once** if and only if nothing is read behind a complete request while its
connection is open. -/
theorem handledOnce_iff (handlers : HttpHandlerMap) (steps : List LifeStep) :
    HandledOnce (run (LifeStep.exec handlers) .init steps) ↔
      Along (LifeStep.exec handlers) (fun s step => step.ReadsNothingBehind s) .init steps := by
  have start : Life.init.Inv := by
    refine ⟨nofun, fun _ holds => ?_⟩
    cases holds
  apply run_iff_along (I := Life.Inv) (P := HandledOnce) _ _ _ start (HandledOnce.of_length (Nat.zero_le 1))
  · intro s step inv once meets
    exact ⟨inv.exec step, once.exec inv meets⟩
  · intro s step inv _ misses
    exact not_once_exec inv misses
  · intro s step bad once
    refine bad fun request complete => Nat.le_trans ?_ (once request complete)
    exact (served_grows s step).sublist.countP_le

/-- The handler of `/a` replies later, and a blank line comes first: it is called again. -/
theorem not_handledOnce_later :
    ¬ HandledOnce (run (LifeStep.exec [(bytesOf "/a", 1)]) .init
      [.onRead (bytesOf "GET /a HTTP/1.1\r\n\r\n") ⟨false, 0, [], []⟩ false,
        .onRead (bytesOf "\r\n") ⟨false, 0, [], []⟩ false]) := by
  intro once
  have complete : Complete (bytesOf "GET /a HTTP/1.1\r\n\r\n") := Complete.of_take (by decide +kernel) (by decide +kernel)
  exact absurd (once _ complete) (by decide +kernel)

end Netter.Http
