import Netter.Link.Eventually

/-!
# The exchange goes on for ever

With the endless runs of `Netter.Link.Eventually` the test programs are known not only to lose nothing, but to go on: each
side handles more packets than any number. `roundRobin` is such a run, in which each loop gets what there is in its turn.
-/

namespace Netter.Watching

open Lib PktBase BaseConn Link

variable {steps : Nat → LinkStep} {trace : Nat → Watching} {n m : Nat}

/-- The first steps of an endless run. -/
def before (steps : Nat → LinkStep) (n : Nat) : List LinkStep := (List.range n).map steps

theorem posts_before_succ (steps : Nat → LinkStep) (n : Nat) :
    posts (before steps (n + 1)) = posts (before steps n) + posts [steps n] := by
  rw [before, before, List.range_succ, List.map_append, posts, posts, posts, List.countP_append]
  rfl

theorem posts_before_mono (steps : Nat → LinkStep) (later : n ≤ m) : posts (before steps n) ≤ posts (before steps m) := by
  refine monotone_nat_of_le_succ (f := fun n => posts (before steps n)) (fun n => ?_) later
  rw [posts_before_succ]
  exact Nat.le_add_right _ _

/-- An endless run of the test programs in which no `send` fails, with fewer packets posted than `int` can count. -/
structure Exchange (steps : Nat → LinkStep) (trace : Nat → Watching) : Prop where
  starts : ∃ handle epoll, (∀ side, handle side ≠ invalidHandle) ∧ trace 0 = start handle epoll
  ran : Trace (fun w step => w.exec heartBeats step) steps trace
  allowed : ∀ n, Allowed (steps n)
  answers : ∀ n, Answers (steps n).sends
  few : ∀ n, 16 * posts (before steps n) < 2 ^ 31
  fine : ∀ n side, (trace n).failed side = false

namespace Exchange

variable (exchange : Exchange steps trace)
include exchange

theorem circulates (n : Nat) : (trace n).Inv ∧ Circulates (trace n).link (posts (before steps n)) := by
  induction n with
  | zero =>
    obtain ⟨handle, epoll, registered, starts⟩ := exchange.starts
    rw [starts]
    exact ⟨Inv.start registered epoll, circulates_start registered⟩
  | succ n ih =>
    have few := exchange.few (n + 1)
    rw [posts_before_succ] at few ⊢
    obtain ⟨w, ran, inv, circulates⟩ := ih.1.circulates ih.2 (exchange.allowed n) (exchange.answers n) few
    obtain rfl : trace (n + 1) = w := Option.some_inj.mp ((exchange.ran n).symm.trans ran)
    exact ⟨inv, circulates⟩

theorem runs : Runs heartBeats steps trace where
  ran := exchange.ran
  framed := framed_heartBeats
  starts := exchange.starts
  meets n := by
    have few := exchange.few (n + 1)
    rw [posts_before_succ] at few
    exact ⟨(exchange.circulates n).2.meets (exchange.allowed n) few, exchange.answers n⟩
  fine := exchange.fine

theorem handled_mono (side : Side) (later : n ≤ m) :
    (packets ((trace n).link.conn side).trace).length ≤ (packets ((trace m).link.conn side).trace).length := by
  refine monotone_nat_of_le_succ (f := fun n => (packets ((trace n).link.conn side).trace).length) (fun n => ?_) later
  obtain ⟨_, _, effect⟩ := exchange.runs.effects n
  rw [effect.handled side]
  split
  · rw [List.length_append]
    exact Nat.le_add_right _ _
  · exact Nat.le_refl _

/-- What has been handed over at one side is handled at the other later. -/
theorem handled_of_handed (fair : Fair steps trace) (side : Side) (n : Nat) :
    Later (fun m => ((trace n).link.handed side.other).length ≤ (packets ((trace m).link.conn side).trace).length) n := by
  refine (exchange.runs.later_handled fair side n).mono fun m _ handled => ?_
  have few := handled.length_le
  rwa [List.length_map] at few

/-- How many packets the two sides have handled. -/
def total (trace : Nat → Watching) (n : Nat) : Nat :=
  (packets ((trace n).link.conn .server).trace).length + (packets ((trace n).link.conn .client).trace).length

/-- A packet that was posted is at one of the sides, which is going to handle it. -/
theorem total_lt (fair : Fair steps trace) (some : 0 < posts (before steps n)) :
    Later (fun m => total trace n < total trace m) n := by
  obtain ⟨inv, client, server, -⟩ := (exchange.circulates n).2
  have most := inv.handled_le .server
  simp only [Side.other] at most
  by_cases waits : (packets ((trace n).link.conn .server).trace).length < ((trace n).link.handed .client).length
  · refine (exchange.handled_of_handed fair .server n).mono fun m later handled => ?_
    have others := exchange.handled_mono .client later
    simp only [Side.other] at handled
    unfold total
    omega
  · refine (exchange.handled_of_handed fair .client n).mono fun m later handled => ?_
    have others := exchange.handled_mono .server later
    simp only [Side.other] at handled
    unfold total
    omega

theorem total_unbounded (fair : Fair steps trace) (some : 0 < posts (before steps n)) (k : Nat) :
    Later (fun m => k ≤ total trace m) n := by
  induction k with
  | zero => exact ⟨n, Nat.le_refl n, Nat.zero_le _⟩
  | succ k ih =>
    refine ih.trans fun m later least => ?_
    have still := Nat.lt_of_lt_of_le some (posts_before_mono steps later)
    exact (exchange.total_lt fair still).mono fun _ _ more => Nat.lt_of_le_of_lt least more

end Exchange

/-- **The exchange goes on for ever.** When a packet has been posted, then in every endless run in which no `send` fails and
the loops get what there is for them, both test programs handle more packets than any number. -/
theorem ping_pong_forever {steps : Nat → LinkStep} {trace : Nat → Watching} (exchange : Exchange steps trace)
    (fair : Fair steps trace) {n : Nat} (some : 0 < posts (before steps n)) (side : Side) (k : Nat) :
    ∃ m, k ≤ (packets ((trace m).link.conn side).trace).length := by
  obtain ⟨m, -, most⟩ := exchange.total_unbounded fair some (2 * k + 2 ^ 27)
  refine ⟨m, ?_⟩
  obtain ⟨inv, client, server, -⟩ := (exchange.circulates m).2
  have few := exchange.few m
  have serverHandled := inv.handled_le .server
  have clientHandled := inv.handled_le .client
  simp only [Side.other] at serverHandled clientHandled
  unfold Exchange.total at most
  cases side <;> omega

/-! ## Taking turns -/

/-- What a `recv` gives of the bytes in flight. -/
def arriving (bytes : List UInt8) : List Chunk :=
  if some : bytes = [] then []
  else [{
    bytes := bytes.take kReadBufSize.toNat
    pos := by
      have length := List.length_pos_iff.mpr some
      have size : kReadBufSize.toNat = 2048 := rfl
      rw [List.length_take]
      omega
    le := List.length_take_le _ _ }]

theorem arriving_prefix (bytes : List UInt8) : chunkBytes (arriving bytes) <+: bytes := by
  unfold arriving
  split
  · exact List.nil_prefix
  · simp only [chunkBytes, List.flatMap_cons, List.flatMap_nil, List.append_nil]
    exact List.take_prefix _ _

theorem arriving_ne_nil {bytes : List UInt8} (some : bytes ≠ []) : chunkBytes (arriving bytes) ≠ [] := by
  unfold arriving
  rw [dif_neg some]
  simpa [chunkBytes, some] using show kReadBufSize.toNat ≠ 0 by decide

/-- The client posts a heartbeat, and then each loop gets what there is in its turn. -/
def turn : Nat → Watching → LinkStep
  | 0, _ => .post .client heartBeat [0]
  | n + 1, w =>
    match n % 4 with
    | 0 => .writable .client [16, 0]
    | 1 => .readable .server (arriving (w.link.inFlight .server)) [16, 0]
    | 2 => .writable .server [16, 0]
    | _ => .readable .client (arriving (w.link.inFlight .client)) [16, 0]

def roundRobin : Nat → Watching
  | 0 => start (fun _ => 1) true
  | n + 1 => ((roundRobin n).exec heartBeats (turn n (roundRobin n))).getD (roundRobin n)

def turns (n : Nat) : LinkStep := turn n (roundRobin n)

theorem turn_allowed (n : Nat) (w : Watching) :
    Allowed (turn n w) ∧ Answers (turn n w).sends ∧ (turn n w).sends.getLast? = some 0 := by
  have refuses : Answers [0] := .refuses (Int.le_refl 0)
  have takes : Answers [16, 0] := .takes (by decide) refuses
  unfold turn
  split
  · exact ⟨⟨rfl, by decide⟩, refuses, rfl⟩
  · split <;> exact ⟨trivial, takes, rfl⟩

theorem posts_turns (n : Nat) : posts (before turns n) = min n 1 := by
  induction n with
  | zero => rfl
  | succ n ih =>
    rw [posts_before_succ, ih]
    cases n with
    | zero => rfl
    | succ n =>
      have none : posts [turns (n + 1)] = 0 := by
        simp only [turns, turn]
        split <;> rfl
      omega

/-- A call that ends with would-block has not failed. -/
theorem fine_of_exec {w w' : Watching} {step : LinkStep} {k : Side} (ran : w.exec heartBeats step = some w')
    (last : step.sends.getLast? = some 0) (fine : w.failed k = false) : w'.failed k = false := by
  unfold exec at ran
  split at ran
  · obtain ⟨l, -, rfl⟩ := Option.map_eq_some_iff.mp ran
    simp [failedAfter, last, fine]
  · cases ran
    exact fine

theorem roundRobin_inv (n : Nat) : (roundRobin n).Inv ∧ Circulates (roundRobin n).link (posts (before turns n)) ∧
    ∀ k, (roundRobin n).failed k = false := by
  have registered : ∀ side : Side, (fun _ => 1 : Side → NetHandle) side ≠ invalidHandle := fun _ =>
    show (1 : NetHandle) ≠ invalidHandle by decide
  induction n with
  | zero => exact ⟨Inv.start registered true, circulates_start registered, fun _ => rfl⟩
  | succ n ih =>
    obtain ⟨inv, circulates, fine⟩ := ih
    obtain ⟨allowed, answers, last⟩ := turn_allowed n (roundRobin n)
    have few : 16 * (posts (before turns n) + posts [turns n]) < 2 ^ 31 := by
      rw [← posts_before_succ, posts_turns]
      omega
    obtain ⟨w, ran, inv', circulates'⟩ := inv.circulates circulates allowed answers few
    have next : roundRobin (n + 1) = w := by rw [roundRobin, ran, Option.getD_some]
    rw [next, posts_before_succ]
    exact ⟨inv', circulates', fun k => fine_of_exec ran last (fine k)⟩

theorem exchange_roundRobin : Exchange turns roundRobin where
  starts := ⟨fun _ => 1, true, fun _ => show (1 : NetHandle) ≠ invalidHandle by decide, rfl⟩
  ran n := by
    obtain ⟨inv, circulates, -⟩ := roundRobin_inv n
    obtain ⟨allowed, answers, -⟩ := turn_allowed n (roundRobin n)
    have few : 16 * (posts (before turns n) + posts [turns n]) < 2 ^ 31 := by
      rw [← posts_before_succ, posts_turns]
      omega
    obtain ⟨w, ran, -⟩ := inv.circulates circulates allowed answers few
    show (roundRobin n).exec heartBeats (turn n (roundRobin n)) = some (roundRobin (n + 1))
    rw [roundRobin, ran, Option.getD_some]
  allowed n := (turn_allowed n (roundRobin n)).1
  answers n := (turn_allowed n (roundRobin n)).2.1
  few n := by
    rw [posts_turns]
    omega
  fine n := (roundRobin_inv n).2.2

theorem fair_roundRobin : Fair turns roundRobin where
  reads side n := by
    cases side with
    | server =>
      have slot : (4 * n + 1) % 4 = 1 := by omega
      refine ⟨4 * n + 2, by omega, fun some => ?_⟩
      simp only [turns, turn, slot]
      exact ⟨rfl, arriving_ne_nil some, arriving_prefix _⟩
    | client =>
      have slot : (4 * n + 3) % 4 = 3 := by omega
      refine ⟨4 * n + 4, by omega, fun some => ?_⟩
      simp only [turns, turn, slot]
      exact ⟨rfl, arriving_ne_nil some, arriving_prefix _⟩
  writes side n := by
    cases side with
    | server =>
      have slot : (4 * n + 2) % 4 = 2 := by omega
      refine ⟨4 * n + 3, by omega, fun _ => ?_⟩
      simp only [turns, turn, slot]
      exact ⟨rfl, by decide⟩
    | client =>
      have slot : (4 * n) % 4 = 0 := by omega
      refine ⟨4 * n + 1, by omega, fun _ => ?_⟩
      simp only [turns, turn, slot]
      exact ⟨rfl, by decide⟩

/-- The heartbeat that was posted first. -/
theorem eventually_handled_roundRobin :
    Later (fun m => (packets ((roundRobin m).link.conn .server).trace)[0]? = some heartBeat.received) 1 := by
  have handed : ((roundRobin 1).link.handed .client)[0]? = some heartBeat := rfl
  exact eventually_handled exchange_roundRobin.runs fair_roundRobin .server 1 0 heartBeat handed

theorem ping_pong_forever_roundRobin : ∃ m, 1000 ≤ (packets ((roundRobin m).link.conn .server).trace).length := by
  have posted : 0 < posts (before turns 1) := by
    rw [posts_turns]
    decide
  exact ping_pong_forever exchange_roundRobin fair_roundRobin posted .server 1000

end Netter.Watching
