import Netter.Conn.Model
import Netter.Timer.Model

/-!
# Idle connections

A connection notes the tick of each `recv` that gave something. Once a second the timer of its loop gives
`BaseConn::OnTimer` the tick of the sweep, and a connection that has been silent for too long is closed. The timer is
polled in each turn of the loop and counts on from its last due time; `m_conn_timeout` is an `int` that is added to a
`uint64_t`.

`Timer` is about the other timers of the loop, and `Sweep` about callbacks that change the map under the sweep.
-/

namespace Netter.Timeout

open Lib Timer

/-- `kConnTimeout`. -/
def kConnTimeout : Int32 := 5000

/-- A socket in `socket_map_` with what `OnTimer` reads of its connection. -/
structure Entry where
  handle : NetHandle
  /-- `m_state` is `SOCKET_STATE_LISTENING`. -/
  listening : Bool
  lastRecvTick : UInt64
  connTimeout : Int32
  /-- The last tick that was read before the socket was entered into the map or `m_conn_timeout` was set in the loop. -/
  since : UInt64
  deriving DecidableEq

/-- The condition in `BaseConn::OnTimer`. -/
def Entry.timedOut (entry : Entry) (currTick : UInt64) : Bool :=
  decide (currTick > entry.lastRecvTick + UInt64.ofInt entry.connTimeout.toInt)

/-- `BaseSocket::OnTimer` closes the connection. -/
def Entry.expires (entry : Entry) (currTick : UInt64) : Bool := !entry.listening && entry.timedOut currTick

structure State where
  socketMap : List Entry
  /-- The timer of `timer_callback`. -/
  timer : TimerItem
  /-- The last tick that was read. -/
  now : UInt64
  /-- The tick of the last `_CheckTimer`. -/
  checked : UInt64
  /-- The tick of the last sweep, or the one at which the timer was added. -/
  swept : UInt64
  /-- The connections that a sweep has closed, with its tick. -/
  expired : List (Entry × UInt64)

/-- `AddTimer(timer_callback, el, 1000)`. -/
def State.start (tick : UInt64) : State := ⟨[], ⟨0, 0, 0, 1000, tick + 1000⟩, tick, tick, tick, []⟩

/-- What happens in the loop thread, with the ticks that are read. -/
inductive Step where
  | listen (handle : NetHandle)
  /-- The socket of a `BaseConn` is entered into the map. The constructor has read the tick `built`, in this thread or in
  another, and `m_conn_timeout` may have been set since. -/
  | connect (handle : NetHandle) (built : UInt64) (timeout : Int32) (tick : UInt64)
  | setConnTimerout (handle : NetHandle) (timeout : Int32)
  /-- A positive result of `recv` in `_RecvData`. -/
  | recv (handle : NetHandle) (tick : UInt64)
  | close (handle : NetHandle)
  /-- `_CheckTimer` reads the first tick, and `EventLoop::OnTimer`, if the timer is due, the second. -/
  | checkTimer (currTick sweepTick : UInt64)

namespace State

variable (s : State)

/-- Changes the connection with a handle. -/
def change (handle : NetHandle) (f : Entry → Entry) : State :=
  { s with socketMap := s.socketMap.map fun entry => if entry.handle = handle then f entry else entry }

/-- `EventLoop::OnTimer`. -/
def onTimer (currTick : UInt64) : State :=
  { s with
    socketMap := s.socketMap.filter fun entry => !entry.expires currTick
    now := currTick
    swept := currTick
    expired := s.expired ++ (s.socketMap.filter fun entry => entry.expires currTick).map fun entry => (entry, currTick) }

/-- `_CheckTimer`, for this timer. -/
def checkTimer (currTick sweepTick : UInt64) : State :=
  let s := { s with now := currTick, checked := currTick }
  if s.timer.isDue currTick then { s with timer := s.timer.advance }.onTimer sweepTick else s

def step : Step → State
  | .listen handle => { s with socketMap := s.socketMap ++ [⟨handle, true, 0, 0, 0⟩] }
  | .connect handle built timeout tick =>
    { s with socketMap := s.socketMap ++ [⟨handle, false, built, timeout, tick⟩], now := tick }
  | .setConnTimerout handle timeout => s.change handle fun entry => { entry with connTimeout := timeout, since := s.now }
  | .recv handle tick => { s.change handle fun entry => { entry with lastRecvTick := tick } with now := tick }
  | .close handle => { s with socketMap := s.socketMap.filter fun entry => entry.handle ≠ handle }
  | .checkTimer currTick sweepTick => s.checkTimer currTick sweepTick

end State

/-- A tick that is not before the last one; any date for which `uint64_t` and `int` are wide enough. -/
def Reads (s : State) (tick : UInt64) : Prop := s.now ≤ tick ∧ tick.toNat < 2 ^ 63

/-- The clock does not go back. -/
def Clock (s : State) : Step → Prop
  | .connect _ built _ tick => Reads s tick ∧ 2 ^ 31 ≤ built.toNat ∧ built ≤ tick
  | .recv _ tick => Reads s tick
  | .checkTimer currTick sweepTick => Reads s currTick ∧ currTick ≤ sweepTick ∧ sweepTick.toNat < 2 ^ 63
  | _ => True

/-- Where the silence of a connection becomes too long. -/
def Entry.deadline (entry : Entry) : Int := entry.lastRecvTick.toNat + entry.connTimeout.toInt

variable {s : State} {entry : Entry} {tick currTick sweepTick : UInt64}

/-! ## The condition of `OnTimer` -/

theorem toInt_bounds (i : Int32) : -2 ^ 31 ≤ i.toInt ∧ i.toInt < 2 ^ 31 := ⟨i.le_toInt, i.toInt_lt⟩

/-- The sum does not wrap, whatever the sign of the timeout. -/
theorem timedOut_iff (early : 2 ^ 31 ≤ entry.lastRecvTick.toNat) (late : entry.lastRecvTick.toNat < 2 ^ 63) :
    entry.timedOut currTick = true ↔ entry.deadline < currTick.toNat := by
  obtain ⟨low, high⟩ := toInt_bounds entry.connTimeout
  have wraps : (UInt64.ofInt entry.connTimeout.toInt).toNat = (entry.connTimeout.toInt % 2 ^ 64).toNat := by
    show (UInt64.ofNat _).toNat = _
    rw [UInt64.toNat_ofNat']
    omega
  simp only [Entry.timedOut, decide_eq_true_eq, gt_iff_lt, UInt64.lt_iff_toNat_lt, UInt64.toNat_add, wraps, Entry.deadline]
  omega

/-! ## The invariant -/

/-- The sweep before last came in time for the connection. -/
structure Entry.Fresh (entry : Entry) (now swept : UInt64) : Prop where
  early : 2 ^ 31 ≤ entry.lastRecvTick.toNat
  late : entry.lastRecvTick ≤ now
  since : entry.since ≤ now
  alive : (swept.toNat : Int) ≤ max entry.deadline entry.since.toNat

/-- The sweeps come in time, and a sweep leaves no connection that has been silent for too long. -/
structure Inv (s : State) : Prop where
  early : 2 ^ 31 ≤ s.now.toNat
  late : s.now.toNat < 2 ^ 63
  interval : s.timer.interval = 1000
  due : s.timer.nextTick.toNat ≤ s.swept.toNat + 1000
  swept : s.swept ≤ s.now
  checked : s.checked.toNat < s.swept.toNat + 1000
  fresh : ∀ entry ∈ s.socketMap, entry.listening = false → entry.Fresh s.now s.swept
  expired : ∀ e ∈ s.expired, e.1.deadline < e.2.toNat

theorem Entry.Fresh.later {now now' swept : UInt64} (fresh : entry.Fresh now swept) (later : now ≤ now') :
    entry.Fresh now' swept :=
  ⟨fresh.early, UInt64.le_trans fresh.late later, UInt64.le_trans fresh.since later, fresh.alive⟩

/-- A tick is read. -/
theorem Inv.read (inv : Inv s) (reads : Reads s tick) : Inv { s with now := tick } := by
  obtain ⟨later, late⟩ := reads
  have least := UInt64.le_iff_toNat_le.mp later
  exact ⟨Nat.le_trans inv.early least, late, inv.interval, inv.due, UInt64.le_trans inv.swept later, inv.checked,
    fun entry member live => (inv.fresh entry member live).later later, inv.expired⟩

/-- Connections are changed one by one. -/
theorem Inv.change (inv : Inv s) {handle : NetHandle} {f : Entry → Entry}
    (still : ∀ entry, (f entry).listening = entry.listening)
    (keeps : ∀ entry, entry.Fresh s.now s.swept → (f entry).Fresh s.now s.swept) : Inv (s.change handle f) := by
  refine ⟨inv.early, inv.late, inv.interval, inv.due, inv.swept, inv.checked, fun entry member live => ?_, inv.expired⟩
  obtain ⟨before, inside, rfl⟩ := List.mem_map.mp member
  by_cases named : before.handle = handle
  · simp only [named, if_true] at live ⊢
    rw [still] at live
    exact keeps before (inv.fresh before inside live)
  · simp only [named, if_false] at live ⊢
    exact inv.fresh before inside live

/-- A new entry is as good as one whose timeout has just been set, however long ago its connection was built. -/
theorem Inv.connect {built : UInt64} (inv : Inv s) (handle : NetHandle) (timeout : Int32) (early : 2 ^ 31 ≤ built.toNat)
    (before : built ≤ s.now) :
    Inv { s with socketMap := s.socketMap ++ [⟨handle, false, built, timeout, s.now⟩] } := by
  refine ⟨inv.early, inv.late, inv.interval, inv.due, inv.swept, inv.checked, fun entry member live => ?_, inv.expired⟩
  rcases List.mem_append.mp member with old | new
  · exact inv.fresh entry old live
  · rw [List.mem_singleton.mp new]
    have swept := UInt64.le_iff_toNat_le.mp inv.swept
    exact ⟨early, before, UInt64.le_refl _, by dsimp only; omega⟩

theorem Inv.listen (inv : Inv s) (handle : NetHandle) :
    Inv { s with socketMap := s.socketMap ++ [⟨handle, true, 0, 0, 0⟩] } := by
  refine ⟨inv.early, inv.late, inv.interval, inv.due, inv.swept, inv.checked, fun entry member live => ?_, inv.expired⟩
  rcases List.mem_append.mp member with old | new
  · exact inv.fresh entry old live
  · rw [List.mem_singleton.mp new] at live
    cases live

theorem Inv.close (inv : Inv s) (handle : NetHandle) :
    Inv { s with socketMap := s.socketMap.filter fun entry => entry.handle ≠ handle } :=
  ⟨inv.early, inv.late, inv.interval, inv.due, inv.swept, inv.checked,
    fun entry member => inv.fresh entry (List.mem_of_mem_filter member), inv.expired⟩

theorem expires_iff (inv : Inv s) (inside : entry ∈ s.socketMap) (live : entry.listening = false) :
    entry.expires currTick = true ↔ entry.deadline < currTick.toNat := by
  have fresh := inv.fresh entry inside live
  have late := UInt64.le_iff_toNat_le.mp fresh.late
  rw [Entry.expires, live, Bool.not_false, Bool.true_and, timedOut_iff fresh.early (Nat.lt_of_le_of_lt late inv.late)]

/-- After a sweep no connection is left that has been silent for too long. -/
theorem Inv.sweep (inv : Inv s) (reads : Reads s sweepTick) (due : s.timer.isDue s.now = true) :
    Inv ({ s with checked := s.now, timer := s.timer.advance }.onTimer sweepTick) := by
  obtain ⟨later, late⟩ := reads
  have least := UInt64.le_iff_toNat_le.mp later
  have passed : s.timer.nextTick.toNat ≤ s.now.toNat := UInt64.le_iff_toNat_le.mp (of_decide_eq_true due)
  constructor
  · exact Nat.le_trans inv.early least
  · exact late
  · exact inv.interval
  · have bound := inv.late
    show (s.timer.nextTick + s.timer.interval).toNat ≤ sweepTick.toNat + 1000
    rw [inv.interval, UInt64.toNat_add]
    show (_ + 1000) % _ ≤ _
    omega
  · exact UInt64.le_refl _
  · show s.now.toNat < sweepTick.toNat + 1000
    omega
  · intro entry member live
    have inside := List.mem_of_mem_filter member
    have fresh := inv.fresh entry inside live
    have stays : ¬ entry.expires sweepTick = true := by simpa using List.of_mem_filter member
    rw [expires_iff inv inside live] at stays
    refine ⟨fresh.early, UInt64.le_trans fresh.late later, UInt64.le_trans fresh.since later, ?_⟩
    show (sweepTick.toNat : Int) ≤ _
    omega
  · intro e member
    rcases List.mem_append.mp member with old | new
    · exact inv.expired e old
    · obtain ⟨entry, gone, rfl⟩ := List.mem_map.mp new
      obtain ⟨inside, expires⟩ := List.mem_filter.mp gone
      have live : entry.listening = false := by
        simp only [Entry.expires, Bool.and_eq_true, Bool.not_eq_true'] at expires
        exact expires.1
      exact (expires_iff inv inside live).mp expires

theorem Inv.checkTimer (inv : Inv s) (reads : Reads s currTick) (later : currTick ≤ sweepTick)
    (late : sweepTick.toNat < 2 ^ 63) : Inv (s.checkTimer currTick sweepTick) := by
  have read := inv.read reads
  unfold State.checkTimer
  dsimp only
  split
  · rename_i due
    exact read.sweep ⟨later, late⟩ due
  · rename_i early
    have waits : currTick.toNat < s.timer.nextTick.toNat := by
      simpa [TimerItem.isDue, UInt64.lt_iff_toNat_lt] using early
    have due := inv.due
    refine ⟨read.early, read.late, read.interval, read.due, read.swept, ?_, read.fresh, read.expired⟩
    show currTick.toNat < s.swept.toNat + 1000
    omega

theorem Inv.step (inv : Inv s) {step : Step} (clock : Clock s step) : Inv (s.step step) := by
  cases step with
  | listen handle => exact inv.listen handle
  | connect handle built timeout tick =>
    obtain ⟨reads, early, before⟩ := clock
    exact (inv.read reads).connect handle timeout early before
  | setConnTimerout handle timeout =>
    refine inv.change (fun _ => rfl) fun entry fresh => ⟨fresh.early, fresh.late, UInt64.le_refl _, ?_⟩
    have swept := UInt64.le_iff_toNat_le.mp inv.swept
    show (s.swept.toNat : Int) ≤ max _ (s.now.toNat : Int)
    omega
  | recv handle tick =>
    have read := inv.read clock
    refine read.change (fun _ => rfl) fun entry fresh => ⟨read.early, UInt64.le_refl _, fresh.since, ?_⟩
    have later := UInt64.le_iff_toNat_le.mp fresh.late
    have alive := fresh.alive
    dsimp only [Entry.deadline] at alive later ⊢
    omega
  | close handle => exact inv.close handle
  | checkTimer currTick sweepTick =>
    obtain ⟨reads, later, late⟩ := clock
    exact inv.checkTimer reads later late

theorem Inv.start (early : 2 ^ 31 ≤ tick.toNat) (late : tick.toNat + 1000 < 2 ^ 63) : Inv (.start tick) := by
  have next : (tick + 1000).toNat = tick.toNat + 1000 := by
    rw [UInt64.toNat_add]
    show (_ + 1000) % _ = _
    omega
  refine ⟨early, by show tick.toNat < _; omega, rfl, ?_, UInt64.le_refl _, ?_, by simp [State.start], by simp [State.start]⟩
  · show (tick + 1000).toNat ≤ _
    rw [next]
    exact Nat.le_refl _
  · show tick.toNat < tick.toNat + 1000
    omega

/-- One connection is heard of and stays, the other one, which was built long before it is registered, is closed. -/
def twoConnections : List Step :=
  [.connect 1 3000000000 kConnTimeout 3000000000, .connect 2 2999995000 kConnTimeout 3000000100,
    .setConnTimerout 2 6500, .checkTimer 3000001000 3000001000, .recv 1 3000001500, .checkTimer 3000002100 3000002101]

end Netter.Timeout
