import Mathlib.Algebra.Group.Int.Defs
import Mathlib.Algebra.GroupWithZero.Nat
import Netter.Lib.Walk
import Netter.Lib.Run

/-!
# The timers of an event loop

`_CheckTimer` walks over `timer_list_`. Before it runs the callback of a timer it has set the next tick and has
moved the iterator on; the callback may call `AddTimer` and `RemoveTimer`. Between two passes other code of the
loop thread may call them too.
-/

namespace Netter.Timer

open Lib

/-- The address of a function, as `callback_t`. -/
abbrev Callback := Nat

/-- A `void*`. -/
abbrev UserData := Nat

/-- A `TimerItem`; no two of them are made at the same address. -/
structure TimerItem where
  address : Nat
  callback : Callback
  userData : UserData
  interval : UInt64
  nextTick : UInt64
  deriving DecidableEq, Repr

namespace TimerItem

/-- The comparison of `AddTimer` and `RemoveTimer`. -/
def Is (callback : Callback) (userData : UserData) (pItem : TimerItem) : Bool :=
  pItem.callback == callback && pItem.userData == userData

def key (pItem : TimerItem) : Callback × UserData := (pItem.callback, pItem.userData)

def isDue (currTick : UInt64) (pItem : TimerItem) : Bool := decide (currTick ≥ pItem.nextTick)

/-- `AddTimer` for a timer that is in the list. -/
def restart (interval now : UInt64) (pItem : TimerItem) : TimerItem :=
  { pItem with interval := interval, nextTick := now + interval }

/-- `pItem->next_tick += pItem->interval`. -/
def advance (pItem : TimerItem) : TimerItem := { pItem with nextTick := pItem.nextTick + pItem.interval }

end TimerItem

/-- `AddTimer`; `now` is what `get_tick_count` returns, and `address` is that of a new item. -/
def addTimer (callback : Callback) (userData : UserData) (interval now : UInt64) (address : Nat) :
    List TimerItem → List TimerItem
  | [] => [⟨address, callback, userData, interval, now + interval⟩]
  | pItem :: rest =>
    if pItem.Is callback userData then
      pItem.restart interval now :: rest
    else
      pItem :: addTimer callback userData interval now address rest

/-- `RemoveTimer`. -/
def removeTimer (callback : Callback) (userData : UserData) : List TimerItem → List TimerItem
  | [] => []
  | pItem :: rest => if pItem.Is callback userData then rest else pItem :: removeTimer callback userData rest

/-- `_CheckTimer` under way. -/
structure Pass where
  /-- How many passes came before this one. -/
  number : Nat
  currTick : UInt64
  it : Iter
  /-- A callback runs; otherwise the loop goes on by itself. -/
  calling : Bool
  /-- The list at the start of the pass. -/
  start : List TimerItem
  trace : List WalkEvent

structure State where
  timerList : List TimerItem
  /-- The items that have been allocated have addresses below this one. -/
  made : Nat
  pass : Option Pass
  /-- What `_CheckTimer` has read from the clock, in each of the passes. -/
  ticks : List UInt64
  /-- The timers that have fired, each with the number of the pass. -/
  firings : List (Nat × Nat)

def State.init : State := ⟨[], 0, none, [], []⟩

namespace State

variable (s : State)

/-- The code runs in the loop of `_CheckTimer` itself. -/
def busy : Bool := s.pass.any fun pass => !pass.calling

def addTimer (callback : Callback) (userData : UserData) (interval now : UInt64) : State :=
  let timerList := Timer.addTimer callback userData interval now s.made s.timerList
  match s.timerList.find? (·.Is callback userData) with
  | some pItem =>
    { s with
      timerList := timerList
      pass := s.pass.map fun pass => { pass with trace := pass.trace ++ [.changed pItem.address] } }
  | none => { s with timerList := timerList, made := s.made + 1 }

/-- `RemoveTimer`; `erase` leaves an iterator to the erased element that must not be used any more. -/
def removeTimer (callback : Callback) (userData : UserData) : State :=
  match s.timerList.find? (·.Is callback userData) with
  | some pItem =>
    { s with
      timerList := Timer.removeTimer callback userData s.timerList
      pass := s.pass.map fun pass =>
        { pass with
          it := if pass.it = .to pItem.address then .lost else pass.it
          trace := pass.trace ++ [.erased pItem.address] } }
  | none => s

/-- `_CheckTimer` up to the head of its loop. -/
def checkTimer (currTick : UInt64) : State :=
  { s with
    pass := some ⟨s.ticks.length, currTick, .first (·.address) s.timerList, false, s.timerList, []⟩
    ticks := s.ticks ++ [currTick] }

/-- One turn of the loop in `_CheckTimer`, up to the callback if the timer fires; with a lost iterator there
is no saying what it does. -/
def turn (pass : Pass) : State :=
  match pass.it with
  | .lost => s
  | .atEnd => { s with pass := none }
  | it@(.to _) =>
    match it.ahead (·.address) s.timerList with
    | [] => s
    | pItem :: rest =>
      if pItem.isDue pass.currTick then
        { s with
          timerList := s.timerList.map fun other => if other.address = pItem.address then other.advance else other
          pass := some { pass with
            it := .first (·.address) rest
            calling := true
            trace := pass.trace ++ [.called pItem.address] }
          firings := s.firings ++ [(pItem.address, pass.number)] }
      else { s with pass := some { pass with it := .first (·.address) rest, calling := false } }

end State

/-- `next` is a turn of the loop in `_CheckTimer`: a callback that was running has returned. -/
inductive Step where
  | addTimer (callback : Callback) (userData : UserData) (interval now : UInt64)
  | removeTimer (callback : Callback) (userData : UserData)
  | checkTimer (currTick : UInt64)
  | next

/-- A step of the loop thread; what it cannot do where it is changes nothing. -/
def State.step (s : State) : Step → State
  | .addTimer callback userData interval now => if s.busy then s else s.addTimer callback userData interval now
  | .removeTimer callback userData => if s.busy then s else s.removeTimer callback userData
  | .checkTimer currTick => if s.pass.isSome then s else s.checkTimer currTick
  | .next =>
    match s.pass with
    | some pass => s.turn pass
    | none => s

/-- The walk of a pass over the timers. -/
def State.walk (s : State) (pass : Pass) : Walk TimerItem := ⟨s.timerList, pass.it, s.made, pass.trace⟩

end Netter.Timer
