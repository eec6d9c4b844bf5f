import Netter.Timer.Model

/-!
# A pass under the changes that its timers make

`_CheckTimer` moves its iterator on before the callback, so that a timer may remove itself. A callback that
removes the timer behind it in the list takes away the element that the iterator refers to by then.
-/

namespace Netter.Timer

open Lib

variable {s t : State} {pass pass' : Pass} {list : List TimerItem} {pItem other : TimerItem} {callback : Callback}
  {userData : UserData} {interval now currTick : UInt64} {address : Nat}

namespace TimerItem

theorem is_iff : pItem.Is callback userData = true ↔ pItem.key = (callback, userData) := by
  simp [Is, key]

/-- What `AddTimer` does to the timers of the list. -/
def restartIf (callback : Callback) (userData : UserData) (interval now : UInt64) (x : TimerItem) : TimerItem :=
  if x.Is callback userData then x.restart interval now else x

@[simp] theorem address_restartIf : (pItem.restartIf callback userData interval now).address = pItem.address := by
  unfold restartIf
  split <;> rfl

@[simp] theorem key_restartIf : (pItem.restartIf callback userData interval now).key = pItem.key := by
  unfold restartIf
  split <;> rfl

end TimerItem

/-! ## The list -/

/-- The timer that the search finds is the only one with its key. -/
theorem eq_of_is (unique : (list.map TimerItem.key).Nodup) (found : list.find? (·.Is callback userData) = some pItem)
    (member : other ∈ list) (is : other.Is callback userData = true) : other = pItem := by
  have here : pItem ∈ list := List.mem_of_find?_eq_some found
  have same : pItem.Is callback userData = true := List.find?_some found
  rw [TimerItem.is_iff] at is same
  exact List.inj_on_of_nodup_map unique member here (is.trans same.symm)

/-- `AddTimer` for a timer that is in the list restarts it and leaves the others alone. -/
theorem addTimer_of_found (interval now : UInt64) (address : Nat) (unique : (list.map TimerItem.key).Nodup)
    (found : list.find? (·.Is callback userData) = some pItem) :
    addTimer callback userData interval now address list =
      list.map (·.restartIf callback userData interval now) := by
  induction list with
  | nil => cases found
  | cons x rest ih =>
    have rest_unique := List.Nodup.of_cons unique
    rw [List.find?_cons] at found
    rw [addTimer, List.map_cons]
    split at found
    next hit =>
      cases found
      have others : ∀ y ∈ rest, y.Is callback userData = false := by
        intro y member
        by_contra is
        have clash : y = pItem :=
          eq_of_is unique (by rw [List.find?_cons, hit]) (List.mem_cons_of_mem _ member) (by simpa using is)
        rw [List.map_cons, List.nodup_cons] at unique
        exact unique.1 (clash ▸ List.mem_map_of_mem member)
      rw [if_pos hit, TimerItem.restartIf, if_pos hit]
      congr 1
      refine (List.map_id' rest).symm.trans (List.map_congr_left fun y member => ?_)
      simp [TimerItem.restartIf, others y member]
    next miss =>
      rw [if_neg (by simpa using miss), TimerItem.restartIf, if_neg (by simpa using miss), ih rest_unique found]

theorem addTimer_of_not_found (interval now : UInt64) (address : Nat)
    (missing : list.find? (·.Is callback userData) = none) :
    addTimer callback userData interval now address list =
      list ++ [⟨address, callback, userData, interval, now + interval⟩] := by
  induction list with
  | nil => rfl
  | cons x rest ih =>
    rw [List.find?_cons] at missing
    split at missing
    next hit => cases missing
    next miss =>
      rw [addTimer, if_neg (by simpa using miss), ih missing]
      rfl

/-- `RemoveTimer` takes out the timer and nothing else. -/
theorem removeTimer_eq (callback : Callback) (userData : UserData) (unique : (list.map TimerItem.key).Nodup) :
    removeTimer callback userData list = list.filter fun x => !x.Is callback userData := by
  induction list with
  | nil => rfl
  | cons x rest ih =>
    rw [List.map_cons, List.nodup_cons] at unique
    rw [removeTimer]
    split
    next hit =>
      rw [List.filter_cons_of_neg (by simp [hit]), eq_comm, List.filter_eq_self]
      intro y member
      rw [Bool.not_eq_true', Bool.eq_false_iff]
      intro is
      rw [TimerItem.is_iff] at hit is
      exact unique.1 (hit ▸ is ▸ List.mem_map_of_mem member)
    next miss =>
      rw [List.filter_cons_of_pos (by simpa using miss), ih unique.2]

/-! ## What holds at all times -/

/-- No two timers share their key, and none its address. -/
structure State.Listed (s : State) : Prop where
  unique : (s.timerList.map TimerItem.key).Nodup
  nodup : (s.timerList.map (·.address)).Nodup
  fresh : ∀ x ∈ s.timerList, x.address < s.made

structure State.Inv (s : State) : Prop where
  listed : s.Listed
  walks : ∀ pass, s.pass = some pass → (s.walk pass).Sound (·.address) (·.isDue pass.currTick) pass.start

/-- What is promised of the timers at all times: no two share their key, and a pass goes as it should. -/
structure State.Safe (s : State) : Prop where
  unique : (s.timerList.map TimerItem.key).Nodup
  swept : ∀ pass, s.pass = some pass → (s.walk pass).Swept (·.address) (·.isDue pass.currTick) pass.start

theorem State.Inv.safe_iff (inv : s.Inv) : s.Safe ↔ ∀ pass, s.pass = some pass → pass.it ≠ .lost := by
  constructor
  · exact fun safe pass isPass => (safe.swept pass isPass).valid
  · exact fun valid => ⟨inv.listed.unique, fun pass isPass => (inv.walks pass isPass).swept_iff.mpr (valid pass isPass)⟩

theorem State.Inv.init : State.init.Inv := by
  refine ⟨⟨List.nodup_nil, List.nodup_nil, ?_⟩, ?_⟩
  · exact fun x member => nomatch member
  · exact fun pass isPass => nomatch isPass

/-! ## The steps -/

theorem State.Listed.addTimer (listed : s.Listed) : (s.addTimer callback userData interval now).Listed := by
  obtain ⟨unique, nodup, fresh⟩ := listed
  unfold State.addTimer
  split
  next pItem found =>
    have list := addTimer_of_found interval now s.made unique found
    constructor
    · simpa [list, Function.comp_def] using unique
    · simpa [list, Function.comp_def] using nodup
    · simpa [list] using fresh
  next missing =>
    have list := addTimer_of_not_found interval now s.made missing
    constructor
    · rw [list, List.map_append, List.nodup_append_comm, List.map_singleton, List.singleton_append, List.nodup_cons]
      refine ⟨fun member => ?_, unique⟩
      obtain ⟨x, inside, same⟩ := List.mem_map.mp member
      exact List.find?_eq_none.mp missing x inside (TimerItem.is_iff.mpr same)
    · rw [list, List.map_append, List.nodup_append_comm, List.map_singleton, List.singleton_append, List.nodup_cons]
      refine ⟨fun member => ?_, nodup⟩
      obtain ⟨x, inside, same⟩ := List.mem_map.mp member
      exact Nat.ne_of_lt (fresh x inside) same
    · intro x member
      rw [list, List.mem_append, List.mem_singleton] at member
      rcases member with old | rfl
      · exact Nat.lt_succ_of_lt (fresh x old)
      · exact Nat.lt_succ_self _

theorem State.Inv.addTimer (inv : s.Inv) : (s.addTimer callback userData interval now).Inv := by
  refine ⟨inv.listed.addTimer, ?_⟩
  have unique := inv.listed.unique
  unfold State.addTimer
  split
  next pItem found =>
    -- the timer is restarted in its place
    have list := addTimer_of_found interval now s.made unique found
    have others (x : TimerItem) (member : x ∈ s.timerList) (other : x.address ≠ pItem.address) :
        x.restartIf callback userData interval now = x := by
      apply if_neg
      intro is
      exact other (congrArg _ (eq_of_is unique found member is))
    intro pass' isPass
    obtain ⟨pass, old, rfl⟩ := Option.map_eq_some_iff.mp isPass
    have changed := (inv.walks pass old).change (·.restartIf callback userData interval now) pItem.address
      (fun _ _ => TimerItem.address_restartIf) others
    simpa [walk, list] using changed
  next missing =>
    have list := addTimer_of_not_found interval now s.made missing
    intro pass isPass
    have added := (inv.walks pass isPass).insert (a := ⟨s.made, callback, userData, interval, now + interval⟩)
      (List.append_nil s.timerList).symm rfl
    simpa [walk, list] using added

theorem State.Listed.removeTimer (listed : s.Listed) : (s.removeTimer callback userData).Listed := by
  have list := removeTimer_eq callback userData listed.unique
  unfold State.removeTimer
  split
  next =>
    constructor
    · rw [list]
      exact listed.unique.sublist (List.filter_sublist.map _)
    · rw [list]
      exact listed.nodup.sublist (List.filter_sublist.map _)
    · intro x member
      rw [list] at member
      exact listed.fresh x (List.mem_of_mem_filter member)
  next => exact listed

theorem State.Inv.removeTimer (inv : s.Inv) : (s.removeTimer callback userData).Inv := by
  refine ⟨inv.listed.removeTimer, ?_⟩
  obtain ⟨unique, nodup, fresh⟩ := inv.listed
  unfold State.removeTimer
  split
  next pItem found =>
    have here : pItem ∈ s.timerList := List.mem_of_find?_eq_some found
    have list := removeTimer_eq callback userData unique
    have only (x : TimerItem) (member : x ∈ s.timerList) :
        (!x.Is callback userData) = false ↔ x.address = pItem.address := by
      rw [Bool.not_eq_false']
      constructor
      · exact fun is => congrArg _ (eq_of_is unique found member is)
      · intro same
        rw [List.inj_on_of_nodup_map nodup member here same]
        exact List.find?_some found
    intro pass' isPass
    obtain ⟨pass, old, rfl⟩ := Option.map_eq_some_iff.mp isPass
    have erased := (inv.walks pass old).erase (fun x => !x.Is callback userData) pItem.address (fresh pItem here) only
    rw [walk, list]
    exact erased
  next => exact inv.walks

theorem State.Inv.checkTimer (inv : s.Inv) : (s.checkTimer currTick).Inv := by
  refine ⟨⟨inv.listed.unique, inv.listed.nodup, inv.listed.fresh⟩, fun pass isPass => ?_⟩
  cases isPass
  exact .init inv.listed.nodup inv.listed.fresh

/-- The timer that fires is moved on in its place. -/
def TimerItem.advanceIf (address : Nat) (x : TimerItem) : TimerItem := if x.address = address then x.advance else x

@[simp] theorem TimerItem.address_advanceIf : (pItem.advanceIf address).address = pItem.address := by
  unfold advanceIf
  split <;> rfl

@[simp] theorem TimerItem.key_advanceIf : (pItem.advanceIf address).key = pItem.key := by
  unfold advanceIf
  split <;> rfl

/-- What a turn of the loop does. -/
inductive Turn (s : State) (pass : Pass) : State → Prop where
  | lost (isLost : pass.it = .lost) : Turn s pass s
  | ended (atEnd : pass.it = .atEnd) : Turn s pass { s with pass := none }
  | fires {pItem : TimerItem} {rest : List TimerItem} (ahead : pass.it.ahead (·.address) s.timerList = pItem :: rest)
      (due : pItem.isDue pass.currTick = true) : Turn s pass
        { s with
          timerList := s.timerList.map (·.advanceIf pItem.address)
          pass := some { pass with
            it := .first (·.address) rest
            calling := true
            trace := pass.trace ++ [.called pItem.address] }
          firings := s.firings ++ [(pItem.address, pass.number)] }
  | waits {pItem : TimerItem} {rest : List TimerItem} (ahead : pass.it.ahead (·.address) s.timerList = pItem :: rest)
      (early : pItem.isDue pass.currTick = false) : Turn s pass
        { s with pass := some { pass with it := .first (·.address) rest, calling := false } }

theorem State.Inv.turn_cases (inv : s.Inv) (isPass : s.pass = some pass) : Turn s pass (s.turn pass) := by
  unfold State.turn
  split
  next isLost => exact .lost isLost
  next atEnd => exact .ended atEnd
  next address isTo =>
    split
    next nothing =>
      rw [← isTo] at nothing
      exact absurd nothing ((inv.walks pass isPass).ahead_ne_nil isTo)
    next pItem rest ahead =>
      rw [← isTo] at ahead
      split
      next due => exact .fires ahead due
      next early => exact .waits ahead (by simpa using early)

theorem State.Inv.turn (inv : s.Inv) (isPass : s.pass = some pass) : (s.turn pass).Inv := by
  obtain ⟨unique, nodup, fresh⟩ := inv.listed
  have turned := inv.turn_cases isPass
  generalize s.turn pass = t at turned ⊢
  cases turned with
  | lost => exact inv
  | ended => exact ⟨⟨unique, nodup, fresh⟩, fun pass' isPass' => nomatch isPass'⟩
  | @fires pItem rest ahead due =>
    refine ⟨⟨?_, ?_, ?_⟩, fun pass' isPass' => ?_⟩
    · simpa [Function.comp_def] using unique
    · simpa [Function.comp_def] using nodup
    · simpa using fresh
    · cases isPass'
      apply (inv.walks pass isPass).call ahead (·.advanceIf pItem.address)
      · exact fun _ _ => TimerItem.address_advanceIf
      · exact fun _ _ other => if_neg other
  | waits ahead early =>
    refine ⟨⟨unique, nodup, fresh⟩, fun pass' isPass' => ?_⟩
    cases isPass'
    exact (inv.walks pass isPass).pass ahead early

theorem State.Inv.step (inv : s.Inv) (step : Step) : (s.step step).Inv := by
  cases step with
  | addTimer callback userData interval now =>
    simp only [State.step]
    split
    · exact inv
    · exact inv.addTimer
  | removeTimer callback userData =>
    simp only [State.step]
    split
    · exact inv
    · exact inv.removeTimer
  | checkTimer currTick =>
    simp only [State.step]
    split
    · exact inv
    · exact inv.checkTimer
  | next =>
    simp only [State.step]
    split
    next pass isPass => exact inv.turn isPass
    next => exact inv

/-! ## The timer behind the one that runs -/

/-- The step is no removal, by the callback that runs, of the timer that comes next in the list. -/
def Step.SparesNext (s : State) : Step → Prop
  | .removeTimer callback userData => ∀ pass pItem, s.pass = some pass → pass.calling = true →
      (pass.it.ahead (·.address) s.timerList).head? = some pItem → pItem.Is callback userData = false
  | _ => True

/-- A callback takes the iterator away if and only if it removes the next timer. -/
theorem State.Inv.removeTimer_safe_iff (inv : s.Inv) (safe : s.Safe) (free : s.busy = false) :
    (s.removeTimer callback userData).Safe ↔ (Step.removeTimer callback userData).SparesNext s := by
  have valid := inv.safe_iff.mp safe
  rw [inv.removeTimer.safe_iff, State.removeTimer]
  split
  next pItem found =>
    have here : pItem ∈ s.timerList := List.mem_of_find?_eq_some found
    have hit : pItem.Is callback userData = true := List.find?_some found
    constructor
    · intro kept pass next isPass calling isNext
      have inside : next ∈ s.timerList := mem_of_mem_ahead (List.mem_of_head? isNext)
      by_contra is
      obtain rfl : next = pItem := eq_of_is inv.listed.unique found inside (by simpa using is)
      have isTo : pass.it = .to next.address :=
        ((inv.walks pass isPass).it_eq_iff (valid pass isPass) inv.listed.nodup here).mpr isNext
      apply kept _ (Option.map_eq_some_iff.mpr ⟨pass, isPass, rfl⟩)
      exact if_pos isTo
    · intro spares pass' isPass'
      obtain ⟨pass, isPass, rfl⟩ := Option.map_eq_some_iff.mp isPass'
      have calling : pass.calling = true := by simpa [State.busy, isPass] using free
      have other : pass.it ≠ .to pItem.address := by
        intro same
        have isNext := ((inv.walks pass isPass).it_eq_iff (valid pass isPass) inv.listed.nodup here).mp same
        rw [spares pass pItem isPass calling isNext] at hit
        cases hit
      simpa [other] using valid pass isPass
  next missing =>
    refine ⟨fun _ pass next isPass calling isNext => ?_, fun _ => valid⟩
    have inside : next ∈ s.timerList := mem_of_mem_ahead (List.mem_of_head? isNext)
    simpa using List.find?_eq_none.mp missing next inside

/-- `AddTimer` leaves the iterator where it is. -/
theorem State.addTimer_valid (valid : ∀ pass, s.pass = some pass → pass.it ≠ .lost) :
    ∀ pass, (s.addTimer callback userData interval now).pass = some pass → pass.it ≠ .lost := by
  unfold State.addTimer
  split
  · intro pass' isPass'
    obtain ⟨pass, isPass, rfl⟩ := Option.map_eq_some_iff.mp isPass'
    exact valid pass isPass
  · exact valid

/-- The loop itself moves the iterator on to the next timer or to the end. -/
theorem State.Inv.turn_valid (inv : s.Inv) (valid : ∀ pass, s.pass = some pass → pass.it ≠ .lost)
    (isPass : s.pass = some pass) : ∀ pass', (s.turn pass).pass = some pass' → pass'.it ≠ .lost := by
  have turned := inv.turn_cases isPass
  generalize s.turn pass = t at turned ⊢
  cases turned with
  | lost => exact valid
  | ended => exact fun pass' isPass' => nomatch isPass'
  | fires =>
    intro pass' isPass'
    cases isPass'
    exact Iter.first_ne_lost _
  | waits =>
    intro pass' isPass'
    cases isPass'
    exact Iter.first_ne_lost _

/-- A step keeps what is promised if and only if it spares the next timer. -/
theorem State.Inv.step_safe_iff (inv : s.Inv) (safe : s.Safe) (step : Step) : (s.step step).Safe ↔ step.SparesNext s := by
  have valid := inv.safe_iff.mp safe
  have next := inv.step step
  cases step with
  | addTimer callback userData interval now =>
    refine ⟨fun _ => trivial, fun _ => next.safe_iff.mpr ?_⟩
    simp only [State.step]
    split
    · exact valid
    · exact State.addTimer_valid valid
  | removeTimer callback userData =>
    simp only [State.step]
    split
    next busy =>
      refine ⟨fun _ pass next isPass calling => ?_, fun _ => safe⟩
      simp [State.busy, isPass, calling] at busy
    next free => exact inv.removeTimer_safe_iff safe (by simpa using free)
  | checkTimer currTick =>
    refine ⟨fun _ => trivial, fun _ => next.safe_iff.mpr ?_⟩
    simp only [State.step]
    split
    · exact valid
    · intro pass isPass
      cases isPass
      exact Iter.first_ne_lost _
  | next =>
    refine ⟨fun _ => trivial, fun _ => next.safe_iff.mpr ?_⟩
    simp only [State.step]
    split
    next pass isPass => exact inv.turn_valid valid isPass
    next => exact valid

/-- **A timer pass is safe** if and only if no callback removes the timer that comes next. -/
theorem pass_safe_iff (steps : List Step) : (∀ js, js <+: steps → (run State.step .init js).Safe) ↔
    Along State.step (fun s step => step.SparesNext s) .init steps := by
  apply run_prefixes_iff (I := State.Inv)
  · exact fun s step inv => inv.step step
  · exact fun s step inv safe => inv.step_safe_iff safe step
  · exact State.Inv.init
  · exact State.Inv.init.safe_iff.mpr fun pass isPass => nomatch isPass

/-- The first of two timers removes the second one. -/
theorem not_pass_safe : ¬ (run State.step .init
    [.addTimer 1 0 1000 0, .addTimer 2 0 1000 0, .checkTimer 1000, .next, .removeTimer 2 0]).Safe := by
  intro safe
  exact (safe.swept _ rfl).valid rfl

end Netter.Timer
