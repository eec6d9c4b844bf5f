import Netter.Lib.Periodic
import Netter.Timer.Pass

/-!
# When a timer fires

A timer that is left alone is polled once in each pass, wherever it stands in the list and whatever the others
do. Its next tick is counted on from the tick at which it was added, so that it does not drift.
-/

namespace Netter.Timer

open Lib Lib.Periodic

/-- The timer that a step adds or removes. -/
def Step.key : Step → Option (Callback × UserData)
  | .addTimer callback userData _ _ => some (callback, userData)
  | .removeTimer callback userData => some (callback, userData)
  | _ => none

/-- The numbers of the passes that have fired the timer since then. -/
def State.firedSince (s base : State) (address : Nat) : List Nat :=
  ((s.firings.drop base.firings.length).filter (·.1 == address)).map (·.2)

def readings (ticks : List UInt64) : List Nat := ticks.map (·.toNat)

/-- The timer after it has fired so many times. -/
def itemAfter (address : Nat) (callback : Callback) (userData : UserData) (interval now : UInt64) (fired : Nat) : TimerItem :=
  ⟨address, callback, userData, interval, UInt64.ofNat (now.toNat + (fired + 1) * interval.toNat)⟩

/-- The clock does not go back, and the next tick of the timer does not wrap. -/
structure Clock (interval now : UInt64) (ticks : List UInt64) : Prop where
  sorted : (now :: ticks).Pairwise (· ≤ ·)
  fits : now.toNat + (runs now.toNat interval.toNat (readings ticks) + 1) * interval.toNat < 2 ^ 64

variable {base s t : State} {pass : Pass} {callback other : Callback} {userData otherData : UserData}
  {interval now currTick span clock : UInt64} {address fired : Nat} {ticks : List UInt64} {polls : List Nat}
  {item pItem : TimerItem}

theorem readings_snoc : readings (ticks ++ [currTick]) = readings ticks ++ [currTick.toNat] := by
  simp [readings]

theorem advance_itemAfter : (itemAfter address callback userData interval now fired).advance =
    itemAfter address callback userData interval now (fired + 1) := by
  have sum : now.toNat + (fired + 1 + 1) * interval.toNat = now.toNat + (fired + 1) * interval.toNat + interval.toNat := by
    rw [Nat.add_mul (fired + 1), Nat.one_mul, Nat.add_assoc]
  have wrapped := UInt64.ofNat_add (now.toNat + (fired + 1) * interval.toNat) interval.toNat
  rw [UInt64.ofNat_toNat] at wrapped
  rw [itemAfter, itemAfter, sum, wrapped]
  rfl

theorem isDue_itemAfter (fits : now.toNat + (fired + 1) * interval.toNat < 2 ^ 64) :
    (itemAfter address callback userData interval now fired).isDue currTick = true ↔
      now.toNat + (fired + 1) * interval.toNat ≤ currTick.toNat := by
  simp only [itemAfter, TimerItem.isDue, decide_eq_true_eq, ge_iff_le, UInt64.le_iff_toNat_le]
  rw [UInt64.toNat_ofNat_of_lt' fits]

theorem Clock.le (clock : Clock interval now (ticks ++ [currTick])) : ∀ r ∈ readings ticks, r ≤ currTick.toNat := by
  intro r member
  obtain ⟨tick, inside, rfl⟩ := List.mem_map.mp member
  have sorted := clock.sorted
  rw [← List.cons_append, List.pairwise_append] at sorted
  exact sorted.2.2 tick (List.mem_cons_of_mem now inside) currTick (List.mem_singleton.mpr rfl)

theorem Clock.of_snoc (clock : Clock interval now (ticks ++ [currTick])) : Clock interval now ticks := by
  refine ⟨clock.sorted.sublist (List.Sublist.cons_cons now (List.sublist_append_left ..)), ?_⟩
  have fits := clock.fits
  rw [readings_snoc] at fits
  have more : runs now.toNat interval.toNat (readings ticks) ≤
      runs now.toNat interval.toNat (readings ticks ++ [currTick.toNat]) := runs_le_snoc clock.le
  have less := Nat.mul_le_mul_right interval.toNat (Nat.succ_le_succ more)
  simp only [Nat.succ_eq_add_one] at less
  omega

/-! ## One timer among the others -/

/-- Where the timer stands in the pass that is under way. -/
inductive Stage (base : State) (item : TimerItem) (interval now : UInt64) (ticks : List UInt64) (polls : List Nat) :
    Option Pass → Prop where
  | idle (on : OnSchedule now.toNat interval.toNat (readings ticks) polls) : Stage base item interval now ticks polls none
  /-- The pass was under way when the timer was added. -/
  | older {pass : Pass} (before : pass.currTick ≤ now) (noTicks : ticks = []) (noPolls : polls = []) :
      Stage base item interval now ticks polls (some pass)
  | waiting {pass : Pass} {earlier : List UInt64} (last : ticks = earlier ++ [pass.currTick])
      (number : pass.number = base.ticks.length + earlier.length)
      (alone : ∀ e ∈ pass.trace, ¬ e.Edits item.address) (turn : .called item.address ∉ pass.trace)
      (start : item ∈ pass.start) (on : OnSchedule now.toNat interval.toNat (readings earlier) polls) :
      Stage base item interval now ticks polls (some pass)
  | served {pass : Pass} (called : .called item.address ∈ pass.trace)
      (on : OnSchedule now.toNat interval.toNat (readings ticks) polls) : Stage base item interval now ticks polls (some pass)

/-- What is known of a timer that was added in the state `base` and left alone since then. -/
structure Kept (base : State) (address : Nat) (callback : Callback) (userData : UserData) (interval now : UInt64)
    (ticks : List UInt64) (polls : List Nat) (s : State) : Prop where
  ticks_eq : s.ticks = base.ticks ++ ticks
  grown : base.firings.length ≤ s.firings.length
  fired : s.firedSince base address = polls.map (base.ticks.length + ·)
  item : itemAfter address callback userData interval now polls.length ∈ s.timerList
  stage : Stage base (itemAfter address callback userData interval now polls.length) interval now ticks polls s.pass

/-- An operation on another timer leaves the timer where it is. -/
theorem Stage.edit {e : WalkEvent} {it : Iter} {calling : Bool} (stage : Stage base item interval now ticks polls (some pass))
    (other : ¬ e.Edits item.address) (noCall : e ≠ .called item.address) :
    Stage base item interval now ticks polls
      (some { pass with it := it, calling := calling, trace := pass.trace ++ [e] }) := by
  cases stage with
  | older before noTicks noPolls => exact .older before noTicks noPolls
  | waiting last number alone turn start on =>
    refine .waiting last number ?_ ?_ start on
    · intro f member
      rcases List.mem_append.mp member with old | new
      · exact alone f old
      · rw [List.mem_singleton.mp new]
        exact other
    · intro member
      rcases List.mem_append.mp member with old | new
      · exact turn old
      · exact noCall (List.mem_singleton.mp new).symm
  | served called on => exact .served (List.mem_append_left _ called) on

theorem Stage.map_edit {e : WalkEvent} {pass : Option Pass} {it : Pass → Iter}
    (stage : Stage base item interval now ticks polls pass) (other : ¬ e.Edits item.address)
    (noCall : e ≠ .called item.address) : Stage base item interval now ticks polls
      (pass.map fun pass => { pass with it := it pass, trace := pass.trace ++ [e] }) := by
  cases pass with
  | none => exact stage
  | some pass => exact stage.edit other noCall

theorem Stage.move {it : Iter} {calling : Bool} (stage : Stage base item interval now ticks polls (some pass)) :
    Stage base item interval now ticks polls (some { pass with it := it, calling := calling }) := by
  cases stage with
  | older before noTicks noPolls => exact .older before noTicks noPolls
  | waiting last number alone turn start on => exact .waiting last number alone turn start on
  | served called on => exact .served called on

/-- The search for another timer finds another one. -/
theorem address_ne_of_found (inv : s.Inv) (differs : (other, otherData) ≠ item.key) (member : item ∈ s.timerList)
    (found : s.timerList.find? (·.Is other otherData) = some pItem) : pItem.address ≠ item.address := by
  intro clash
  have same := List.inj_on_of_nodup_map inv.listed.nodup (List.mem_of_find?_eq_some found) member clash
  have is : pItem.Is other otherData = true := List.find?_some found
  rw [same, TimerItem.is_iff] at is
  exact differs is.symm

theorem is_eq_false (differs : (other, otherData) ≠ item.key) : item.Is other otherData = false := by
  rw [Bool.eq_false_iff]
  intro is
  exact differs (TimerItem.is_iff.mp is).symm

theorem Kept.addTimer (inv : s.Inv) (kept : Kept base address callback userData interval now ticks polls s)
    (differs : (other, otherData) ≠ (callback, userData)) :
    Kept base address callback userData interval now ticks polls (s.addTimer other otherData span clock) := by
  have apart : (itemAfter address callback userData interval now polls.length).Is other otherData = false :=
    is_eq_false differs
  have member := kept.item
  unfold State.addTimer
  split
  next pItem found =>
    have elsewhere := address_ne_of_found inv differs member found
    refine ⟨kept.ticks_eq, kept.grown, kept.fired, ?_, ?_⟩
    · show _ ∈ Timer.addTimer other otherData span clock s.made s.timerList
      rw [addTimer_of_found span clock s.made inv.listed.unique found]
      refine List.mem_map.mpr ⟨_, member, ?_⟩
      rw [TimerItem.restartIf, apart, if_neg Bool.false_ne_true]
    · exact kept.stage.map_edit elsewhere WalkEvent.noConfusion
  next missing =>
    refine ⟨kept.ticks_eq, kept.grown, kept.fired, ?_, kept.stage⟩
    show _ ∈ Timer.addTimer other otherData span clock s.made s.timerList
    rw [addTimer_of_not_found span clock s.made missing]
    exact List.mem_append_left _ member

theorem Kept.removeTimer (inv : s.Inv) (kept : Kept base address callback userData interval now ticks polls s)
    (differs : (other, otherData) ≠ (callback, userData)) :
    Kept base address callback userData interval now ticks polls (s.removeTimer other otherData) := by
  have apart : (itemAfter address callback userData interval now polls.length).Is other otherData = false :=
    is_eq_false differs
  have member := kept.item
  unfold State.removeTimer
  split
  next pItem found =>
    have elsewhere := address_ne_of_found inv differs member found
    refine ⟨kept.ticks_eq, kept.grown, kept.fired, ?_, ?_⟩
    · show _ ∈ Timer.removeTimer other otherData s.timerList
      rw [removeTimer_eq other otherData inv.listed.unique]
      exact List.mem_filter.mpr ⟨member, by rw [apart]; rfl⟩
    · exact kept.stage.map_edit elsewhere WalkEvent.noConfusion
  next => exact kept

theorem Kept.checkTimer (kept : Kept base address callback userData interval now ticks polls s) (idle : s.pass = none) :
    Kept base address callback userData interval now (ticks ++ [currTick]) polls (s.checkTimer currTick) := by
  have stage := kept.stage
  rw [idle] at stage
  cases stage with
  | idle on =>
    refine ⟨?_, kept.grown, kept.fired, kept.item, ?_⟩
    · show s.ticks ++ [currTick] = _
      rw [kept.ticks_eq, List.append_assoc]
    · refine .waiting rfl ?_ ?_ ?_ kept.item on
      · show s.ticks.length = _
        rw [kept.ticks_eq, List.length_append]
      · exact fun e member => nomatch member
      · exact List.not_mem_nil

/-- At the end of a pass a timer that has waited in vain was not due. -/
theorem State.Inv.not_due_of_ended (inv : s.Inv) (isPass : s.pass = some pass) (atEnd : pass.it = .atEnd)
    (start : item ∈ pass.start) (alone : ∀ e ∈ pass.trace, ¬ e.Edits item.address)
    (turn : .called item.address ∉ pass.trace) : item.isDue pass.currTick = false := by
  rw [Bool.eq_false_iff]
  intro due
  have valid : pass.it ≠ .lost := by
    rw [atEnd]
    exact Iter.noConfusion
  have plain : ¬ Early pass.trace item.address := by
    rintro ⟨before, e, after, same, edits, -⟩
    exact alone e (by simp [same]) edits
  have swept := (inv.walks pass isPass).swept_iff.mpr valid
  have once : pass.trace.count (.called item.address) = _ := swept.exactly item start due plain
  rw [List.count_eq_zero.mpr turn] at once
  simp [State.walk, atEnd, Iter.ahead] at once

theorem State.firedSince_snoc {n : Nat} (grown : base.firings.length ≤ s.firings.length)
    (fires : t.firings = s.firings ++ [(pItem.address, n)]) :
    t.firedSince base address = s.firedSince base address ++ if pItem.address = address then [n] else [] := by
  rw [firedSince, fires, List.drop_append_of_le_length grown, List.filter_append, List.map_append]
  congr 1
  split <;> simp_all

/-- The pass comes to the timer: it fires if it is due, and then it waits for its next tick. -/
theorem Kept.fires (inv : s.Inv) (clock : Clock interval now ticks) (pos : 0 < interval.toNat)
    (kept : Kept base address callback userData interval now ticks polls s) (isPass : s.pass = some pass)
    {rest : List TimerItem} (ahead : pass.it.ahead (·.address) s.timerList = pItem :: rest)
    (due : pItem.isDue pass.currTick = true) (own : pItem.address = address) :
    ∃ polls, Kept base address callback userData interval now ticks polls
      { s with
        timerList := s.timerList.map (·.advanceIf pItem.address)
        pass := some { pass with
          it := .first (·.address) rest
          calling := true
          trace := pass.trace ++ [.called pItem.address] }
        firings := s.firings ++ [(pItem.address, pass.number)] } := by
  have inside : pItem ∈ s.timerList := mem_of_mem_ahead (ahead ▸ List.mem_cons_self)
  have same : pItem = itemAfter address callback userData interval now polls.length :=
    List.inj_on_of_nodup_map inv.listed.nodup inside kept.item own
  rw [same] at due
  have stage := kept.stage
  rw [isPass] at stage
  cases stage with
  | older before noTicks noPolls =>
    exfalso
    subst noTicks noPolls
    have fits : now.toNat + (0 + 1) * interval.toNat < 2 ^ 64 := clock.fits
    have passed := (isDue_itemAfter fits).mp due
    have order := UInt64.le_iff_toNat_le.mp before
    omega
  | waiting last number alone turn start on =>
    rename_i earlier
    have fits : now.toNat + (polls.length + 1) * interval.toNat < 2 ^ 64 := by
      rw [on.count]
      exact (last ▸ clock).of_snoc.fits
    have fired := on.fire pos ((isDue_itemAfter fits).mp due)
    refine ⟨polls ++ [earlier.length], kept.ticks_eq, ?_, ?_, ?_, ?_⟩
    · rw [List.length_append]
      exact Nat.le_add_right_of_le kept.grown
    · rw [State.firedSince_snoc kept.grown rfl, kept.fired, if_pos own, number, List.map_append]
      rfl
    · have here : (itemAfter address callback userData interval now polls.length).address = pItem.address := own.symm
      refine List.mem_map.mpr ⟨_, kept.item, ?_⟩
      rw [TimerItem.advanceIf, if_pos here, advance_itemAfter, List.length_append]
      rfl
    · refine .served ?_ ?_
      · rw [own]
        exact List.mem_append_right _ (List.mem_singleton.mpr rfl)
      · rw [last, readings_snoc]
        simpa [readings] using fired
  | served called on =>
    exfalso
    obtain ⟨behind, ordered⟩ := (inv.walks pass isPass).ordered ahead
    apply ordered.turn pItem List.mem_cons_self
    rw [own]
    exact called

theorem Kept.turn (inv : s.Inv) (clock : Clock interval now ticks) (pos : 0 < interval.toNat)
    (kept : Kept base address callback userData interval now ticks polls s) (isPass : s.pass = some pass) :
    ∃ polls, Kept base address callback userData interval now ticks polls (s.turn pass) := by
  have stage := kept.stage
  rw [isPass] at stage
  have turned := inv.turn_cases isPass
  generalize s.turn pass = t at turned ⊢
  cases turned with
  | lost => exact ⟨polls, kept⟩
  | ended atEnd =>
    refine ⟨polls, kept.ticks_eq, kept.grown, kept.fired, kept.item, .idle ?_⟩
    cases stage with
    | older before noTicks noPolls =>
      subst noTicks noPolls
      exact .nil
    | waiting last number alone turn start on =>
      have fits : now.toNat + (polls.length + 1) * interval.toNat < 2 ^ 64 := by
        rw [on.count]
        exact (last ▸ clock).of_snoc.fits
      have notDue := inv.not_due_of_ended isPass atEnd start alone turn
      have early : pass.currTick.toNat < now.toNat + (polls.length + 1) * interval.toNat := by
        apply Nat.lt_of_not_le
        intro late
        rw [(isDue_itemAfter fits).mpr late] at notDue
        cases notDue
      rw [last, readings_snoc]
      exact on.wait pos (last ▸ clock).le early
    | served called on => exact on
  | @fires pItem rest ahead due =>
    by_cases own : pItem.address = address
    · exact kept.fires inv clock pos isPass ahead due own
    · refine ⟨polls, kept.ticks_eq, ?_, ?_, ?_, ?_⟩
      · rw [List.length_append]
        exact Nat.le_add_right_of_le kept.grown
      · rw [State.firedSince_snoc kept.grown rfl, if_neg own, List.append_nil]
        exact kept.fired
      · refine List.mem_map.mpr ⟨_, kept.item, ?_⟩
        exact if_neg (Ne.symm own)
      · refine stage.edit ?_ ?_
        · exact id
        · intro clash
          cases clash
          exact own rfl
  | waits => exact ⟨polls, kept.ticks_eq, kept.grown, kept.fired, kept.item, stage.move⟩

/-- As long as the clock keeps its promise, the timer is where it should be. -/
def Tracked (base : State) (address : Nat) (callback : Callback) (userData : UserData) (interval now : UInt64)
    (s : State) : Prop :=
  ∃ ticks, s.ticks = base.ticks ++ ticks ∧
    (Clock interval now ticks → ∃ polls, Kept base address callback userData interval now ticks polls s)

theorem Tracked.step (inv : s.Inv) (pos : 0 < interval.toNat)
    (tracked : Tracked base address callback userData interval now s) (step : Step)
    (alone : step.key ≠ some (callback, userData)) :
    Tracked base address callback userData interval now (s.step step) := by
  obtain ⟨ticks, same, keeps⟩ := tracked
  cases step with
  | addTimer other otherData span clock =>
    simp only [State.step]
    split
    · exact ⟨ticks, same, keeps⟩
    · refine ⟨ticks, ?_, fun ok => ?_⟩
      · unfold State.addTimer
        split <;> exact same
      · obtain ⟨polls, kept⟩ := keeps ok
        exact ⟨polls, kept.addTimer inv fun clash => alone (congrArg some clash)⟩
  | removeTimer other otherData =>
    simp only [State.step]
    split
    · exact ⟨ticks, same, keeps⟩
    · refine ⟨ticks, ?_, fun ok => ?_⟩
      · unfold State.removeTimer
        split <;> exact same
      · obtain ⟨polls, kept⟩ := keeps ok
        exact ⟨polls, kept.removeTimer inv fun clash => alone (congrArg some clash)⟩
  | checkTimer currTick =>
    simp only [State.step]
    split
    · exact ⟨ticks, same, keeps⟩
    next noPass =>
      refine ⟨ticks ++ [currTick], ?_, fun ok => ?_⟩
      · show s.ticks ++ [currTick] = _
        rw [same, List.append_assoc]
      · obtain ⟨polls, kept⟩ := keeps ok.of_snoc
        exact ⟨polls, kept.checkTimer (by simpa using noPass)⟩
  | next =>
    simp only [State.step]
    split
    next pass isPass =>
      refine ⟨ticks, ?_, fun ok => ?_⟩
      · have turned := inv.turn_cases isPass
        generalize s.turn pass = t at turned ⊢
        cases turned <;> exact same
      · obtain ⟨polls, kept⟩ := keeps ok
        exact kept.turn inv ok pos isPass
    next => exact ⟨ticks, same, keeps⟩

theorem Tracked.run (inv : s.Inv) (pos : 0 < interval.toNat)
    (tracked : Tracked base address callback userData interval now s) (steps : List Step)
    (alone : ∀ step ∈ steps, step.key ≠ some (callback, userData)) :
    Tracked base address callback userData interval now (run State.step s steps) := by
  induction steps generalizing s with
  | nil => exact tracked
  | cons step steps ih =>
    apply ih (inv.step step)
    · exact tracked.step inv pos step (alone step List.mem_cons_self)
    · exact fun later member => alone later (List.mem_cons_of_mem step member)

theorem itemAfter_zero (address : Nat) (callback : Callback) (userData : UserData) (interval now : UInt64) :
    itemAfter address callback userData interval now 0 = ⟨address, callback, userData, interval, now + interval⟩ := by
  have wrapped := UInt64.ofNat_add now.toNat interval.toNat
  rw [UInt64.ofNat_toNat, UInt64.ofNat_toNat] at wrapped
  rw [itemAfter, Nat.zero_add, Nat.one_mul, wrapped]

/-- `AddTimer` puts the timer on its schedule, whether or not it was there before. -/
theorem Tracked.start (callback : Callback) (userData : UserData) (interval : UInt64) (inv : base.Inv)
    (before : ∀ pass, base.pass = some pass → pass.currTick ≤ now) :
    ∃ address, Tracked base address callback userData interval now (base.addTimer callback userData interval now) := by
  have stage {item : TimerItem} (pass' : Option Pass)
      (same : ∀ pass, pass' = some pass → ∃ old, base.pass = some old ∧ pass.currTick = old.currTick) :
      Stage base item interval now [] [] pass' := by
    cases pass' with
    | none => exact .idle .nil
    | some pass =>
      obtain ⟨old, isPass, tick⟩ := same pass rfl
      exact .older (tick ▸ before old isPass) rfl rfl
  have noneFired (address : Nat) : ((base.firings.drop base.firings.length).filter (·.1 == address)).map (·.2) = [] := by
    rw [List.drop_length]
    rfl
  unfold State.addTimer
  split
  next pItem found =>
    have here : pItem ∈ base.timerList := List.mem_of_find?_eq_some found
    have is : pItem.Is callback userData = true := List.find?_some found
    refine ⟨pItem.address, [], (List.append_nil _).symm, fun _ => ⟨[], ?_⟩⟩
    refine ⟨(List.append_nil _).symm, Nat.le_refl _, noneFired _, ?_, ?_⟩
    · show _ ∈ Timer.addTimer callback userData interval now base.made base.timerList
      rw [addTimer_of_found interval now base.made inv.listed.unique found]
      refine List.mem_map.mpr ⟨pItem, here, ?_⟩
      have key := TimerItem.is_iff.mp is
      rw [TimerItem.key, Prod.mk.injEq] at key
      rw [List.length_nil, itemAfter_zero, TimerItem.restartIf, if_pos is, TimerItem.restart, key.1, key.2]
    · apply stage
      intro pass isPass
      obtain ⟨old, isOld, rfl⟩ := Option.map_eq_some_iff.mp isPass
      exact ⟨old, isOld, rfl⟩
  next missing =>
    refine ⟨base.made, [], (List.append_nil _).symm, fun _ => ⟨[], ?_⟩⟩
    refine ⟨(List.append_nil _).symm, Nat.le_refl _, noneFired _, ?_, ?_⟩
    · show _ ∈ Timer.addTimer callback userData interval now base.made base.timerList
      rw [addTimer_of_not_found interval now base.made missing, List.length_nil, itemAfter_zero]
      exact List.mem_append_right _ (List.mem_singleton.mpr rfl)
    · exact stage _ fun pass isPass => ⟨pass, isPass, rfl⟩

/-- A timer is the only one with its key. -/
theorem filter_is_eq (listed : s.Listed) (member : item ∈ s.timerList) (is : item.Is callback userData = true) :
    s.timerList.filter (·.Is callback userData) = [item] := by
  have nodup : (s.timerList.filter (·.Is callback userData)).Nodup :=
    (List.Nodup.of_map _ listed.nodup).filter _
  have all : ∀ x ∈ s.timerList.filter (·.Is callback userData), x = item := by
    intro x found
    obtain ⟨inside, same⟩ := List.mem_filter.mp found
    rw [TimerItem.is_iff] at same is
    exact List.inj_on_of_nodup_map listed.unique inside member (same.trans is.symm)
  have here : item ∈ s.timerList.filter (·.Is callback userData) := List.mem_filter.mpr ⟨member, is⟩
  rw [List.eq_replicate_of_mem all] at nodup here ⊢
  have atMost := List.nodup_replicate.mp nodup
  have atLeast := List.ne_nil_of_mem here
  generalize (s.timerList.filter (·.Is callback userData)).length = n at atMost atLeast ⊢
  obtain rfl : n = 1 := by
    rcases n with _ | _ | n
    · exact absurd rfl atLeast
    · rfl
    · omega
  rfl

/-- **A timer fires on schedule**: in the state `s` the loop thread adds the timer, new or again, and then
nothing else is done to it while the loop makes its passes over whatever timers there are. -/
theorem on_schedule (before steps : List Step) (callback : Callback) (userData : UserData) (interval now : UInt64)
    (ticks : List UInt64) (s t : State) (reached : run State.step .init before = s) (free : s.busy = false)
    (ran : run State.step s (.addTimer callback userData interval now :: steps) = t)
    (alone : ∀ step ∈ steps, step.key ≠ some (callback, userData)) (pos : 1 ≤ interval)
    (earlier : ∀ pass, s.pass = some pass → pass.currTick ≤ now) (ended : t.pass = none)
    (ticks_eq : t.ticks = s.ticks ++ ticks) (sorted : (now :: ticks).Pairwise (· ≤ ·))
    (fits : now.toNat + (runs now.toNat interval.toNat (readings ticks) + 1) * interval.toNat < 2 ^ 64) :
    ∃ item polls, t.timerList.filter (·.Is callback userData) = [item] ∧
      t.firedSince s item.address = polls.map (s.ticks.length + ·) ∧
      OnSchedule now.toNat interval.toNat (readings ticks) polls := by
  have keep (s : State) (step : Step) (inv : s.Inv) : (s.step step).Inv := inv.step step
  have inv : s.Inv := reached ▸ run_inv keep State.Inv.init before
  have positive : 0 < interval.toNat := UInt64.le_iff_toNat_le.mp pos
  rw [run_cons] at ran
  simp only [State.step, free, Bool.false_eq_true, if_false] at ran
  obtain ⟨address, start⟩ := Tracked.start callback userData interval inv earlier
  obtain ⟨ticks', same, keeps⟩ := ran ▸ start.run inv.addTimer positive steps alone
  obtain rfl : ticks' = ticks := List.append_cancel_left (same.symm.trans ticks_eq)
  obtain ⟨polls, kept⟩ := keeps ⟨sorted, fits⟩
  have stage := kept.stage
  rw [ended] at stage
  cases stage with
  | idle on =>
    have listed : t.Listed := (ran ▸ run_inv keep inv.addTimer steps : t.Inv).listed
    refine ⟨_, polls, filter_is_eq listed kept.item ?_, kept.fired, on⟩
    exact TimerItem.is_iff.mpr rfl

/-- A timer of 1000 ms and passes at 500, 3500 and 3600: it fires in the second and in the third one, while another
timer in front of it is restarted by its callback. -/
theorem on_schedule_late : ∃ item polls,
    (run State.step (run State.step .init [.addTimer 1 7 50 0]) [.addTimer 2 7 1000 0, .checkTimer 500, .next,
      .addTimer 1 7 3000 500, .next, .next, .checkTimer 3500, .next, .next, .next, .checkTimer 3600, .next, .next,
      .next]).timerList.filter (·.Is 2 7) = [item] ∧ polls.length = 2 ∧ OnSchedule 0 1000 [500, 3500, 3600] polls := by
  obtain ⟨item, polls, only, -, on⟩ := on_schedule [.addTimer 1 7 50 0]
    [.checkTimer 500, .next, .addTimer 1 7 3000 500, .next, .next, .checkTimer 3500, .next, .next, .next,
      .checkTimer 3600, .next, .next, .next] 2 7 1000 0 [500, 3500, 3600] _ _ rfl rfl rfl (by decide) (by decide)
    (fun pass isPass => nomatch isPass) rfl rfl (by decide) (by decide)
  have twice : runs 0 1000 [500, 3500, 3600] = 2 := by decide
  exact ⟨item, polls, only, on.count.trans twice, on⟩

end Netter.Timer
