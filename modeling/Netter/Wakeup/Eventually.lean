import Netter.Lib.Eventually
import Netter.Wakeup

/-!
# The loop gets round

That no wake-up is missed means that the loop does not sleep on work for it. In an endless run in which every thread gets on,
it also gets round to it: what has been posted is swapped out of its list together with all that was posted before, and a
loop that has been told to stop ends.
-/

namespace Netter.Wakeup

open Lib

/-- The states of an endless run. -/
def stateAt (steps : Nat → Step) : Nat → State := Lib.stateAt (fun s step => step.exec s) .init steps

def Pc.isReading : Pc → Bool
  | .reading _ => true
  | _ => false

/-- Every thread gets on. -/
structure Fair (steps : Nat → Step) : Prop where
  loop : ∀ n, Later (fun m => steps m = .advance) n
  /-- `epoll_wait` returns when there is something to return. -/
  returns : WeakFair (fun n => (stateAt steps n).pc = .waiting ∧ (stateAt steps n).ready = true)
    fun n => ∃ batch, steps n = .epollWait batch
  /-- A call of `Wakeup` comes to its end. -/
  posts : ∀ thread n, Later (fun m => (stateAt steps m).posters thread = .idle) n
  /-- The other threads do not for ever write faster than the loop reads. -/
  reads : ∀ n, Later (fun m => (stateAt steps m).pc.isReading = false) n

/-- The lists that other threads push to. -/
inductive Posted where
  | pkts
  | closes
  | registers

namespace Posted

def list : Posted → State → List Item
  | .pkts, s => s.pktList
  | .closes, s => s.closeList
  | .registers, s => s.registerEventList

/-- Where the loop swaps the list. -/
def swapped : Posted → Pc
  | .pkts | .closes => .checkLoop
  | .registers => .regiterEventList

end Posted

variable {steps : Nat → Step} {s : State} {step : Step} {n m thread : Nat} {pc : Pc} {batch rest : List Entry}
  {which : Posted} {item : Item}

/-! ## Steps -/

theorem State.push_pc (s : State) (item : Item) : (s.push item).pc = s.pc := by
  unfold State.push
  cases item.post <;> rfl

theorem State.push_unread (s : State) (item : Item) : (s.push item).unread = s.unread := by
  unfold State.push
  cases item.post <;> rfl

theorem State.push_posters (s : State) (item : Item) : (s.push item).posters = s.posters := by
  unfold State.push
  cases item.post <;> rfl

theorem State.push_list (s : State) (item : Item) (which : Posted) : which.list s <+: which.list (s.push item) := by
  unfold State.push
  cases item.post <;> cases which <;> first | exact List.prefix_rfl | exact List.prefix_append _ _

/-- Only the loop's thread and `epoll_wait` move the loop. -/
theorem exec_pc (other : step ≠ .advance) : (step.exec s).pc = s.pc ∨ s.pc = .waiting ∧ ∃ batch, (step.exec s).pc = .entries batch := by
  cases step with
  | push thread post =>
    left
    simp only [Step.exec]
    split
    · exact s.push_pc _
    · rfl
  | wakeup thread sent reported =>
    left
    simp only [Step.exec]
    split
    · rfl
    · split
      · rfl
      · split <;> rfl
  | epollWait batch =>
    simp only [Step.exec]
    split
    next waiting =>
      split
      · exact .inl rfl
      · exact .inr ⟨waiting, batch, rfl⟩
    next => exact .inl rfl
  | advance => exact absurd rfl other

/-- A list grows until it is swapped. -/
theorem exec_list (step : Step) (s : State) (which : Posted) :
    which.list s <+: which.list (step.exec s) ∨ step = .advance ∧ s.pc = which.swapped := by
  cases step with
  | push thread post =>
    left
    simp only [Step.exec]
    split
    · have grown := s.push_list ⟨s.next, thread, post⟩ which
      cases which <;> exact grown
    · exact List.prefix_rfl
  | wakeup thread sent reported =>
    left
    simp only [Step.exec]
    split
    · exact List.prefix_rfl
    · split
      · cases which <;> exact List.prefix_rfl
      · split <;> cases which <;> exact List.prefix_rfl
  | epollWait batch =>
    left
    simp only [Step.exec]
    split
    · split
      · exact List.prefix_rfl
      · cases which <;> exact List.prefix_rfl
    · exact List.prefix_rfl
  | advance =>
    simp only [Step.exec]
    cases pc : s.pc with
    | reading rest =>
      left
      simp only [State.advance, pc, State.readWakeupData]
      split <;> cases which <;> exact List.prefix_rfl
    | entries batch =>
      left
      cases batch with
      | nil => cases which <;> simp [State.advance, pc, Posted.list]
      | cons entry rest => cases entry <;> cases which <;> simp [State.advance, pc, Posted.list]
    | _ => cases which <;> simp [State.advance, pc, Posted.list, Posted.swapped]

/-- In `epoll_wait` nothing gets lost on the wakeup socket, and who has pushed is still to write or has written. -/
theorem exec_waiting (waiting : s.pc = .waiting) (step : Step) : (∃ batch, (step.exec s).pc = .entries batch) ∨
    (step.exec s).pc = .waiting ∧ s.unread ≤ (step.exec s).unread ∧
      ∀ thread item, s.posters thread = .pushed item → (step.exec s).posters thread = .pushed item ∨ 0 < (step.exec s).unread := by
  have stays : s.pc = .waiting ∧ s.unread ≤ s.unread ∧
      ∀ thread item, s.posters thread = .pushed item → s.posters thread = .pushed item ∨ 0 < s.unread :=
    ⟨waiting, Nat.le_refl _, fun _ _ pushed => .inl pushed⟩
  cases step with
  | push caller post =>
    right
    simp only [Step.exec]
    split
    next idle =>
      refine ⟨(s.push_pc _).trans waiting, Nat.le_of_eq (s.push_unread _).symm, fun thread item pushed => .inl ?_⟩
      have other : thread ≠ caller := by
        rintro rfl
        rw [idle] at pushed
        cases pushed
      show Function.update (s.push _).posters caller _ thread = _
      rw [Function.update_of_ne other, State.push_posters]
      exact pushed
    next => exact stays
  | wakeup caller sent reported =>
    right
    simp only [Step.exec]
    split
    · exact stays
    · split
      · exact ⟨waiting, Nat.le_succ _, fun _ _ _ => .inr (Nat.succ_pos _)⟩
      · split
        next bytes => exact ⟨waiting, Nat.le_refl _, fun _ _ _ => .inr bytes⟩
        next => exact stays
  | epollWait batch =>
    simp only [Step.exec, waiting]
    split
    · exact .inr stays
    · exact .inl ⟨batch, rfl⟩
  | advance =>
    right
    simp only [Step.exec, State.advance, waiting]
    exact ⟨trivial, stays.2⟩

theorem inv_stateAt (steps : Nat → Step) (n : Nat) : Inv (stateAt steps n) :=
  stateAt_inv (fun _ step inv => inv.exec step) .init n

/-- Somebody is about to write to the wakeup socket, or has written. -/
def Woken (s : State) : Prop := 0 < s.unread ∨ ∃ thread item, s.posters thread = .pushed item

/-- A loop that is to stop does not sleep on it. -/
def Stopping (s : State) : Prop := s.stop = true → s.pc = .waiting → Woken s

/-- Only `Stop` sets the flag, and its thread is then about to wake the loop up. -/
theorem exec_stop (step : Step) (s : State) : (step.exec s).stop = s.stop ∨
    (step.exec s).stop = true ∧ ∃ thread item, (step.exec s).posters thread = .pushed item := by
  cases step with
  | push thread post =>
    simp only [Step.exec]
    split
    · cases post with
      | stop => exact .inr ⟨rfl, thread, ⟨s.next, thread, .stop⟩, by simp [State.setPoster]⟩
      | _ => exact .inl rfl
    · exact .inl rfl
  | wakeup thread sent reported =>
    left
    simp only [Step.exec]
    split
    · rfl
    · split
      · rfl
      · split <;> rfl
  | epollWait batch =>
    left
    simp only [Step.exec]
    split
    · split <;> rfl
    · rfl
  | advance =>
    left
    simp only [Step.exec]
    unfold State.advance
    split <;> first | rfl | (unfold State.readWakeupData; split <;> rfl)

theorem stop_exec (stop : s.stop = true) (step : Step) : (step.exec s).stop = true := by
  rcases exec_stop step s with same | ⟨now, -⟩
  · exact same.trans stop
  · exact now

/-- The loop looks at the flag before it goes to sleep. -/
theorem advance_waiting (waiting : s.advance.pc = .waiting) : s.pc = .waiting ∨ s.advance.stop = false := by
  cases pc : s.pc with
  | waiting => exact .inl rfl
  | head =>
    right
    cases stop : s.stop with
    | false => simp [State.advance, pc, stop]
    | true => simp [State.advance, pc, stop] at waiting
  | entries batch =>
    cases batch with
    | nil => simp [State.advance, pc] at waiting
    | cons entry rest => cases entry <;> simp [State.advance, pc] at waiting
  | reading rest =>
    simp only [State.advance, pc, State.readWakeupData] at waiting
    split at waiting <;> cases waiting
  | _ => simp [State.advance, pc] at waiting

theorem Stopping.exec (stopping : Stopping s) (step : Step) : Stopping (step.exec s) := by
  intro stop waiting
  rcases exec_stop step s with same | ⟨-, pushed⟩
  · have before : s.stop = true := same.symm.trans stop
    have asleep : s.pc = .waiting := by
      by_cases now : step = .advance
      · subst now
        refine (advance_waiting waiting).resolve_right fun off => ?_
        rw [show (Step.advance.exec s).stop = s.advance.stop from rfl, off] at stop
        cases stop
      · rcases exec_pc (s := s) now with kept | ⟨asleep, -⟩
        · exact kept.symm.trans waiting
        · exact asleep
    rcases exec_waiting asleep step with ⟨batch, left⟩ | ⟨-, grown, kept⟩
    · rw [left] at waiting
      cases waiting
    · rcases stopping before asleep with bytes | ⟨thread, item, pushed⟩
      · exact .inl (Nat.lt_of_lt_of_le bytes grown)
      · rcases kept thread item pushed with still | bytes
        · exact .inr ⟨thread, item, still⟩
        · exact .inl bytes
  · exact .inr pushed

theorem stopping_stateAt (steps : Nat → Step) (n : Nat) : Stopping (stateAt steps n) :=
  stateAt_inv (fun _ step stopping => stopping.exec step) nofun n

theorem stop_stateAt (stop : (stateAt steps n).stop = true) (k : Nat) : (stateAt steps (n + k)).stop = true := by
  induction k with
  | zero => exact stop
  | succ k ih => exact stop_exec ih (steps (n + k))

/-! ## Phases of a round -/

namespace Fair

variable (fair : Fair steps)
include fair

/-- The loop's thread takes its next step where it stands. -/
theorem advances (awake : (stateAt steps n).pc ≠ .waiting) :
    Later (fun m => steps m = .advance ∧ (stateAt steps m).pc = (stateAt steps n).pc) n := by
  refine later_until (P := fun m => (stateAt steps m).pc = (stateAt steps n).pc) rfl (fun m _ there => ?_)
    ((fair.loop n).mono fun m _ taken there => ⟨taken, there⟩)
  by_cases now : steps m = .advance
  · exact .inl ⟨now, there⟩
  · rcases exec_pc (s := stateAt steps m) now with same | ⟨waiting, -⟩
    · exact .inr (.inl (same.trans there))
    · exact absurd (there.symm.trans waiting) awake

/-- From one place to the next. -/
theorem moves (next : Pc) (here : (stateAt steps n).pc = pc) (awake : pc ≠ .waiting)
    (goes : ∀ s : State, s.pc = pc → s.advance.pc = next) : Later (fun m => (stateAt steps m).pc = next) n := by
  refine (fair.advances (here ▸ awake)).trans fun m _ taken => ⟨m + 1, Nat.le_succ m, ?_⟩
  show ((steps m).exec (stateAt steps m)).pc = _
  rw [taken.1]
  exact goes _ (taken.2.trans here)

/-- `_ReadWakeupData` comes to its end. -/
theorem leaves_reading (here : (stateAt steps n).pc = .reading rest) :
    Later (fun m => (stateAt steps m).pc = .entries rest) n := by
  refine later_until (P := fun m => (stateAt steps m).pc = .reading rest) here (fun m _ there => .inr ?_)
    ((fair.reads n).mono fun m _ left there => ?_)
  · show ((steps m).exec (stateAt steps m)).pc = _ ∨ ((steps m).exec (stateAt steps m)).pc = _
    by_cases now : steps m = .advance
    · simp only [now, Step.exec, State.advance, there, State.readWakeupData]
      split
      · exact .inl rfl
      · exact .inr rfl
    · rcases exec_pc (s := stateAt steps m) now with same | ⟨waiting, -⟩
      · exact .inl (same.trans there)
      · rw [there] at waiting
        cases waiting
  · rw [there] at left
    cases left

/-- The entries of a batch are gone through. -/
theorem leaves_entries (here : (stateAt steps n).pc = .entries batch) :
    Later (fun m => (stateAt steps m).pc = .checkTimer) n := by
  induction batch generalizing n with
  | nil => exact fair.moves .checkTimer here nofun fun s is => by rw [State.advance, is]
  | cons entry rest ih =>
    cases entry with
    | socket =>
      have next := fair.moves (.entries rest) here nofun fun s is => by rw [State.advance, is]
      exact next.trans fun m _ there => ih there
    | wakeup =>
      have next := fair.moves (.reading rest) here nofun fun s is => by rw [State.advance, is]
      exact next.trans fun m _ there => (fair.leaves_reading there).trans fun m _ there => ih there

/-- The loop does not sleep for ever when it is woken. -/
theorem wakes (waiting : (stateAt steps n).pc = .waiting) (woken : Woken (stateAt steps n)) :
    Later (fun m => ∃ batch, (stateAt steps m).pc = .entries batch) n := by
  have written (k : Nat) (still : (stateAt steps k).pc = .waiting) (bytes : 0 < (stateAt steps k).unread) :
      Later (fun m => ∃ batch, (stateAt steps m).pc = .entries batch) k := by
    refine later_until (P := fun m => (stateAt steps m).pc = .waiting ∧ 0 < (stateAt steps m).unread) ⟨still, bytes⟩
      (fun m _ there => ?_) ?_
    · rcases exec_waiting there.1 (steps m) with left | ⟨still, grown, -⟩
      · exact .inr (.inr left)
      · exact .inr (.inl ⟨still, Nat.lt_of_lt_of_le there.2 grown⟩)
    · obtain ⟨m, least, taken⟩ := fair.returns k
      by_cases asleep : (stateAt steps m).pc = .waiting ∧ 0 < (stateAt steps m).unread
      · have ready := ((inv_stateAt steps m).nothingMissed asleep.1).woken asleep.2
        obtain ⟨batch, is⟩ := taken ⟨asleep.1, ready⟩
        refine ⟨m + 1, by omega, fun there => ?_⟩
        have left : (stateAt steps (m + 1)).pc = .entries batch := by
          show ((steps m).exec (stateAt steps m)).pc = _
          simp [is, Step.exec, asleep.1, ready, State.epollWait]
        exact ⟨batch, left⟩
      · exact ⟨m, least, fun there => absurd there asleep⟩
  rcases woken with bytes | ⟨thread, item, pushed⟩
  · exact written n waiting bytes
  · have wrote : Later (fun m => (∃ batch, (stateAt steps m).pc = .entries batch) ∨
        (stateAt steps m).pc = .waiting ∧ 0 < (stateAt steps m).unread) n := by
      refine later_until (P := fun m => (stateAt steps m).pc = .waiting ∧ (stateAt steps m).posters thread = .pushed item)
        ⟨waiting, pushed⟩ (fun m _ there => .inr ?_) ((fair.posts thread n).mono fun m _ idle there => ?_)
      · rcases exec_waiting there.1 (steps m) with left | ⟨still, -, kept⟩
        · exact .inr (.inl left)
        · rcases kept thread item there.2 with kept | bytes
          · exact .inl ⟨still, kept⟩
          · exact .inr (.inr ⟨still, bytes⟩)
      · rw [there.2] at idle
        cases idle
    refine wrote.trans fun m _ either => ?_
    rcases either with left | ⟨still, bytes⟩
    · exact ⟨m, Nat.le_refl m, left⟩
    · exact written m still bytes

/-- A batch leads to the swap. -/
theorem swaps_of_entries (here : (stateAt steps n).pc = .entries batch) (which : Posted) :
    Later (fun m => steps m = .advance ∧ (stateAt steps m).pc = which.swapped) n := by
  refine (fair.leaves_entries here).trans fun m _ there => ?_
  have checkLoop := fair.moves .checkLoop there nofun fun s is => by rw [State.advance, is]
  refine checkLoop.trans fun m _ there => ?_
  have taken : Later (fun k => steps k = .advance ∧ (stateAt steps k).pc = .checkLoop) m :=
    (fair.advances (by rw [there]; nofun)).mono fun k _ taken => ⟨taken.1, taken.2.trans there⟩
  cases which with
  | pkts | closes => exact taken
  | registers =>
    have regiter := fair.moves .regiterEventList there nofun fun s is => by rw [State.advance, is]
    exact regiter.trans fun m _ there =>
      (fair.advances (by rw [there]; nofun)).mono fun k _ taken => ⟨taken.1, taken.2.trans there⟩

/-- From anywhere the loop gets to `epoll_wait` or into a batch, if it does not end. -/
theorem comes_round (n : Nat) : Later (fun m => (stateAt steps m).pc = .exited ∨ (stateAt steps m).pc = .waiting ∨
    ∃ batch, (stateAt steps m).pc = .entries batch) n := by
  have of_head (n : Nat) (here : (stateAt steps n).pc = .head) :
      Later (fun m => (stateAt steps m).pc = .exited ∨ (stateAt steps m).pc = .waiting) n := by
    refine (fair.advances (by rw [here]; nofun)).trans fun m _ taken => ⟨m + 1, Nat.le_succ m, ?_⟩
    show ((steps m).exec (stateAt steps m)).pc = _ ∨ ((steps m).exec (stateAt steps m)).pc = _
    rw [taken.1]
    simp only [Step.exec, State.advance, taken.2.trans here]
    split
    · exact .inl rfl
    · exact .inr rfl
  have of_regiter (n : Nat) (here : (stateAt steps n).pc = .regiterEventList) :
      Later (fun m => (stateAt steps m).pc = .exited ∨ (stateAt steps m).pc = .waiting) n := by
    have head := fair.moves .head here nofun fun s is => by rw [State.advance, is]
    exact head.trans fun m _ there => of_head m there
  have of_checkLoop (n : Nat) (here : (stateAt steps n).pc = .checkLoop) :
      Later (fun m => (stateAt steps m).pc = .exited ∨ (stateAt steps m).pc = .waiting) n := by
    have regiter := fair.moves .regiterEventList here nofun fun s is => by rw [State.advance, is]
    exact regiter.trans fun m _ there => of_regiter m there
  have widen {n : Nat} (later : Later (fun m => (stateAt steps m).pc = .exited ∨ (stateAt steps m).pc = .waiting) n) :
      Later (fun m => (stateAt steps m).pc = .exited ∨ (stateAt steps m).pc = .waiting ∨
        ∃ batch, (stateAt steps m).pc = .entries batch) n :=
    later.mono fun m _ either => either.imp_right .inl
  cases here : (stateAt steps n).pc with
  | exited => exact ⟨n, Nat.le_refl n, .inl here⟩
  | waiting => exact ⟨n, Nat.le_refl n, .inr (.inl here)⟩
  | entries batch => exact ⟨n, Nat.le_refl n, .inr (.inr ⟨batch, here⟩)⟩
  | reading rest =>
    exact (fair.leaves_reading here).mono fun m _ there => .inr (.inr ⟨rest, there⟩)
  | head => exact widen (of_head n here)
  | regiterEventList => exact widen (of_regiter n here)
  | checkLoop => exact widen (of_checkLoop n here)
  | checkTimer =>
    have checkLoop := fair.moves .checkLoop here nofun fun s is => by rw [State.advance, is]
    exact widen (checkLoop.trans fun m _ there => of_checkLoop m there)

end Fair

/-! ## What is bound to happen -/

/-- A list is swapped with all that was in it before. -/
structure TakesUp (which : Posted) (steps : Nat → Step) (n m : Nat) : Prop where
  taken : steps m = .advance
  there : (stateAt steps m).pc = which.swapped
  all : which.list (stateAt steps n) <+: which.list (stateAt steps m)

/-- A list has grown, or it has been swapped. -/
theorem grown_or_swapped (which : Posted) (steps : Nat → Step) (n k : Nat) :
    which.list (stateAt steps n) <+: which.list (stateAt steps (n + k)) ∨ ∃ m, n ≤ m ∧ TakesUp which steps n m := by
  induction k with
  | zero => exact .inl List.prefix_rfl
  | succ k ih =>
    rcases ih with grown | before
    · rcases exec_list (steps (n + k)) (stateAt steps (n + k)) which with more | ⟨now, there⟩
      · exact .inl (grown.trans more)
      · exact .inr ⟨n + k, Nat.le_add_right n k, now, there, grown⟩
    · exact .inr before

theorem later_takesUp {k : Nat} (least : n ≤ k)
    (later : Later (fun m => steps m = .advance ∧ (stateAt steps m).pc = which.swapped) k) :
    Later (TakesUp which steps n) n := by
  obtain ⟨m, after, taken, there⟩ := later
  have both : n + (m - n) = m := by omega
  rcases grown_or_swapped which steps n (m - n) with grown | before
  · rw [both] at grown
    exact ⟨m, by omega, taken, there, grown⟩
  · exact before

/-- Work in a list that the loop sleeps on is announced. -/
theorem woken_of_member (waiting : (stateAt steps n).pc = .waiting) (member : item ∈ which.list (stateAt steps n)) :
    Woken (stateAt steps n) := by
  have nothingMissed := (inv_stateAt steps n).nothingMissed waiting
  by_cases bytes : 0 < (stateAt steps n).unread
  · exact .inl bytes
  · refine .inr ⟨item.thread, item, nothingMissed.quiet (by omega) item ?_⟩
    cases which <;> simp only [Posted.list] at member <;> simp [member]

/-- **What other threads post is taken up**, with all that was posted before, if the loop does not end. -/
theorem taken_up (fair : Fair steps) (which : Posted) (member : item ∈ which.list (stateAt steps n)) :
    Later (fun m => (stateAt steps m).pc = .exited ∨ TakesUp which steps n m) n := by
  obtain ⟨k, least, there⟩ := fair.comes_round n
  have of_entries {j : Nat} (after : n ≤ j) (inside : ∃ batch, (stateAt steps j).pc = .entries batch) :
      Later (fun m => (stateAt steps m).pc = .exited ∨ TakesUp which steps n m) n := by
    obtain ⟨batch, here⟩ := inside
    exact (later_takesUp after (fair.swaps_of_entries here which)).mono fun m _ takesUp => .inr takesUp
  rcases there with exited | waiting | inside
  · exact ⟨k, least, .inl exited⟩
  · have both : n + (k - n) = k := by omega
    rcases grown_or_swapped which steps n (k - n) with grown | ⟨m, after, takesUp⟩
    · rw [both] at grown
      obtain ⟨j, later, inside⟩ := fair.wakes waiting (woken_of_member waiting (grown.subset member))
      exact of_entries (Nat.le_trans least later) inside
    · exact ⟨m, after, .inr takesUp⟩
  · exact of_entries least inside

/-- **A loop that has been told to stop ends.** -/
theorem stops (fair : Fair steps) (stop : (stateAt steps n).stop = true) :
    Later (fun m => (stateAt steps m).pc = .exited) n := by
  have still {k : Nat} (least : n ≤ k) : (stateAt steps k).stop = true := by
    have later := stop_stateAt stop (k - n)
    rwa [Nat.add_sub_cancel' least] at later
  have of_entries {k : Nat} (least : n ≤ k) (inside : ∃ batch, (stateAt steps k).pc = .entries batch) :
      Later (fun m => (stateAt steps m).pc = .exited) k := by
    obtain ⟨batch, here⟩ := inside
    refine (fair.swaps_of_entries here .registers).trans fun m after taken => ?_
    have head : (stateAt steps (m + 1)).pc = .head := by
      show ((steps m).exec (stateAt steps m)).pc = _
      rw [taken.1]
      simp only [Step.exec, State.advance, taken.2, Posted.swapped]
    obtain ⟨j, later, now, there⟩ := fair.advances (n := m + 1) (by rw [head]; nofun)
    refine ⟨j + 1, by omega, ?_⟩
    show ((steps j).exec (stateAt steps j)).pc = _
    rw [now]
    simp only [Step.exec, State.advance, there.trans head, still (show n ≤ j by omega), if_true]
  obtain ⟨k, least, there⟩ := fair.comes_round n
  rcases there with exited | waiting | inside
  · exact ⟨k, least, exited⟩
  · have woken := stopping_stateAt steps k (still least) waiting
    obtain ⟨j, later, inside⟩ := fair.wakes waiting woken
    obtain ⟨m, after, exited⟩ := of_entries (Nat.le_trans least later) inside
    exact ⟨m, by omega, exited⟩
  · obtain ⟨m, after, exited⟩ := of_entries least inside
    exact ⟨m, by omega, exited⟩

/-! ## A schedule -/

/-- A thread posts a close and stops the loop, which takes a turn and ends. -/
def shutDown : Nat → Step
  | 0 => .advance
  | 1 => .push 0 (.closeHandle 1)
  | 2 => .wakeup 0 true false
  | 3 => .push 0 .stop
  | 4 => .wakeup 0 true false
  | 5 => .epollWait [.wakeup]
  | _ => .advance

theorem shutDown_exited (k : Nat) : stateAt shutDown (k + 14) = stateAt shutDown 14 := by
  induction k with
  | zero => rfl
  | succ k ih =>
    show (shutDown (k + 14)).exec (stateAt shutDown (k + 14)) = _
    rw [ih]
    rfl

theorem shutDown_fair : Fair shutDown := by
  have later {P : Nat → Prop} (n : Nat) (holds : ∀ k, P (k + 14)) : Later P n := ⟨n + 14, Nat.le_add_right n 14, holds n⟩
  refine ⟨fun n => later n fun _ => rfl, fun n => later n fun k possible => ?_, fun thread n => later n fun k => ?_,
    fun n => later n fun k => ?_⟩
  · have asleep : (stateAt shutDown (k + 14)).pc = .waiting := possible.1
    rw [shutDown_exited] at asleep
    cases asleep
  · show (stateAt shutDown (k + 14)).posters thread = _
    rw [shutDown_exited]
    cases thread <;> rfl
  · show (stateAt shutDown (k + 14)).pc.isReading = _
    rw [shutDown_exited]
    rfl

theorem taken_up_shutDown : Later (fun m => (stateAt shutDown m).pc = .exited ∨ TakesUp .closes shutDown 2 m) 2 := by
  have member : (⟨0, 0, .closeHandle 1⟩ : Item) ∈ Posted.closes.list (stateAt shutDown 2) := List.mem_cons_self
  exact taken_up shutDown_fair .closes member

theorem stops_shutDown : Later (fun m => (stateAt shutDown m).pc = .exited) 4 := stops shutDown_fair rfl

end Netter.Wakeup
