/-!
# A source that is watched edge-triggered

Items come in at one end and calls take them at the other. An event is reported once for what has come in: it is
only certain that there is another one if a call has found nothing left before something came in again.
-/

namespace Lib

structure Source (α : Type) where
  queue : List α
  /-- The other side has closed: there is an end behind the queue. -/
  fin : Bool
  isOpen : Bool
  /-- The last call has found nothing, and nothing has come in since. -/
  drained : Bool
  /-- An event is going to be reported. -/
  edge : Bool

namespace Source

variable {α : Type} (s : Source α)

/-- The source when it is put under watch: what is there already is reported. -/
def watch (queue : List α) : Source α := ⟨queue, false, true, queue.isEmpty, !queue.isEmpty⟩

/-- `extra`: there is an event that would not have been certain. -/
def arrive (items : List α) (extra : Bool) : Source α :=
  { s with queue := s.queue ++ items, drained := false, edge := s.edge || s.drained || extra }

def finish (extra : Bool) : Source α :=
  { s with fin := true, drained := false, edge := s.edge || s.drained || extra }

/-- The event is reported. -/
def report : Source α := { s with edge := false }

def take (n : Nat) : Source α := { s with queue := s.queue.drop n }

/-- A call finds nothing. -/
def block : Source α := { s with drained := true }

def shut : Source α := { s with isOpen := false }

/-- Something is there to be taken. -/
def Waiting : Prop := s.isOpen = true ∧ (s.queue ≠ [] ∨ s.fin = true)

/-- A drained source has nothing. -/
def Quiet : Prop := s.drained = true → s.queue = [] ∧ s.fin = false

/-- The source is drained, or there is an event for it. -/
def Armed : Prop := s.isOpen = true → s.drained = true ∨ s.edge = true

variable {s} {queue items : List α} {extra : Bool} {n : Nat}

theorem Armed.edge_of_waiting (armed : s.Armed) (quiet : s.Quiet) (waiting : s.Waiting) : s.edge = true := by
  obtain ⟨isOpen, there⟩ := waiting
  rcases armed isOpen with drained | edge
  · obtain ⟨empty, noFin⟩ := quiet drained
    rcases there with some | fin
    · exact absurd empty some
    · rw [noFin] at fin
      cases fin
  · exact edge

theorem Quiet.watch : (watch queue).Quiet := by
  intro drained
  exact ⟨List.isEmpty_iff.mp drained, rfl⟩

theorem Armed.watch : (watch queue).Armed := by
  intro _
  cases queue with
  | nil => exact .inl rfl
  | cons => exact .inr rfl

theorem Quiet.of_not_drained (busy : s.drained = false) : s.Quiet := by
  intro drained
  rw [busy] at drained
  cases drained

theorem Armed.arrive (armed : s.Armed) : (s.arrive items extra).Armed := by
  intro isOpen
  right
  rcases armed isOpen with drained | edge <;> simp [Source.arrive, *]

theorem Armed.finish (armed : s.Armed) : (s.finish extra).Armed := by
  intro isOpen
  right
  rcases armed isOpen with drained | edge <;> simp [Source.finish, *]

theorem Quiet.take (quiet : s.Quiet) : (s.take n).Quiet := by
  intro drained
  obtain ⟨empty, noFin⟩ := quiet drained
  exact ⟨by simp [Source.take, empty], noFin⟩

theorem Quiet.block (empty : s.queue = []) (noFin : s.fin = false) : s.block.Quiet := fun _ => ⟨empty, noFin⟩

theorem Armed.block : s.block.Armed := fun _ => .inl rfl

theorem Armed.shut : s.shut.Armed := fun isOpen => nomatch isOpen

end Source

end Lib
