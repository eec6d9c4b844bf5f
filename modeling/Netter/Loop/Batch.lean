import Netter.Loop.Lifetime

/-!
# A batch of events

`epoll_wait` returns entries that point to sockets, and `Start` handles them one after the other. A
callback run for an entry may close the connection of a later one, whose socket is then deleted
before its entry is handled. The comment in the `kqueue` version of `Start` is about this case:
there an entry holds a handle, which is looked up again. Here the loop is sound exactly as long as
no connection is closed while an entry of its socket is still to be handled.
-/

namespace Netter.Loop

open Lib

/-- `epoll_wait` gives at most one entry for each socket of the loop. -/
def Returned (w : World) (entries : List Ready) : Prop :=
  (entries.map Ready.handle).Nodup ∧ ∀ ready ∈ entries, (w.slot ready.handle).inSocketMap = true

instance (w : World) (entries : List Ready) : Decidable (Returned w entries) :=
  inferInstanceAs (Decidable (_ ∧ _))

/-- The record that goes with the next entry of the batch. -/
def World.nextEntry (w : World) (h : NetHandle) : World :=
  { w with pending := w.pending.tail, dispatched := w.dispatched ++ [(h, (w.slot h).inSocketMap)] }

/-- A round of the `for` loop of `Start`. -/
def handleEntry (ready : Ready) : LoopM Unit := do
  modify (·.nextEntry ready.handle)
  dispatch ready

def batch (entries : List Ready) : LoopM Unit := do
  if Returned (← get) entries then
    modify fun w => { w with pending := entries.map Ready.handle }
    entries.forM handleEntry

/-- What `Start` does: batches, and between them timers, posted work and registrations. -/
inductive Pass where
  | batch (entries : List Ready)
  | step (step : Step)

def Pass.exec : Pass → LoopM Unit
  | .batch entries => Loop.batch entries
  | .step next => next.exec

def runPasses (passes : List Pass) : LoopM Unit := passes.forM Pass.exec

/-- The run gets to its end without a use of a deleted object. -/
def completes (passes : List Pass) : Bool :=
  match (runPasses passes).run World.init with
  | .ok _ _ => true
  | .error _ _ => false

/-- The state in which the run ends, or is ended by undefined behaviour. -/
def endOf (passes : List Pass) : World :=
  match (runPasses passes).run World.init with
  | .ok _ w => w
  | .error _ w => w

/-- Every entry is handled while its socket is registered. -/
def Sound (passes : List Pass) : Prop :=
  completes passes = true ∧ ∀ entry ∈ (endOf passes).dispatched, entry.2 = true

instance (passes : List Pass) : Decidable (Sound passes) := inferInstanceAs (Decidable (_ ∧ _))

/-- No connection is closed while an entry of its socket is still to be handled. -/
def NoCrossing (passes : List Pass) : Prop := (endOf passes).crossings = []

/-! ## The invariant through a batch -/

variable {w : World}

/-- The entry that comes next, as long as its socket is registered. -/
theorem Inv.nextEntry {h : NetHandle} {entries : List NetHandle} (inv : Inv quiet (h :: entries) [] w)
    (mapped : (w.slot h).inSocketMap = true) : Inv quiet entries [] (w.nextEntry h) := by
  constructor
  · exact inv.fit
  · unfold World.nextEntry
    rw [inv.pending, List.tail_cons]
  · exact fun k member => inv.used k (List.mem_cons_of_mem _ member)
  · have crossings := inv.crossings
    rw [List.forall_mem_cons] at crossings
    exact crossings.trans (and_iff_right mapped)
  · intro entry member
    rcases List.mem_append.mp member with before | last
    · exact inv.dispatched entry before
    · rw [List.mem_singleton.mp last]
      exact mapped
  · exact inv.known

/-- An entry whose socket has left the map points to a deleted object. -/
theorem Inv.stale {h : NetHandle} {entries : List NetHandle} (inv : Inv quiet entries [] w) (member : h ∈ entries)
    (unmapped : (w.slot h).inSocketMap ≠ true) : (w.slot h).socket = .freed := by
  have closed := (inv.used h member).resolve_left unmapped
  have fit : Fit h 0 0 0 (w.slot h) := inv.fit h
  revert closed
  generalize w.slot h = s at fit
  intro closed
  cases fit with
  | fresh => cases closed
  | listener => cases closed
  | up => cases closed
  | down => rfl

theorem wp_dispatch_freed {ready : Ready} {Q : Unit → World → Prop} {E : Stop → World → Prop}
    (freed : (w.slot ready.handle).socket = .freed) : wp (dispatch ready) Q E w ↔ E .undefined w := by
  simp only [dispatch, atSlot, socketAddRef, derefSocket, wp_bind, wp_zoom, wp_get, freed, Cell.get,
    wp_ofExcept_error, World.setSlot_self]

theorem entries_inv (entries : List Ready) (inv : Inv quiet (entries.map Ready.handle) [] w) :
    wp (entries.forM handleEntry) (fun _ => Inv quiet [] []) (fun _ w => w.crossings ≠ []) w := by
  induction entries generalizing w with
  | nil => exact inv
  | cons ready entries ih =>
    rw [wp_forM_cons]
    by_cases mapped : (w.slot ready.handle).inSocketMap = true
    · have next : Inv quiet (entries.map Ready.handle) [] (w.nextEntry ready.handle) := inv.nextEntry mapped
      have dispatched : wp (handleEntry ready) (fun _ => Inv quiet (entries.map Ready.handle) []) Never w :=
        dispatch_inv ready mapped next
      exact dispatched.call fun _ w inv => ih inv
    · have freed : ((w.nextEntry ready.handle).slot ready.handle).socket = .freed :=
        inv.stale List.mem_cons_self mapped
      unfold handleEntry
      rw [wp_bind, wp_modify, wp_dispatch_freed freed]
      intro none
      exact mapped (inv.crossings.mp none _ List.mem_cons_self)

theorem batch_inv (entries : List Ready) (inv : Inv quiet [] [] w) :
    wp (batch entries) (fun _ => Inv quiet [] []) (fun _ w => w.crossings ≠ []) w := by
  unfold batch
  rw [wp_bind, wp_get, wp_ite]
  split
  · next returned =>
    have mapped : ∀ k ∈ entries.map Ready.handle, (w.slot k).inSocketMap = true := by
      intro k member
      obtain ⟨ready, listed, rfl⟩ := List.mem_map.mp member
      exact returned.2 ready listed
    have none : w.crossings = [] := inv.crossings.mpr nofun
    rw [wp_bind, wp_modify]
    apply entries_inv
    exact ⟨inv.fit, rfl, fun k member => .inl (mapped k member), iff_of_true none mapped, inv.dispatched, inv.known⟩
  · exact inv

theorem runPasses_inv (passes : List Pass) :
    wp (runPasses passes) (fun _ => Inv quiet [] []) (fun _ w => w.crossings ≠ []) World.init := by
  refine wp_forM (fun pass _ w inv => ?_) World.init_inv
  cases pass with
  | batch entries => exact batch_inv entries inv
  | step next => exact (step_inv next inv).call fun _ _ inv => inv

/-- **Dispatch.** A run of `Start` handles only entries of registered sockets if and only if none of its
callbacks closes a connection whose entry is still to come. -/
theorem sound_iff (passes : List Pass) : Sound passes ↔ NoCrossing passes := by
  have ends := runPasses_inv passes
  unfold wp at ends
  unfold Sound NoCrossing completes endOf
  cases run : (runPasses passes).run World.init with
  | ok _ w =>
    rw [run] at ends
    exact iff_of_true ⟨rfl, ends.dispatched⟩ (ends.crossings.mpr nofun)
  | error _ w =>
    rw [run] at ends
    exact iff_of_false (fun sound => Bool.false_ne_true sound.1) ends

/-- Two connections that become writable in one batch; the first callback closes the other connection. -/
def staleBatch : List Pass :=
  [.step (.connect 1), .step (.connect 2),
    .batch [⟨1, none, some ⟨false, false, false, [.closeHandle 2]⟩, none⟩,
      ⟨2, none, some ⟨false, false, false, []⟩, none⟩]]

theorem stale_entry : ¬ Sound staleBatch ∧ (endOf staleBatch).dispatched = [(1, true), (2, false)] := by
  decide

end Netter.Loop
