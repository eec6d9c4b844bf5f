import Mathlib.Data.List.Nodup
import Netter.Sockets.Model

/-!
# Sockets are conserved

Each step moves a socket from one place to the next. What it does to the number of places a socket is in is an
equation for each operation; the sums over the loops come from one lemma.
-/

namespace Netter.Sockets

open Lib
open Accept (LoopId getIoResource)

variable {s t : State} {n : Nat} {loop other : LoopId} {el : EventLoop} {event : RegisterEvent} {rest : List RegisterEvent}
  {handle : NetHandle} {b id : Nat}

/-! ## Counting -/

/-- A sum changes as its function does at one place. -/
theorem sum_map_change {ι : Type} {l : List ι} {a : ι} {f g : ι → Nat} (nodup : l.Nodup) (member : a ∈ l)
    (same : ∀ x, x ≠ a → g x = f x) : (l.map g).sum + f a = (l.map f).sum + g a := by
  induction l with
  | nil => cases member
  | cons x l ih =>
    obtain ⟨first, nodup⟩ := List.nodup_cons.mp nodup
    simp only [List.map_cons, List.sum_cons]
    rcases List.mem_cons.mp member with rfl | inside
    · have others : l.map g = l.map f := by
        apply List.map_congr_left
        intro y isThere
        apply same
        rintro rfl
        exact first isThere
      rw [others]
      omega
    · have apart : x ≠ a := by
        rintro rfl
        exact first inside
      have rest := ih nodup inside
      rw [same x apart]
      omega

theorem nodup_allLoops (n : Nat) : (allLoops n).Nodup := by
  refine List.nodup_cons.mpr ⟨by simp, ?_⟩
  refine List.nodup_range.map ?_
  intro i j same
  exact LoopId.io.inj same

theorem main_mem_allLoops (n : Nat) : .main ∈ allLoops n := List.mem_cons_self

theorem getIoResource_mem_allLoops (n : Nat) (handle : NetHandle) : getIoResource n handle ∈ allLoops n := by
  unfold getIoResource
  split
  next some =>
    apply List.mem_cons_of_mem
    exact List.mem_map_of_mem (List.mem_range.mpr (Nat.mod_lt _ some))
  next => exact main_mem_allLoops n

theorem places_setLoop (member : loop ∈ allLoops n) :
    (s.setLoop loop el).places n id + (s.loops loop).holds id = s.places n id + el.holds id := by
  have others (l : LoopId) (apart : l ≠ loop) : ((s.setLoop loop el).loops l).holds id = (s.loops l).holds id := by
    simp [State.setLoop, apart]
  have here : ((s.setLoop loop el).loops loop).holds id = el.holds id := by simp [State.setLoop]
  have changed := sum_map_change (nodup_allLoops n) member others
  rw [State.places, State.places, show (s.setLoop loop el).destroyed = s.destroyed from rfl]
  omega

/-- The loop holds the socket more often than before. -/
theorem places_of_more {k : Nat} (member : loop ∈ allLoops n) (more : el.holds id = (s.loops loop).holds id + k) :
    (s.setLoop loop el).places n id = s.places n id + k := by
  have moved : (s.setLoop loop el).places n id + (s.loops loop).holds id = s.places n id + el.holds id :=
    places_setLoop member
  omega

/-- The loop holds the socket less often than before. -/
theorem places_of_less {k : Nat} (member : loop ∈ allLoops n) (less : el.holds id + k = (s.loops loop).holds id) :
    (s.setLoop loop el).places n id + k = s.places n id := by
  have moved : (s.setLoop loop el).places n id + (s.loops loop).holds id = s.places n id + el.holds id :=
    places_setLoop member
  omega

theorem places_congr (holds : ∀ l, (t.loops l).holds id = (s.loops l).holds id)
    (destroyed : t.destroyed = s.destroyed) : t.places n id = s.places n id := by
  simp only [State.places, holds, destroyed]

theorem holds_setLoop (same : el.holds id = (s.loops loop).holds id) (l : LoopId) :
    ((s.setLoop loop el).loops l).holds id = (s.loops l).holds id := by
  by_cases here : l = loop
  · subst here
    simpa [State.setLoop] using same
  · simp [State.setLoop, here]

/-! ## What the operations do -/

theorem places_new : (s.new handle loop).places n id = s.places n id := rfl

theorem places_enter : (s.enter n b).places n id = s.places n id :=
  places_congr (holds_setLoop rfl) rfl

/-- An insertion registers the socket if its handle is free. -/
theorem places_insert (member : loop ∈ allLoops n) : (s.insert loop b).places n id =
    s.places n id + if s.taken loop (s.baseSockets b).handle = false ∧ b = id then 1 else 0 := by
  unfold State.insert
  by_cases isTaken : s.taken loop (s.baseSockets b).handle = true
  · simp [isTaken]
  · rw [if_neg isTaken]
    apply places_of_more member
    simp only [EventLoop.holds, List.countP_append, List.countP_singleton, beq_iff_eq, isTaken, true_and]
    omega

theorem places_postEvent (member : loop ∈ allLoops n) :
    (s.postEvent loop event).places n id = s.places n id + if event.baseSocket = id then 1 else 0 := by
  apply places_of_more member
  simp only [EventLoop.holds, List.countP_append, List.countP_singleton, beq_iff_eq]
  omega

theorem places_addEvent (member : loop ∈ allLoops n) : (s.addEvent n loop event).places n id =
    s.places n id + if s.taken loop (s.baseSockets event.baseSocket).handle = false ∧ event.baseSocket = id then 1 else 0 := by
  rw [← places_insert member]
  unfold State.addEvent
  split
  · exact places_enter
  · rfl

theorem places_swap (empty : (s.loops loop).eventList.isEmpty = true) : (s.setLoop loop
    { s.loops loop with registerEventList := [], eventList := (s.loops loop).registerEventList }).places n id =
      s.places n id := by
  refine places_congr (holds_setLoop ?_) rfl
  rw [List.isEmpty_iff] at empty
  simp [EventLoop.holds, empty]

/-- The first entry of the swapped list is taken out. -/
def State.pop (s : State) (loop : LoopId) (rest : List RegisterEvent) : State :=
  s.setLoop loop { s.loops loop with eventList := rest }

theorem places_pop (member : loop ∈ allLoops n) (head : (s.loops loop).eventList = event :: rest) :
    (s.pop loop rest).places n id + (if event.baseSocket = id then 1 else 0) = s.places n id := by
  apply places_of_less member
  simp only [EventLoop.holds, head, List.countP_cons, beq_iff_eq]
  omega

/-! ## What holds at all times -/

/-- The registrations of a loop that are pending. -/
def EventLoop.pending (el : EventLoop) : List RegisterEvent := el.registerEventList ++ el.eventList

structure Inv (n : Nat) (s : State) : Prop where
  fresh : ∀ id, s.made ≤ id → (∀ loop, (s.loops loop).holds id = 0) ∧ s.destroyed.count id = 0 ∧ id ∉ s.conns
  keys : ∀ loop, ((s.loops loop).socketMap.map (·.1)).Nodup
  mapped : ∀ loop, ∀ p ∈ (s.loops loop).socketMap,
    (s.baseSockets p.2).handle = p.1 ∧ (s.baseSockets p.2).eventLoop = loop
  pending : ∀ loop, ∀ e ∈ (s.loops loop).pending, (s.baseSockets e.baseSocket).eventLoop = loop
  known : ∀ id, (s.baseSockets id).eventLoop ∈ allLoops n

theorem Inv.init : Inv n .init := by
  constructor
  · exact fun id _ => ⟨fun loop => rfl, rfl, List.not_mem_nil⟩
  · exact fun loop => List.nodup_nil
  · exact fun loop p member => nomatch member
  · exact fun loop e member => nomatch member
  · exact fun id => main_mem_allLoops n

theorem holds_pos_of_mapped {p : NetHandle × Nat} (member : p ∈ el.socketMap) : 0 < el.holds p.2 := by
  have found : 0 < el.socketMap.countP (·.2 == p.2) := List.countP_pos_iff.mpr ⟨p, member, beq_self_eq_true _⟩
  unfold EventLoop.holds
  omega

theorem holds_pos_of_pending (member : event ∈ el.pending) : 0 < el.holds event.baseSocket := by
  unfold EventLoop.holds
  rcases List.mem_append.mp member with posted | swapped
  · have found : 0 < el.registerEventList.countP (·.baseSocket == event.baseSocket) :=
      List.countP_pos_iff.mpr ⟨event, posted, beq_self_eq_true _⟩
    omega
  · have found : 0 < el.eventList.countP (·.baseSocket == event.baseSocket) :=
      List.countP_pos_iff.mpr ⟨event, swapped, beq_self_eq_true _⟩
    omega

theorem Inv.lt_made (inv : Inv n s) (held : 0 < (s.loops loop).holds id) : id < s.made := by
  by_contra beyond
  have nowhere := (inv.fresh id (Nat.le_of_not_lt beyond)).1 loop
  omega

/-- A socket that has not been made is nowhere. -/
theorem Inv.places_eq_zero (inv : Inv n s) (beyond : s.made ≤ id) : s.places n id = 0 := by
  obtain ⟨nowhere, alive, -⟩ := inv.fresh id beyond
  have sum : ((allLoops n).map fun loop => (s.loops loop).holds id).sum = 0 := by simp [nowhere]
  rw [State.places, sum, alive]

theorem Inv.new (inv : Inv n s) (member : loop ∈ allLoops n) : Inv n (s.new handle loop) := by
  have old {l : LoopId} {id : Nat} (held : 0 < (s.loops l).holds id) : (s.new handle loop).baseSockets id = s.baseSockets id := by
    have earlier := inv.lt_made held
    exact Function.update_of_ne (Nat.ne_of_lt earlier) _ _
  constructor
  · exact fun id beyond => inv.fresh id (Nat.le_of_succ_le beyond)
  · exact inv.keys
  · intro l p isThere
    rw [old (holds_pos_of_mapped isThere)]
    exact inv.mapped l p isThere
  · intro l e isThere
    rw [old (holds_pos_of_pending isThere)]
    exact inv.pending l e isThere
  · intro id
    by_cases current : id = s.made
    · subst current
      simpa [State.new] using member
    · simpa [State.new, current] using inv.known id

/-- A step that changes one loop, given what holds for the new contents of that loop. -/
theorem Inv.setLoop (inv : Inv n s) (holds : ∀ id, s.made ≤ id → el.holds id = 0)
    (keys : (el.socketMap.map (·.1)).Nodup)
    (mapped : ∀ p ∈ el.socketMap, (s.baseSockets p.2).handle = p.1 ∧ (s.baseSockets p.2).eventLoop = loop)
    (pending : ∀ e ∈ el.pending, (s.baseSockets e.baseSocket).eventLoop = loop) : Inv n (s.setLoop loop el) := by
  have cases {P : LoopId → EventLoop → Prop} (here : P loop el) (elsewhere : ∀ l, P l (s.loops l)) (l : LoopId) :
      P l ((s.setLoop loop el).loops l) := by
    by_cases changed : l = loop
    · subst changed
      simpa [State.setLoop] using here
    · simpa [State.setLoop, changed] using elsewhere l
  constructor
  · intro id beyond
    obtain ⟨nowhere, alive, noConn⟩ := inv.fresh id beyond
    exact ⟨cases (P := fun _ el => el.holds id = 0) (holds id beyond) nowhere, alive, noConn⟩
  · exact cases (P := fun _ el => (el.socketMap.map (·.1)).Nodup) keys inv.keys
  · exact cases (P := fun l el => ∀ p ∈ el.socketMap,
      (s.baseSockets p.2).handle = p.1 ∧ (s.baseSockets p.2).eventLoop = l) mapped inv.mapped
  · exact cases (P := fun l el => ∀ e ∈ el.pending, (s.baseSockets e.baseSocket).eventLoop = l) pending inv.pending
  · exact inv.known

theorem Inv.setConnMap (inv : Inv n s) (loop : LoopId) (connMap : List NetHandle) :
    Inv n (s.setLoop loop { s.loops loop with connMap := connMap }) :=
  inv.setLoop (fun id beyond => (inv.fresh id beyond).1 loop) (inv.keys loop) (inv.mapped loop) (inv.pending loop)

theorem Inv.enter (inv : Inv n s) (made : b < s.made) : Inv n (s.enter n b) := by
  have entered := inv.setConnMap (getIoResource n (s.baseSockets b).handle)
    (if (s.baseSockets b).handle ∈ (s.loops (getIoResource n (s.baseSockets b).handle)).connMap then
      (s.loops (getIoResource n (s.baseSockets b).handle)).connMap
    else (s.loops (getIoResource n (s.baseSockets b).handle)).connMap ++ [(s.baseSockets b).handle])
  refine ⟨fun id beyond => ?_, entered.keys, entered.mapped, entered.pending, entered.known⟩
  obtain ⟨nowhere, alive, noConn⟩ := entered.fresh id beyond
  refine ⟨nowhere, alive, fun member => ?_⟩
  rcases List.mem_append.mp member with old | new
  · exact noConn old
  · rw [List.mem_singleton.mp new] at beyond
    exact Nat.not_lt_of_le beyond made

theorem not_taken_iff : s.taken loop handle = false ↔ handle ∉ (s.loops loop).socketMap.map (·.1) := by
  rw [State.taken, List.any_eq_false, List.mem_map]
  constructor
  · rintro free ⟨p, member, same⟩
    exact free p member (beq_iff_eq.mpr same)
  · intro absent p member same
    exact absent ⟨p, member, beq_iff_eq.mp same⟩

theorem made_insert : (s.insert loop b).made = s.made := by
  by_cases isTaken : s.taken loop (s.baseSockets b).handle = true <;> simp [State.insert, isTaken, State.setLoop]

theorem Inv.insert (inv : Inv n s) (made : b < s.made) (home : (s.baseSockets b).eventLoop = loop) :
    Inv n (s.insert loop b) := by
  unfold State.insert
  by_cases isTaken : s.taken loop (s.baseSockets b).handle = true
  · rw [if_pos isTaken]
    exact inv
  · rw [if_neg isTaken]
    apply inv.setLoop
    · intro id beyond
      have nowhere := (inv.fresh id beyond).1 loop
      have other : b ≠ id := by omega
      simp only [EventLoop.holds, List.countP_append, List.countP_singleton, beq_iff_eq, other, if_false] at nowhere ⊢
      omega
    · rw [List.map_append, List.map_singleton, List.nodup_append_comm, List.singleton_append, List.nodup_cons]
      exact ⟨not_taken_iff.mp (by simpa using isTaken), inv.keys loop⟩
    · intro p member
      rcases List.mem_append.mp member with old | new
      · exact inv.mapped loop p old
      · rw [List.mem_singleton.mp new]
        exact ⟨rfl, home⟩
    · exact inv.pending loop

theorem Inv.addEvent (inv : Inv n s) (made : event.baseSocket < s.made)
    (home : (s.baseSockets event.baseSocket).eventLoop = loop) : Inv n (s.addEvent n loop event) := by
  have inserted := inv.insert made home
  unfold State.addEvent
  split
  · exact inserted.enter (Nat.lt_of_lt_of_eq made made_insert.symm)
  · exact inserted

theorem Inv.postEvent (inv : Inv n s) (made : event.baseSocket < s.made)
    (home : (s.baseSockets event.baseSocket).eventLoop = loop) : Inv n (s.postEvent loop event) := by
  apply inv.setLoop
  · intro id beyond
    have nowhere := (inv.fresh id beyond).1 loop
    have other : event.baseSocket ≠ id := by omega
    simp only [EventLoop.holds, List.countP_append, List.countP_singleton, beq_iff_eq, other, if_false] at nowhere ⊢
    omega
  · exact inv.keys loop
  · exact inv.mapped loop
  · intro e member
    rw [EventLoop.pending, List.append_assoc, List.mem_append, List.mem_append, List.mem_singleton] at member
    rcases member with old | rfl | swapped
    · exact inv.pending loop e (List.mem_append_left _ old)
    · exact home
    · exact inv.pending loop e (List.mem_append_right _ swapped)

theorem Inv.swap (inv : Inv n s) : Inv n (s.setLoop loop
    { s.loops loop with registerEventList := [], eventList := (s.loops loop).registerEventList }) := by
  apply inv.setLoop
  · intro id beyond
    have nowhere := (inv.fresh id beyond).1 loop
    simp only [EventLoop.holds, List.countP_nil] at nowhere ⊢
    omega
  · exact inv.keys loop
  · exact inv.mapped loop
  · exact fun e member => inv.pending loop e (List.mem_append_left _ member)

theorem Inv.pop (inv : Inv n s) (head : (s.loops loop).eventList = event :: rest) :
    Inv n (s.pop loop rest) := by
  apply inv.setLoop
  · intro id beyond
    have nowhere := (inv.fresh id beyond).1 loop
    simp only [EventLoop.holds, head, List.countP_cons] at nowhere ⊢
    omega
  · exact inv.keys loop
  · exact inv.mapped loop
  · intro e member
    apply inv.pending loop e
    rw [EventLoop.pending, head]
    rcases List.mem_append.mp member with posted | swapped
    · exact List.mem_append_left _ posted
    · exact List.mem_append_right _ (List.mem_cons_of_mem event swapped)

/-! ## Closing -/

/-- What `Close` leaves in the loop of the socket. -/
def EventLoop.without (el : EventLoop) (handle : NetHandle) : EventLoop :=
  { el with socketMap := el.socketMap.filter (·.1 != handle) }

theorem holds_without_le : (el.without handle).holds id ≤ el.holds id := by
  have fewer : (el.without handle).socketMap.countP (·.2 == id) ≤ el.socketMap.countP (·.2 == id) :=
    List.filter_sublist.countP_le
  simp only [EventLoop.holds, EventLoop.without] at fewer ⊢
  omega

/-- The entry under the handle goes, and no other one. -/
theorem holds_without (keys : (el.socketMap.map (·.1)).Nodup) (member : (handle, b) ∈ el.socketMap) :
    (el.without handle).holds id + (if b = id then 1 else 0) = el.holds id := by
  obtain ⟨before, after, split⟩ := List.append_of_mem member
  rw [split, List.map_append, List.map_cons, List.nodup_append, List.nodup_cons] at keys
  obtain ⟨-, ⟨notAfter, -⟩, apart⟩ := keys
  have left : before.filter (·.1 != handle) = before := by
    rw [List.filter_eq_self]
    intro p isThere
    rw [bne_iff_ne]
    exact apart p.1 (List.mem_map_of_mem isThere) handle List.mem_cons_self
  have right : after.filter (·.1 != handle) = after := by
    rw [List.filter_eq_self]
    intro p isThere
    have inside : p.1 ∈ after.map (·.1) := List.mem_map_of_mem isThere
    rw [bne_iff_ne]
    intro same
    rw [same] at inside
    exact notAfter inside
  have kept : (el.without handle).socketMap = before ++ after := by
    rw [EventLoop.without, split, List.filter_append, List.filter_cons_of_neg (by simp), left, right]
  simp only [EventLoop.holds, kept, split, List.countP_append, List.countP_cons, beq_iff_eq]
  simp only [EventLoop.without]
  omega

/-- A socket that is not in the map stays out of it. -/
theorem holds_without_of_not_mapped (handle : NetHandle) (absent : el.socketMap.any (·.2 == b) = false) :
    (el.without handle).holds b = el.holds b := by
  have none : el.socketMap.countP (·.2 == b) = 0 := by
    rw [List.countP_eq_zero]
    simpa using absent
  have still : (el.without handle).socketMap.countP (·.2 == b) = 0 :=
    Nat.eq_zero_of_le_zero (none ▸ List.filter_sublist.countP_le)
  simp only [EventLoop.holds, none, still]
  rfl

/-- `BaseSocket::Close`. -/
def State.release (s : State) (b : Nat) : State :=
  { s.setLoop (s.baseSockets b).eventLoop
      ((s.loops (s.baseSockets b).eventLoop).without (s.baseSockets b).handle) with
    conns := s.conns.filter (· != b)
    destroyed := s.destroyed ++ [b] }

/-- `BaseConn::Close` takes the connection out of `conn_map` and then closes the socket. -/
theorem close_eq : s.close n b = (s.setLoop (getIoResource n (s.baseSockets b).handle)
    { s.loops (getIoResource n (s.baseSockets b).handle) with
      connMap := (s.loops (getIoResource n (s.baseSockets b).handle)).connMap.filter
        (· != (s.baseSockets b).handle) }).release b := rfl

theorem places_release : (s.release b).places n id =
    (s.setLoop (s.baseSockets b).eventLoop
      ((s.loops (s.baseSockets b).eventLoop).without (s.baseSockets b).handle)).places n id + if b = id then 1 else 0 := by
  simp only [State.places, State.release, List.count_append, List.count_singleton, beq_iff_eq]
  exact (Nat.add_assoc _ _ _).symm

/-- A registered socket moves from its map into the grave. -/
theorem Inv.places_release_of_registered (inv : Inv n s) (registered : s.registered b = true) :
    (s.release b).places n id = s.places n id := by
  obtain ⟨⟨handle, b'⟩, member, same⟩ := List.any_eq_true.mp registered
  obtain rfl : b' = b := by simpa using same
  obtain ⟨isHandle, -⟩ := inv.mapped _ _ member
  have handle_eq : (s.baseSockets b').handle = handle := isHandle
  rw [places_release, handle_eq]
  apply places_of_less (inv.known b')
  exact holds_without (inv.keys _) member

/-- A socket that is not registered yet is in the grave and where it was. -/
theorem Inv.places_release_of_not (inv : Inv n s) (absent : s.registered b = false) :
    (s.release b).places n b = s.places n b + 1 := by
  have same := places_of_more (k := 0) (inv.known b) (holds_without_of_not_mapped (s.baseSockets b).handle absent)
  rw [places_release, same, if_pos rfl]

theorem Inv.release (inv : Inv n s) (made : b < s.made) : Inv n (s.release b) := by
  have removed : Inv n (s.setLoop (s.baseSockets b).eventLoop
      ((s.loops (s.baseSockets b).eventLoop).without (s.baseSockets b).handle)) := by
    apply inv.setLoop
    · intro id beyond
      have nowhere := (inv.fresh id beyond).1 (s.baseSockets b).eventLoop
      exact Nat.eq_zero_of_le_zero (nowhere ▸ holds_without_le)
    · exact (inv.keys _).sublist (List.filter_sublist.map _)
    · exact fun p member => inv.mapped _ p (List.mem_of_mem_filter member)
    · exact inv.pending _
  refine ⟨fun id beyond => ?_, removed.keys, removed.mapped, removed.pending, removed.known⟩
  obtain ⟨nowhere, alive, noConn⟩ := removed.fresh id beyond
  refine ⟨nowhere, ?_, fun member => noConn (List.mem_of_mem_filter member)⟩
  have later : b ≠ id := Nat.ne_of_lt (Nat.lt_of_lt_of_le made beyond)
  have alive' : s.destroyed.count id = 0 := alive
  simp [State.release, List.count_append, alive', later]

theorem Inv.conn_made (inv : Inv n s) (isConn : b ∈ s.conns) : b < s.made := by
  by_contra beyond
  exact (inv.fresh b (Nat.le_of_not_lt beyond)).2.2 isConn

theorem Inv.close (inv : Inv n s) (isConn : b ∈ s.conns) : Inv n (s.close n b) := by
  rw [close_eq]
  exact (inv.setConnMap _ _).release (inv.conn_made isConn)

theorem registered_setConnMap (loop : LoopId) (connMap : List NetHandle) :
    (s.setLoop loop { s.loops loop with connMap := connMap }).registered b = s.registered b := by
  by_cases here : (s.baseSockets b).eventLoop = loop
  · subst here
    simp [State.registered, State.setLoop]
  · simp [State.registered, State.setLoop, here]

theorem Inv.places_close_of_registered (inv : Inv n s) (registered : s.registered b = true) :
    (s.close n b).places n id = s.places n id := by
  rw [close_eq, (inv.setConnMap _ _).places_release_of_registered]
  · exact places_congr (holds_setLoop rfl) rfl
  · rw [registered_setConnMap]
    exact registered

theorem Inv.places_close_of_not (inv : Inv n s) (absent : s.registered b = false) :
    (s.close n b).places n b = s.places n b + 1 := by
  rw [close_eq, (inv.setConnMap _ _).places_release_of_not]
  · exact congrArg (· + 1) (places_congr (holds_setLoop rfl) rfl)
  · rw [registered_setConnMap]
    exact absent

/-! ## A step -/

theorem made_addEvent : (s.addEvent n loop event).made = s.made := by
  unfold State.addEvent
  split <;> exact made_insert

/-- A new socket is conserved if and only if it is put in one place. -/
theorem Inv.conserved_new_iff {k : Nat} (inv : Inv n s) (conserved : s.Conserved n) (made : t.made = s.made + 1)
    (places : ∀ id, t.places n id = s.places n id + if s.made = id then k else 0) : t.Conserved n ↔ k = 1 := by
  have nowhere := inv.places_eq_zero (Nat.le_refl s.made)
  constructor
  · intro all
    have one := all s.made (by omega)
    rw [places, nowhere, if_pos rfl] at one
    omega
  · rintro rfl id bound
    rw [places]
    by_cases new : s.made = id
    · subst new
      rw [nowhere, if_pos rfl]
    · rw [if_neg new]
      exact conserved id (by omega)

/-- The new socket is added to its loop in the loop thread. -/
theorem places_addEvent_new {connectCb : Bool} (member : loop ∈ allLoops n) :
    ((s.new handle loop).addEvent n loop ⟨s.made, connectCb⟩).places n id =
      s.places n id + if s.made = id then if s.taken loop handle = false then 1 else 0 else 0 := by
  have same : ((s.new handle loop).baseSockets s.made).handle = handle := by simp [State.new]
  rw [places_addEvent member, same, places_new, show (s.new handle loop).taken loop handle = s.taken loop handle from rfl]
  congr 1
  by_cases free : s.taken loop handle = false <;> simp [free]

/-- The new socket is given to its loop by another thread. -/
theorem places_postEvent_new {connectCb : Bool} (member : loop ∈ allLoops n) :
    ((s.new handle loop).postEvent loop ⟨s.made, connectCb⟩).places n id =
      s.places n id + if s.made = id then 1 else 0 := by
  rw [places_postEvent member, places_new]

theorem Inv.addEvent_new {connectCb : Bool} (inv : Inv n s) (member : loop ∈ allLoops n) :
    Inv n ((s.new handle loop).addEvent n loop ⟨s.made, connectCb⟩) := by
  apply (inv.new member).addEvent
  · exact Nat.lt_succ_self s.made
  · simp [State.new]

theorem Inv.postEvent_new {connectCb : Bool} (inv : Inv n s) (member : loop ∈ allLoops n) :
    Inv n ((s.new handle loop).postEvent loop ⟨s.made, connectCb⟩) := by
  apply (inv.new member).postEvent
  · exact Nat.lt_succ_self s.made
  · simp [State.new]

theorem Inv.exec (inv : Inv n s) (step : Step) : Inv n (step.exec n s) := by
  cases step with
  | startListen inLoopThread handle calls =>
    simp only [Step.exec]
    split
    · split
      · exact inv.addEvent_new (main_mem_allLoops n)
      · exact inv.postEvent_new (main_mem_allLoops n)
    · exact inv.new (main_mem_allLoops n)
  | connect inLoopThread handle calls =>
    have member := getIoResource_mem_allLoops n handle
    simp only [Step.exec]
    split
    · split
      · apply (inv.addEvent_new member).enter
        rw [made_addEvent]
        exact Nat.lt_succ_self s.made
      · exact (inv.postEvent_new member).enter (Nat.lt_succ_self _)
    · exact inv.new member
  | accept handle =>
    have member := getIoResource_mem_allLoops n handle
    simp only [Step.exec]
    split
    · exact inv.addEvent_new member
    · exact inv.postEvent_new member
  | swap loop =>
    simp only [Step.exec]
    split
    · exact inv.swap
    · exact inv
  | register loop =>
    simp only [Step.exec]
    split
    · exact inv
    next event rest head =>
      have inside : event ∈ (s.loops loop).pending := by simp [EventLoop.pending, head]
      exact (inv.pop head).addEvent (inv.lt_made (holds_pos_of_pending inside)) (inv.pending loop event inside)
  | close b =>
    simp only [Step.exec]
    split
    next isConn => exact inv.close isConn
    next => exact inv

/-- The socket of an attempt that fails is nowhere. -/
theorem Inv.not_conserved_new (inv : Inv n s) (conserved : s.Conserved n) : ¬ (s.new handle loop).Conserved n := by
  rw [inv.conserved_new_iff (k := 0) conserved rfl fun id => by simp [places_new]]
  exact Nat.zero_ne_one

/-- The new socket is given to its loop, in the loop thread (`c`) or by another thread. -/
theorem Inv.conserved_given_iff {c : Prop} [Decidable c] {connectCb : Bool} (inv : Inv n s) (conserved : s.Conserved n)
    (member : loop ∈ allLoops n) :
    (if c then (s.new handle loop).addEvent n loop ⟨s.made, connectCb⟩
      else (s.new handle loop).postEvent loop ⟨s.made, connectCb⟩).Conserved n ↔ (c → s.taken loop handle = false) := by
  by_cases direct : c
  · rw [if_pos direct, inv.conserved_new_iff conserved made_addEvent fun id => places_addEvent_new member]
    simp [direct]
  · rw [if_neg direct, inv.conserved_new_iff conserved rfl fun id => places_postEvent_new member]
    simp [direct]

/-- An attempt conserves the sockets if it does not fail and does so then. -/
theorem Inv.conserved_attempt_iff {succeeds : Bool} {t : State} {P : Prop} (inv : Inv n s) (conserved : s.Conserved n)
    (given : t.Conserved n ↔ P) :
    (if succeeds then t else s.new handle loop).Conserved n ↔ succeeds = true ∧ P := by
  cases succeeds with
  | false =>
    rw [if_neg Bool.false_ne_true]
    exact iff_of_false (inv.not_conserved_new conserved) fun keeps => Bool.false_ne_true keeps.1
  | true =>
    rw [if_pos rfl, given]
    exact (and_iff_right rfl).symm

theorem conserved_enter : (s.enter n b).Conserved n ↔ s.Conserved n := by
  simp only [State.Conserved, places_enter]
  rfl

/-- A pending registration moves the socket into the map if its handle is free there. -/
theorem Inv.conserved_register_iff (inv : Inv n s) (conserved : s.Conserved n)
    (head : (s.loops loop).eventList = event :: rest) :
    ((s.pop loop rest).addEvent n loop event).Conserved n ↔
      s.taken loop (s.baseSockets event.baseSocket).handle = false := by
  have inside : event ∈ (s.loops loop).pending := by simp [EventLoop.pending, head]
  have member : loop ∈ allLoops n := inv.pending loop event inside ▸ inv.known event.baseSocket
  have bound : event.baseSocket < s.made := inv.lt_made (holds_pos_of_pending inside)
  have popped (id : Nat) : (s.pop loop rest).places n id + (if event.baseSocket = id then 1 else 0) = s.places n id :=
    places_pop member head
  have same : (s.pop loop rest).taken loop (s.baseSockets event.baseSocket).handle =
      s.taken loop (s.baseSockets event.baseSocket).handle := by
    simp [State.taken, State.pop, State.setLoop]
  have added (id : Nat) : ((s.pop loop rest).addEvent n loop event).places n id = (s.pop loop rest).places n id +
      if s.taken loop (s.baseSockets event.baseSocket).handle = false ∧ event.baseSocket = id then 1 else 0 := by
    rw [places_addEvent member, ← same]
    rfl
  constructor
  · intro all
    have one := all event.baseSocket (by rw [made_addEvent]; exact bound)
    have once := conserved event.baseSocket bound
    have before := popped event.baseSocket
    rw [if_pos rfl] at before
    rw [added] at one
    by_contra isTaken
    rw [if_neg fun both => isTaken both.1] at one
    omega
  · intro free id isMade
    rw [made_addEvent] at isMade
    have once := conserved id (show id < s.made from isMade)
    have before := popped id
    rw [added]
    simp only [free, true_and]
    omega

/-- A step conserves the sockets if and only if it meets the condition. -/
theorem Inv.exec_conserved_iff (inv : Inv n s) (conserved : s.Conserved n) (step : Step) :
    (step.exec n s).Conserved n ↔ step.Keeps n s := by
  cases step with
  | startListen inLoopThread handle calls =>
    simp only [Step.exec, Step.Keeps]
    apply inv.conserved_attempt_iff conserved
    exact inv.conserved_given_iff conserved (main_mem_allLoops n)
  | connect inLoopThread handle calls =>
    simp only [Step.exec, Step.Keeps]
    apply inv.conserved_attempt_iff conserved
    rw [conserved_enter]
    exact inv.conserved_given_iff conserved (getIoResource_mem_allLoops n handle)
  | accept handle =>
    simp only [Step.exec, Step.Keeps]
    rw [inv.conserved_given_iff conserved (getIoResource_mem_allLoops n handle)]
    refine forall_congr' fun isMain => ?_
    rw [isMain]
  | swap loop =>
    simp only [Step.exec, Step.Keeps, iff_true]
    split
    next empty => exact fun id bound => (places_swap empty).trans (conserved id bound)
    next => exact conserved
  | register loop =>
    simp only [Step.exec, Step.Keeps]
    split
    next empty => simp [empty, conserved]
    next event rest head =>
      rw [← State.pop, inv.conserved_register_iff conserved head]
      simp [head]
  | close b =>
    simp only [Step.exec, Step.Keeps]
    split
    next isConn =>
      constructor
      · intro all _
        by_contra absent
        have twice := all b (inv.conn_made isConn)
        rw [inv.places_close_of_not (by simpa using absent)] at twice
        have once := conserved b (inv.conn_made isConn)
        omega
      · intro registered id bound
        rw [inv.places_close_of_registered (registered isConn)]
        exact conserved id bound
    next noConn =>
      refine ⟨fun _ isConn => absurd isConn noConn, fun _ => conserved⟩

/-- A failed attempt leaves every loop as it was. -/
theorem loops_of_fails {step : Step} (fails : step.fails = true) : (step.exec n s).loops = s.loops := by
  cases step with
  | startListen inLoopThread handle calls =>
    have failed : calls.succeeds = false := by simpa [Step.fails] using fails
    simp only [Step.exec, failed, Bool.false_eq_true, if_false]
    rfl
  | connect inLoopThread handle calls =>
    have failed : calls.succeeds = false := by simpa [Step.fails] using fails
    simp only [Step.exec, failed, Bool.false_eq_true, if_false]
    rfl
  | accept | swap | register | close => cases fails

/-- **No socket is leaked** if and only if no attempt fails, no connection is closed before its socket is registered
and no handle is taken; a failed attempt changes no map and no list. -/
theorem conserved_iff (n : Nat) (steps : List Step) :
    ((∀ js, js <+: steps → (run (Step.exec n) .init js).Conserved n) ↔
      Along (Step.exec n) (fun s step => step.Keeps n s) .init steps) ∧
    ∀ (s : State) (step : Step), step.fails = true → (step.exec n s).loops = s.loops := by
  refine ⟨?_, fun s step fails => loops_of_fails fails⟩
  apply run_prefixes_iff (I := Inv n) (P := fun s => s.Conserved n)
  · exact fun s step inv => inv.exec step
  · exact fun s step inv conserved => inv.exec_conserved_iff conserved step
  · exact Inv.init
  · exact fun id bound => nomatch bound

/-- A `Connect` to a host that refuses: its socket is nowhere. -/
theorem not_conserved : ¬ (run (Step.exec 4) .init [.connect true 1 ⟨true, false⟩]).Conserved 4 := by
  intro conserved
  have one := conserved 0 (by decide)
  exact absurd one (by decide)

end Netter.Sockets
