import Netter.Lib.Walk
import Netter.Lib.Run
import Netter.Handle

/-!
# The sweep over the connections of a loop

Once a second `EventLoop::OnTimer` gives each connection in `socket_map_` the tick. The next iterator is saved
before the callback, as the connection may be closed in it. The callback may also close the connection that the
saved iterator refers to, and it may open new ones, for which the map may have to rehash.
-/

namespace Netter.Sweep

open Lib

/-- A `BaseSocket` of the map; no two of them are made at the same address. -/
structure Entry where
  address : Nat
  handle : NetHandle
  /-- `m_state` is `SOCKET_STATE_LISTENING`. -/
  listening : Bool
  deriving DecidableEq

/-- `socket_map_`, in the order in which its iterators go; addresses from `made` on have not been used. -/
structure SocketMap where
  entries : List Entry
  made : Nat
  handles : (entries.map (·.handle)).Nodup
  addresses : (entries.map (·.address)).Nodup
  fresh : ∀ e ∈ entries, e.address < made

namespace SocketMap

variable (m : SocketMap)

def find (h : NetHandle) : Option Entry := m.entries.find? (·.handle == h)

def erase (h : NetHandle) : SocketMap where
  entries := m.entries.filter (·.handle != h)
  made := m.made
  handles := m.handles.sublist (List.filter_sublist.map _)
  addresses := m.addresses.sublist (List.filter_sublist.map _)
  fresh e member := m.fresh e (List.mem_of_mem_filter member)

theorem insert_perm (entry : Entry) (entries : List Entry) (slot : Nat) :
    (entries.take slot ++ entry :: entries.drop slot).Perm (entry :: entries) := by
  have middle : (entries.take slot ++ entry :: entries.drop slot).Perm
      (entry :: (entries.take slot ++ entries.drop slot)) := List.perm_middle
  rwa [List.take_append_drop] at middle

/-- A new connection at some place in the order. -/
def insert (h : NetHandle) (slot : Nat) (absent : m.find h = none) : SocketMap where
  entries := m.entries.take slot ++ ⟨m.made, h, false⟩ :: m.entries.drop slot
  made := m.made + 1
  handles := by
    rw [((insert_perm _ m.entries slot).map _).nodup_iff, List.map_cons, List.nodup_cons]
    refine ⟨fun member => ?_, m.handles⟩
    obtain ⟨e, inside, same⟩ := List.mem_map.mp member
    exact List.find?_eq_none.mp absent e inside (beq_iff_eq.mpr same)
  addresses := by
    rw [((insert_perm _ m.entries slot).map _).nodup_iff, List.map_cons, List.nodup_cons]
    refine ⟨fun member => ?_, m.addresses⟩
    obtain ⟨e, inside, same⟩ := List.mem_map.mp member
    exact Nat.ne_of_lt (m.fresh e inside) same
  fresh := by
    intro e member
    rcases List.mem_cons.mp ((insert_perm _ m.entries slot).mem_iff.mp member) with rfl | old
    · exact Nat.lt_succ_self _
    · exact Nat.lt_succ_of_lt (m.fresh e old)

end SocketMap

structure State where
  socketMap : SocketMap
  /-- How many elements the buckets have room for before the map rehashes. -/
  room : Nat
  /-- `it`, which has been moved on when a callback runs. -/
  it : Iter
  calling : Bool
  /-- The map at the start of the sweep. -/
  start : List Entry
  trace : List WalkEvent

/-- `OnTimer` at the head of its loop. -/
def State.begin (m : SocketMap) (room : Nat) : State :=
  ⟨m, room, .first (·.address) m.entries, false, m.entries, []⟩

namespace State

variable (s : State)

/-- The entries from the saved iterator on. -/
def ahead : List Entry := s.it.ahead (·.address) s.socketMap.entries

/-- A connection is closed by its handle, which takes it out of the map. -/
def close (h : NetHandle) : State :=
  match s.socketMap.find h with
  | some entry =>
    if entry.listening then s
    else
      { s with
        socketMap := s.socketMap.erase h
        it := if s.it = .to entry.address then .lost else s.it
        trace := s.trace ++ [.erased entry.address] }
  | none => s

/-- `AddEvent` for a new connection; an insertion for which there is no room rehashes, and no iterator is good any
more. The order after a rehash is not that of before: nothing is said about a sweep from there on. -/
def connect (h : NetHandle) (slot grown : Nat) : State :=
  match absent : s.socketMap.find h with
  | some _ => s
  | none =>
    { s with
      socketMap := s.socketMap.insert h slot absent
      room := if s.socketMap.entries.length < s.room then s.room else grown
      it := if s.socketMap.entries.length < s.room then s.it else .lost }

/-- A turn of the loop, up to the callback of `BaseSocket::OnTimer`, which a listening socket does not get; with a
lost iterator there is no saying what it does. -/
def turn : State :=
  match s.it with
  | .lost => s
  | .atEnd => { s with calling := false }
  | .to _ =>
    match s.ahead with
    | [] => s
    | entry :: rest =>
      if entry.listening then { s with it := .first (·.address) rest, calling := false }
      else
        { s with
          it := .first (·.address) rest
          calling := true
          trace := s.trace ++ [.called entry.address] }

end State

/-- `next` is a turn of the loop: a callback that was running has returned. -/
inductive Step where
  | close (handle : NetHandle)
  | connect (handle : NetHandle) (slot grown : Nat)
  | next

/-- Only a callback closes and opens connections. -/
def State.step (s : State) : Step → State
  | .close h => if s.calling then s.close h else s
  | .connect h slot grown => if s.calling then s.connect h slot grown else s
  | .next => s.turn

/-- The walk of the sweep over the map. -/
def State.walk (s : State) : Walk Entry := ⟨s.socketMap.entries, s.it, s.socketMap.made, s.trace⟩

/-- Every socket but the listening ones gets the tick. -/
def Entry.ticks (e : Entry) : Bool := !e.listening

/-- What is promised of the sweep: the saved iterator is good, and a connection that was there at the start and has
not been closed has got the tick once, unless its turn is still to come. -/
def State.Safe (s : State) : Prop := s.walk.Swept (·.address) Entry.ticks s.start

/-- The callback closes another connection than the next one, and it opens one only if the map has room for it. -/
def Step.Spares (s : State) : Step → Prop
  | .close h => s.calling = true → ∀ entry, s.ahead.head? = some entry → entry.listening = false → entry.handle ≠ h
  | .connect h _ _ => s.calling = true → s.socketMap.find h = none → s.socketMap.entries.length < s.room
  | .next => True

/-! ## The order of the map -/

variable {m : SocketMap} {s t : State} {entry e : Entry} {h : NetHandle} {slot grown : Nat}

def State.Inv (s : State) : Prop := s.walk.Sound (·.address) Entry.ticks s.start

theorem State.Inv.safe_iff (inv : s.Inv) : s.Safe ↔ s.it ≠ .lost := inv.swept_iff

theorem State.Inv.begin (m : SocketMap) (room : Nat) : (State.begin m room).Inv := .init m.addresses m.fresh

theorem handle_of_find (found : m.find h = some entry) : entry ∈ m.entries ∧ entry.handle = h :=
  ⟨List.mem_of_find?_eq_some found, by simpa using List.find?_some found⟩

/-- The entry that `find` returns is the only one with the handle. -/
theorem eq_of_handle (found : m.find h = some entry) (member : e ∈ m.entries) (same : e.handle = h) : e = entry := by
  obtain ⟨here, is⟩ := handle_of_find found
  exact List.inj_on_of_nodup_map m.handles member here (same.trans is.symm)

/-! ## The steps -/

theorem State.Inv.close (inv : s.Inv) : (s.close h).Inv := by
  unfold State.close
  split
  next entry found =>
    split
    · exact inv
    · obtain ⟨here, handle⟩ := handle_of_find found
      have only (x : Entry) (member : x ∈ s.socketMap.entries) : (x.handle != h) = false ↔ x.address = entry.address := by
        rw [bne_eq_false_iff_eq]
        constructor
        · exact fun same => congrArg _ (eq_of_handle found member same)
        · intro same
          rw [List.inj_on_of_nodup_map s.socketMap.addresses member here same]
          exact handle
      exact Walk.Sound.erase inv (·.handle != h) entry.address (s.socketMap.fresh entry here) only
  next => exact inv

theorem State.Inv.connect (inv : s.Inv) : (s.connect h slot grown).Inv := by
  unfold State.connect
  split
  next => exact inv
  next absent =>
    have inserted := Walk.Sound.insert inv (a := ⟨s.socketMap.made, h, false⟩)
      (List.take_append_drop slot s.socketMap.entries).symm rfl
    unfold State.Inv State.walk
    by_cases fits : s.socketMap.entries.length < s.room
    · rw [if_pos fits, if_pos fits]
      exact inserted
    · rw [if_neg fits, if_neg fits]
      exact .inl rfl

/-- What a turn of the loop does. -/
inductive Turn (s : State) : State → Prop where
  | lost (isLost : s.it = .lost) : Turn s s
  | ended (atEnd : s.it = .atEnd) : Turn s { s with calling := false }
  | passes {entry : Entry} {rest : List Entry} (ahead : s.ahead = entry :: rest) (listens : entry.listening = true) :
      Turn s { s with it := .first (·.address) rest, calling := false }
  | ticks {entry : Entry} {rest : List Entry} (ahead : s.ahead = entry :: rest) (isConn : entry.listening = false) :
      Turn s
        { s with
          it := .first (·.address) rest
          calling := true
          trace := s.trace ++ [.called entry.address] }

theorem State.Inv.turn_cases (inv : s.Inv) : Turn s s.turn := by
  unfold State.turn
  split
  next isLost => exact .lost isLost
  next atEnd => exact .ended atEnd
  next isTo =>
    split
    next nothing => exact absurd nothing (inv.ahead_ne_nil isTo)
    next entry rest ahead =>
      split
      next listens => exact .passes ahead listens
      next isConn => exact .ticks ahead (by simpa using isConn)

theorem State.Inv.turn (inv : s.Inv) : s.turn.Inv := by
  have turned := inv.turn_cases
  generalize s.turn = t at turned ⊢
  cases turned with
  | lost => exact inv
  | ended => exact inv
  | passes ahead listens => exact Walk.Sound.pass inv ahead (by simp [Entry.ticks, listens])
  | ticks ahead isConn =>
    have called := Walk.Sound.call inv ahead id (fun _ _ => rfl) fun _ _ _ => rfl
    rw [List.map_id] at called
    exact called

theorem State.Inv.step (inv : s.Inv) (step : Step) : (s.step step).Inv := by
  cases step with
  | close h =>
    simp only [State.step]
    split
    · exact inv.close
    · exact inv
  | connect h slot grown =>
    simp only [State.step]
    split
    · exact inv.connect
    · exact inv
  | next => exact inv.turn

/-! ## What takes the iterator away -/

theorem State.Inv.close_safe_iff (inv : s.Inv) (valid : s.it ≠ .lost) : (s.close h).it ≠ .lost ↔
    ∀ entry, s.ahead.head? = some entry → entry.listening = false → entry.handle ≠ h := by
  unfold State.close
  split
  next entry found =>
    obtain ⟨here, handle⟩ := handle_of_find found
    split
    next listens =>
      refine ⟨fun _ next isNext isConn same => ?_, fun _ => valid⟩
      rw [eq_of_handle found (mem_of_mem_ahead (List.mem_of_head? isNext)) same, listens] at isConn
      cases isConn
    next isConn =>
      have isNext : s.it = .to entry.address ↔ s.ahead.head? = some entry :=
        inv.it_eq_iff valid s.socketMap.addresses here
      constructor
      · intro kept next coming _ same
        obtain rfl : next = entry := eq_of_handle found (mem_of_mem_ahead (List.mem_of_head? coming)) same
        exact kept (if_pos (isNext.mpr coming))
      · intro spares
        have other : s.it ≠ .to entry.address := fun isTo =>
          spares entry (isNext.mp isTo) (by simpa using isConn) handle
        rw [if_neg other]
        exact valid
  next missing =>
    refine ⟨fun _ next isNext _ same => ?_, fun _ => valid⟩
    have inside : next ∈ s.socketMap.entries := mem_of_mem_ahead (List.mem_of_head? isNext)
    exact List.find?_eq_none.mp missing next inside (beq_iff_eq.mpr same)

theorem State.connect_valid_iff (valid : s.it ≠ .lost) : (s.connect h slot grown).it ≠ .lost ↔
    (s.socketMap.find h = none → s.socketMap.entries.length < s.room) := by
  unfold State.connect
  split
  next found => simp [found, valid]
  next absent =>
    by_cases fits : s.socketMap.entries.length < s.room
    · simp [fits, valid]
    · simp [fits, absent]

/-- A step keeps what is promised if and only if it spares the iterator. -/
theorem State.Inv.step_safe_iff (inv : s.Inv) (safe : s.Safe) (step : Step) : (s.step step).Safe ↔ step.Spares s := by
  have valid := inv.safe_iff.mp safe
  rw [(inv.step step).safe_iff]
  cases step with
  | close h =>
    simp only [State.step, Step.Spares]
    split
    next calling => rw [inv.close_safe_iff valid, forall_prop_of_true calling]
    next quiet => exact ⟨fun _ calling => absurd calling quiet, fun _ => valid⟩
  | connect h slot grown =>
    simp only [State.step, Step.Spares]
    split
    next calling => rw [State.connect_valid_iff valid, forall_prop_of_true calling]
    next quiet => exact ⟨fun _ calling => absurd calling quiet, fun _ => valid⟩
  | next =>
    refine ⟨fun _ => trivial, fun _ => ?_⟩
    have turned := inv.turn_cases
    show s.turn.it ≠ .lost
    generalize s.turn = t at turned ⊢
    cases turned with
    | lost => exact valid
    | ended => exact valid
    | passes => exact Iter.first_ne_lost _
    | ticks => exact Iter.first_ne_lost _

/-- **The sweep is safe** if and only if no callback closes the connection that comes next or makes the map rehash. -/
theorem sweep_safe_iff (m : SocketMap) (room : Nat) (steps : List Step) :
    (∀ js, js <+: steps → (run State.step (.begin m room) js).Safe) ↔
      Along State.step (fun s step => step.Spares s) (.begin m room) steps := by
  have begins := State.Inv.begin m room
  apply run_prefixes_iff (I := State.Inv)
  · exact fun s step inv => inv.step step
  · exact fun s step inv safe => inv.step_safe_iff safe step
  · exact begins
  · exact begins.safe_iff.mpr (Iter.first_ne_lost m.entries)

/-- Two connections, and the callback of the first one closes the second one. -/
def pair : SocketMap where
  entries := [⟨0, 7, false⟩, ⟨1, 8, false⟩]
  made := 2
  handles := by decide
  addresses := by decide
  fresh := by decide

theorem not_sweep_safe : ¬ (run State.step (.begin pair 13) [.next, .close 8]).Safe := by
  intro safe
  exact safe.valid rfl

end Netter.Sweep
