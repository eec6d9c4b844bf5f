import Netter.Lib.Wp
import Netter.Posting.Model

/-!
# What a step does

Each step of a thread or of the loop as a change of the state, under the one condition that it does
not use a deleted packet. The invariants are proved from these changes, and give the condition back.
-/

namespace Netter.Posting

open Lib

def State.setLife (s : State) (h : NetHandle) (life : Life) : State :=
  { s with conns := fun k => if k = h then life else s.conns k }

@[simp] theorem State.setLife_conns (s : State) (h : NetHandle) (life : Life) : (s.setLife h life).conns h = life :=
  if_pos rfl

theorem State.setLife_conns_ne (s : State) {h k : NetHandle} (life : Life) (other : k ≠ h) :
    (s.setLife h life).conns k = s.conns k := if_neg other

theorem State.registered_of_setLife {s : State} {h k : NetHandle} {life : Life} {conn : Conn}
    (is : (s.setLife h life).conns k = .registered conn) :
    k = h ∧ life = .registered conn ∨ k ≠ h ∧ s.conns k = .registered conn := by
  by_cases at_h : k = h
  · rw [at_h, State.setLife_conns] at is
    exact .inl ⟨at_h, is⟩
  · rw [State.setLife_conns_ne s life at_h] at is
    exact .inr ⟨at_h, is⟩

theorem State.setLife_known {s : State} {h k : NetHandle} {life : Life} (made : life ≠ .absent)
    (known : k = h ∨ s.conns k ≠ .absent) : (s.setLife h life).conns k ≠ .absent := by
  by_cases at_h : k = h
  · rw [at_h, State.setLife_conns]
    exact made
  · rw [State.setLife_conns_ne s life at_h]
    exact known.resolve_left at_h

theorem State.setLife_setLife (s : State) (h : NetHandle) (life last : Life) :
    (s.setLife h life).setLife h last = s.setLife h last := by
  have same : (fun k => if k = h then last else if k = h then life else s.conns k) =
      fun k => if k = h then last else s.conns k := by
    funext k
    split <;> rfl
  unfold State.setLife
  rw [same]

@[simp] theorem wp_setLife {s : State} {h : NetHandle} {life : Life} {Q : Unit → State → Prop}
    {E : Stop → State → Prop} : wp (Posting.setLife h life) Q E s ↔ Q ⟨⟩ (s.setLife h life) := Iff.rfl

/-- The packets that wait with the connection. -/
def Life.waiting : Life → List Pkt
  | .registered conn => conn.waitPktList
  | .closed conn => conn.waitPktList
  | _ => []

def State.note (s : State) (events : List Event) : State := { s with trace := s.trace ++ events }

def State.free (s : State) (pkts : List Pkt) : State := { s with freed := s.freed ++ pkts }

/-- What becomes of a packet whose turn has come. -/
inductive Processed (s : State) (pkt : Pkt) : State → Prop where
  | submitted (conn : Conn) (registered : s.conns pkt.handle = .registered conn) (isOpen : conn.isOpen = true) :
      Processed s pkt ((s.note [.processed pkt true, .submitted pkt]).free [pkt])
  | waits (conn : Conn) (registered : s.conns pkt.handle = .registered conn) (connecting : conn.isOpen = false) :
      Processed s pkt ((s.note [.processed pkt false]).setLife pkt.handle
        (.registered ⟨false, conn.waitPktList ++ [pkt]⟩))
  | dropped (gone : ∀ conn, s.conns pkt.handle ≠ .registered conn) : Processed s pkt (s.free [pkt])

/-- What a step does. -/
inductive Move (s : State) : State → Prop where
  | idle : Move s s
  | register (h : NetHandle) (isOpen : Bool) (absent : s.conns h = .absent) :
      Move s (s.setLife h (.registered ⟨isOpen, []⟩))
  /-- A call of another thread. -/
  | post (pkt : Pkt) (fresh : pkt.serial = s.next) (known : s.conns pkt.handle ≠ .absent)
      (other : pkt.thread ≠ .loop) :
      Move s { s.note [.posted pkt] with next := s.next + 1, pktList := s.pktList ++ [pkt] }
  /-- A call in the loop thread. -/
  | send (pkt : Pkt) (fresh : pkt.serial = s.next) (known : s.conns pkt.handle ≠ .absent)
      (inLoop : pkt.thread = .loop) (t : State)
      (processed : Processed { s.note [.posted pkt] with next := s.next + 1 } pkt t) : Move s t
  | swap (done : s.tmpPktList = []) : Move s { s with tmpPktList := s.pktList, pktList := [] }
  | next (pkt : Pkt) (rest : List Pkt) (first : s.tmpPktList = pkt :: rest) (t : State)
      (processed : Processed { s with tmpPktList := rest } pkt t) : Move s t
  | confirm (h : NetHandle) (conn : Conn) (registered : s.conns h = .registered conn) :
      Move s (((s.note (conn.waitPktList.map .submitted ++ [.confirmed h])).free conn.waitPktList).setLife h
        (.registered ⟨true, []⟩))
  | close (h : NetHandle) (conn : Conn) (registered : s.conns h = .registered conn) :
      Move s (s.setLife h (.closed { conn with isOpen := false }))
  | destroy (h : NetHandle) (conn : Conn) (closed : s.conns h = .closed conn) :
      Move s ((s.free conn.waitPktList).setLife h .destroyed)

theorem State.note_note (s : State) (events more : List Event) : (s.note events).note more = s.note (events ++ more) := by
  unfold State.note
  rw [List.append_assoc]

theorem State.setLife_note (s : State) (h : NetHandle) (life : Life) (events : List Event) :
    (s.setLife h life).note events = (s.note events).setLife h life := rfl

theorem State.setLife_free (s : State) (h : NetHandle) (life : Life) (pkts : List Pkt) :
    (s.setLife h life).free pkts = (s.free pkts).setLife h life := rfl

/-! ## Packets that are still there -/

/-- A call that uses and deletes a packet, with the events it leaves. -/
def Frees (op : Pkt → PostM Unit) (events : Pkt → List Event) : Prop :=
  ∀ (s : State) (pkt : Pkt), pkt ∉ s.freed → wp (op pkt) (fun _ t => t = (s.note (events pkt)).free [pkt]) Never s

theorem State.note_nil (s : State) : s.note [] = s := by
  unfold State.note
  rw [List.append_nil]

theorem deletePkt_frees : Frees deletePkt fun _ => [] := by
  intro s pkt live
  simp only [deletePkt, usePkt, wp_bind, wp_get, wp_ite, if_neg live, wp_pure, wp_modify]
  rw [State.note_nil]
  rfl

theorem submit_frees : Frees submit fun pkt => [.submitted pkt] := by
  intro s pkt live
  have deletes := deletePkt_frees (s.note [.submitted pkt]) pkt live
  rw [State.note_nil] at deletes
  simp only [submit, usePkt, record, wp_bind, wp_get, wp_ite, if_neg live, wp_pure, wp_modify]
  exact deletes

theorem State.note_free_note_free (s : State) (events more : List Event) (pkts rest : List Pkt) :
    (((s.note events).free pkts).note more).free rest = (s.note (events ++ more)).free (pkts ++ rest) := by
  unfold State.note State.free
  simp only [List.append_assoc]

theorem Frees.forM {op : Pkt → PostM Unit} {events : Pkt → List Event} (frees : Frees op events) {s : State}
    {pkts : List Pkt} (nodup : pkts.Nodup) (live : ∀ pkt ∈ pkts, pkt ∉ s.freed) :
    wp (pkts.forM op) (fun _ t => t = (s.note (pkts.flatMap events)).free pkts) Never s := by
  induction pkts generalizing s with
  | nil =>
    unfold State.note State.free
    simp only [List.flatMap_nil, List.append_nil]
    rfl
  | cons pkt pkts ih =>
    obtain ⟨new, nodup⟩ := List.nodup_cons.mp nodup
    rw [wp_forM_cons]
    refine (frees s pkt (live pkt List.mem_cons_self)).call fun _ t is => ?_
    have still : ∀ other ∈ pkts, other ∉ t.freed := by
      intro other member freed
      rw [is] at freed
      rcases List.mem_append.mp freed with before | now
      · exact live other (List.mem_cons_of_mem _ member) before
      · rw [List.mem_singleton.mp now] at member
        exact new member
    refine (ih nodup still).call fun _ u post => ?_
    rw [post, is, State.note_free_note_free, List.flatMap_cons, List.singleton_append]

/-- A packet's turn. -/
theorem process_spec {s : State} {pkt : Pkt} (live : pkt ∉ s.freed) :
    wp (noteTurn pkt >>= fun _ => process pkt) (fun _ t => Processed s pkt t) Never s := by
  have drops (gone : ∀ conn, s.conns pkt.handle ≠ .registered conn) :
      wp (deletePkt pkt) (fun _ t => Processed s pkt t) Never s := by
    refine (deletePkt_frees s pkt live).call fun _ t is => ?_
    rw [is, State.note_nil]
    exact .dropped gone
  unfold noteTurn process
  rw [wp_bind, wp_bind, wp_get]
  cases life : s.conns pkt.handle with
  | absent =>
    rw [wp_pure, wp_bind, wp_get, life]
    exact drops fun conn => by rw [life]; nofun
  | closed =>
    rw [wp_pure, wp_bind, wp_get, life]
    exact drops fun conn => by rw [life]; nofun
  | destroyed =>
    rw [wp_pure, wp_bind, wp_get, life]
    exact drops fun conn => by rw [life]; nofun
  | registered conn =>
    unfold record
    rw [wp_modify, wp_bind, wp_get]
    simp only [life]
    rw [wp_ite]
    split
    · next isOpen =>
      refine (submit_frees (s.note [.processed pkt conn.isOpen]) pkt live).call fun _ t is => ?_
      rw [is, isOpen, State.note_note]
      exact .submitted conn life isOpen
    · next connecting =>
      have connecting := Bool.eq_false_iff.mpr connecting
      rw [connecting]
      exact .waits conn life connecting

/-! ## Steps -/

/-- The packets that a step may use are still there. -/
structure Safe (s : State) : Prop where
  freed : ∀ pkt ∈ s.freed, pkt.serial < s.next
  tmp : ∀ pkt ∈ s.tmpPktList, pkt ∉ s.freed
  waiting : ∀ h, ∀ pkt ∈ (s.conns h).waiting, pkt ∉ s.freed
  nodup : ∀ h, (s.conns h).waiting.Nodup

theorem Safe.waits {s : State} {h : NetHandle} {pkts : List Pkt} (safe : Safe s)
    (waiting : (s.conns h).waiting = pkts) : pkts.Nodup ∧ ∀ pkt ∈ pkts, pkt ∉ s.freed := by
  subst waiting
  exact ⟨safe.nodup h, safe.waiting h⟩

theorem sendPkt_spec {s : State} {thread : Thread} {h : NetHandle} (safe : Safe s) (known : s.conns h ≠ .absent) :
    wp (sendPkt thread h) (fun _ t => Move s t) Never s := by
  unfold sendPkt record
  rw [wp_bind, wp_get, wp_bind, wp_modify, wp_bind, wp_modify]
  cases thread with
  | other number => exact .post ⟨s.next, h, .other number⟩ rfl known nofun
  | loop =>
    have live : (⟨s.next, h, .loop⟩ : Pkt) ∉ s.freed := fun freed => Nat.lt_irrefl _ (safe.freed _ freed)
    have processed := process_spec (s := { s.note [.posted ⟨s.next, h, .loop⟩] with next := s.next + 1 }) live
    exact processed.call fun _ t post => .send ⟨s.next, h, .loop⟩ rfl known rfl t post

theorem onConfirm_run {s : State} {h : NetHandle} {conn : Conn} (safe : Safe s)
    (registered : s.conns h = .registered conn) : wp (onConfirm h conn) (fun _ t => t =
      ((s.note (conn.waitPktList.map .submitted ++ [.confirmed h])).free conn.waitPktList).setLife h
        (.registered ⟨true, []⟩)) Never s := by
  have waiting : (s.conns h).waiting = conn.waitPktList := congrArg Life.waiting registered
  obtain ⟨nodup, live⟩ := safe.waits waiting
  have submits := submit_frees.forM (s := s.setLife h (.registered { conn with isOpen := true })) nodup live
  unfold onConfirm record
  rw [wp_bind, wp_setLife, wp_bind]
  refine submits.call fun _ t is => ?_
  rw [wp_bind, wp_setLife, wp_modify, is, State.setLife_note, State.setLife_free, State.setLife_setLife]
  have events : (conn.waitPktList.flatMap fun pkt => [Event.submitted pkt]) = conn.waitPktList.map .submitted :=
    List.flatMap_pure_eq_map _ _
  rw [← State.note_note, ← events]
  rfl

theorem destroy_run {s : State} {h : NetHandle} {conn : Conn} (safe : Safe s) (closed : s.conns h = .closed conn) :
    wp (destroy h conn) (fun _ t => t = (s.free conn.waitPktList).setLife h .destroyed) Never s := by
  have waiting : (s.conns h).waiting = conn.waitPktList := congrArg Life.waiting closed
  obtain ⟨nodup, live⟩ := safe.waits waiting
  unfold destroy
  rw [wp_bind]
  refine (deletePkt_frees.forM nodup live).call fun _ t is => ?_
  have events : (conn.waitPktList.flatMap fun _ => ([] : List Event)) = [] := List.flatMap_eq_nil_iff.mpr fun _ _ => rfl
  rw [wp_setLife, is, events, State.note_nil]

/-- What a step does when no packet in reach has been deleted. -/
theorem step_spec {s : State} (safe : Safe s) (step : Step) : wp step.exec (fun _ t => Move s t) Never s := by
  cases step with
  | register h isOpen =>
    unfold Step.exec
    rw [wp_bind, wp_get]
    cases life : s.conns h with
    | absent => exact .register h isOpen life
    | registered => exact .idle
    | closed => exact .idle
    | destroyed => exact .idle
  | sendPkt thread h =>
    unfold Step.exec
    rw [wp_bind, wp_get]
    cases life : s.conns h with
    | absent => exact .idle
    | registered => exact sendPkt_spec safe (by rw [life]; nofun)
    | closed => exact sendPkt_spec safe (by rw [life]; nofun)
    | destroyed => exact sendPkt_spec safe (by rw [life]; nofun)
  | swap =>
    unfold Step.exec
    rw [wp_bind, wp_get, wp_ite]
    split
    · next done => exact .swap done
    · exact .idle
  | processNext =>
    unfold Step.exec processNext
    rw [wp_bind, wp_get]
    cases first : s.tmpPktList with
    | nil => exact .idle
    | cons pkt rest =>
      have live : pkt ∉ s.freed := safe.tmp pkt (by rw [first]; exact List.mem_cons_self)
      exact (process_spec (s := { s with tmpPktList := rest }) live).call fun _ t post => .next pkt rest first t post
  | onConfirm h =>
    unfold Step.exec
    rw [wp_bind, wp_get]
    cases life : s.conns h with
    | registered conn => exact (onConfirm_run safe life).call fun _ t is => is ▸ .confirm h conn life
    | absent => exact .idle
    | closed => exact .idle
    | destroyed => exact .idle
  | close h =>
    unfold Step.exec
    rw [wp_bind, wp_get]
    cases life : s.conns h with
    | registered conn => exact .close h conn life
    | absent => exact .idle
    | closed => exact .idle
    | destroyed => exact .idle
  | destroy h =>
    unfold Step.exec
    rw [wp_bind, wp_get]
    cases life : s.conns h with
    | closed conn => exact (destroy_run safe life).call fun _ t is => is ▸ .destroy h conn life
    | absent => exact .idle
    | registered => exact .idle
    | destroyed => exact .idle

end Netter.Posting
