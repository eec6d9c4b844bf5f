import Netter.Posting.Owned

/-!
# Packets keep their order

For a thread and a handle, the packets that are submitted, those that wait with the connection, those
in the hand of the running call and those in the two lists make up the packets the thread has posted
to the handle, in that order, as long as the connection is registered. Afterwards the submitted ones
are still a prefix.
-/

namespace Netter.Posting

open Lib

/-- The packets a thread posts to a handle. -/
def mine (thread : Thread) (h : NetHandle) (pkt : Pkt) : Bool := pkt.thread = thread && pkt.handle = h

structure Lined (hand : List Pkt) (s : State) : Prop where
  /-- The loop thread does not use the lists. -/
  foreign : ∀ pkt ∈ s.tmpPktList ++ s.pktList, pkt.thread ≠ .loop
  /-- Nothing waits with an open connection. -/
  openEmpty : ∀ h conn, s.conns h = .registered conn → conn.isOpen = true → conn.waitPktList = []
  known : ∀ pkt ∈ s.posted, s.conns pkt.handle ≠ .absent
  started : ∀ thread h, s.submitted.filter (mine thread h) <+: s.posted.filter (mine thread h)
  inLine : ∀ thread h conn, s.conns h = .registered conn →
    (s.submitted ++ conn.waitPktList ++ hand ++ s.tmpPktList ++ s.pktList).filter (mine thread h) =
      s.posted.filter (mine thread h)

variable {s t : State} {hand : List Pkt} {pkt : Pkt} {thread : Thread} {h k : NetHandle}

theorem mine_ne (other : pkt.handle ≠ h) : mine thread h pkt = false := by
  simp [mine, other]

theorem filter_mine_ne {pkts : List Pkt} (own : ∀ pkt ∈ pkts, pkt.handle = h) (other : k ≠ h) :
    pkts.filter (mine thread k) = [] := by
  refine List.filter_eq_nil_iff.mpr fun pkt member => ?_
  rw [mine_ne (own pkt member ▸ other.symm)]
  exact Bool.false_ne_true

/-- What happens to the packets of one handle: first come those that are submitted, then those that wait
afterwards. -/
theorem Lined.settle {life : Life} {freed : List Pkt} {events : List Event} (submits rest : List Pkt)
    (lined : Lined hand s) (own : ∀ pkt ∈ hand ++ (s.conns h).waiting, pkt.handle = h)
    (quiet : events.filterMap postedPkt = []) (submitted : events.filterMap submittedPkt = submits)
    (before : ∀ conn, s.conns h = .registered conn → conn.waitPktList ++ hand = submits ++ rest)
    (gone : (∀ conn, s.conns h ≠ .registered conn) → submits = [])
    (after : ∀ conn, life = .registered conn →
      (∃ old, s.conns h = .registered old) ∧ conn.waitPktList = rest ∧ (conn.isOpen = true → rest = []))
    (made : life ≠ .absent) : Lined [] (((s.note events).free freed).setLife h life) := by
  have posted : (((s.note events).free freed).setLife h life).posted = s.posted := by
    rw [State.settle_posted, quiet, List.append_nil]
  have submits_eq : (((s.note events).free freed).setLife h life).submitted = s.submitted ++ submits := by
    rw [State.settle_submitted, submitted]
  have here : ∀ pkt ∈ submits, pkt.handle = h := by
    intro pkt member
    by_cases registered : ∃ conn, s.conns h = .registered conn
    · obtain ⟨conn, is⟩ := registered
      have inside : pkt ∈ conn.waitPktList ++ hand := by
        rw [before conn is]
        exact List.mem_append_left rest member
      rw [is] at own
      exact own pkt (List.mem_append.mpr (List.mem_append.mp inside).symm)
    · rw [gone fun conn is => registered ⟨conn, is⟩] at member
      cases member
  have line (thread : Thread) (old : Conn) (is : s.conns h = .registered old) :
      (s.submitted ++ submits ++ rest ++ s.tmpPktList ++ s.pktList).filter (mine thread h) =
        s.posted.filter (mine thread h) := by
    have before := before old is
    rw [← lined.inLine thread h old is, List.append_assoc s.submitted submits, ← before, ← List.append_assoc]
  constructor
  · exact lined.foreign
  · intro k conn is isOpen
    rcases State.registered_of_setLife is with ⟨_, new⟩ | ⟨_, old⟩
    · obtain ⟨_, waits, empty⟩ := after conn new
      rw [waits, empty isOpen]
    · exact lined.openEmpty k conn old isOpen
  · intro pkt member
    rw [posted] at member
    exact State.setLife_known made (.inr (lined.known pkt member))
  · intro thread k
    rw [posted, submits_eq]
    by_cases at_h : k = h
    · by_cases registered : ∃ conn, s.conns h = .registered conn
      · obtain ⟨conn, is⟩ := registered
        rw [at_h, ← line thread conn is, List.append_assoc, List.append_assoc]
        exact (List.prefix_append _ _).filter _
      · rw [gone fun conn is => registered ⟨conn, is⟩, List.append_nil]
        exact lined.started thread k
    · rw [List.filter_append, filter_mine_ne here at_h, List.append_nil]
      exact lined.started thread k
  · intro thread k conn is
    rw [posted, submits_eq]
    rcases State.registered_of_setLife is with ⟨at_h, new⟩ | ⟨at_h, is⟩
    · obtain ⟨⟨old, was⟩, waits, _⟩ := after conn new
      rw [at_h, waits, List.append_nil]
      exact line thread old was
    · have old := lined.inLine thread k conn is
      have inHand : hand.filter (mine thread k) = [] :=
        filter_mine_ne (fun pkt member => own pkt (List.mem_append_left _ member)) at_h
      simp only [List.filter_append, inHand, List.append_nil] at old
      simp only [List.filter_append, filter_mine_ne here at_h, List.append_nil]
      exact old

theorem Lined.processed (lined : Lined [pkt] s) (owned : Owned [pkt] s) (processed : Processed s pkt t) :
    Lined [] t := by
  have own : ∀ p ∈ [pkt] ++ (s.conns pkt.handle).waiting, p.handle = pkt.handle := by
    intro p member
    rcases List.mem_append.mp member with inHand | waits
    · rw [List.mem_singleton.mp inHand]
    · exact owned.home pkt.handle p waits
  cases processed with
  | submitted conn registered isOpen =>
    have empty := lined.openEmpty pkt.handle conn registered isOpen
    rw [← State.setLife_self ((s.note _).free [pkt]) pkt.handle]
    refine lined.settle [pkt] [] own rfl rfl ?_ ?_ ?_ ?_
    · intro old is
      rw [registered] at is
      cases is
      rw [empty]
      rfl
    · exact fun gone => absurd registered (gone conn)
    · intro old is
      have is : s.conns pkt.handle = .registered old := is
      exact ⟨⟨old, is⟩, by rw [registered] at is; cases is; exact empty, fun _ => rfl⟩
    · show s.conns pkt.handle ≠ _
      rw [registered]
      nofun
  | waits conn registered connecting =>
    have kept : Lined [] (((s.note [.processed pkt false]).free []).setLife pkt.handle
        (.registered ⟨false, conn.waitPktList ++ [pkt]⟩)) := by
      refine lined.settle [] (conn.waitPktList ++ [pkt]) own rfl rfl ?_ (fun _ => rfl) ?_ nofun
      · intro old is
        rw [registered] at is
        cases is
        rfl
      · intro new is
        cases is
        exact ⟨⟨conn, registered⟩, rfl, nofun⟩
    rwa [State.free_nil] at kept
  | dropped gone =>
    have known : s.conns pkt.handle ≠ .absent := by
      have place := owned.place pkt
      have inHand : [pkt].count pkt = 1 := List.count_singleton_self
      exact lined.known pkt (List.count_pos_iff.mp (by omega))
    have kept : Lined [] (((s.note []).free [pkt]).setLife pkt.handle (s.conns pkt.handle)) := by
      refine lined.settle [] [] own rfl rfl ?_ (fun _ => rfl) ?_ known
      · exact fun conn is => absurd is (gone conn)
      · exact fun conn is => absurd is (gone conn)
    rw [State.note_nil] at kept
    exact (State.setLife_self (s.free [pkt]) pkt.handle) ▸ kept

/-- The packet of a call in the loop thread passes the lists, in which that thread has nothing. -/
theorem Lined.send (lined : Lined [] s) (known : s.conns pkt.handle ≠ .absent) (inLoop : pkt.thread = .loop) :
    Lined [pkt] { s.note [.posted pkt] with next := s.next + 1 } := by
  have posted : ({ s.note [.posted pkt] with next := s.next + 1 } : State).posted = s.posted ++ [pkt] :=
    s.note_posted [.posted pkt]
  have submitted : ({ s.note [.posted pkt] with next := s.next + 1 } : State).submitted = s.submitted :=
    (s.note_submitted [.posted pkt]).trans (List.append_nil _)
  constructor
  · exact lined.foreign
  · exact lined.openEmpty
  · intro p member
    rw [posted] at member
    rcases List.mem_append.mp member with old | last
    · exact lined.known p old
    · rw [List.mem_singleton.mp last]
      exact known
  · intro thread h
    rw [posted, submitted, List.filter_append]
    exact (lined.started thread h).trans (List.prefix_append _ _)
  · intro thread h conn is
    have old := lined.inLine thread h conn is
    rw [posted, submitted]
    show (s.submitted ++ conn.waitPktList ++ [pkt] ++ s.tmpPktList ++ s.pktList).filter (mine thread h) = _
    by_cases ours : mine thread h pkt = true
    · have loops : thread = .loop := by
        simp only [mine, Bool.and_eq_true, decide_eq_true_eq] at ours
        rw [← ours.1, inLoop]
      have none : (s.tmpPktList ++ s.pktList).filter (mine thread h) = [] := by
        refine List.filter_eq_nil_iff.mpr fun p member => ?_
        have other := lined.foreign p member
        simp [mine, loops, other]
      rw [List.append_nil, List.append_assoc, List.filter_append, none, List.append_nil] at old
      rw [List.append_assoc, List.filter_append, none, List.append_nil, List.filter_append, List.filter_append s.posted,
        old]
    · have skipped : [pkt].filter (mine thread h) = [] := List.filter_eq_nil_iff.mpr fun p member => by
        rwa [List.mem_singleton.mp member]
      simp only [List.filter_append, skipped, List.append_nil] at old ⊢
      exact old

theorem Lined.register {isOpen : Bool} (lined : Lined [] s) (owned : Owned [] s) (absent : s.conns h = .absent) :
    Lined [] (s.setLife h (.registered ⟨isOpen, []⟩)) := by
  have unknown : ∀ pkt ∈ s.posted, pkt.handle ≠ h := fun pkt member at_h => lined.known pkt member (at_h ▸ absent)
  constructor
  · exact lined.foreign
  · intro k conn is isOpen
    rcases State.registered_of_setLife is with ⟨_, new⟩ | ⟨_, old⟩
    · cases new
      rfl
    · exact lined.openEmpty k conn old isOpen
  · intro pkt member
    rw [State.setLife_conns_ne s _ (unknown pkt member)]
    exact lined.known pkt member
  · exact lined.started
  · intro thread k conn is
    rcases State.registered_of_setLife is with ⟨at_h, new⟩ | ⟨_, old⟩
    · cases new
      have none : ∀ pkts : List Pkt, (∀ pkt ∈ pkts, pkt ∈ s.posted) → pkts.filter (mine thread h) = [] := by
        intro pkts posted
        refine List.filter_eq_nil_iff.mpr fun pkt member => ?_
        rw [mine_ne (unknown pkt (posted pkt member))]
        exact Bool.false_ne_true
      subst at_h
      show (s.submitted ++ [] ++ [] ++ s.tmpPktList ++ s.pktList).filter (mine thread k) = s.posted.filter (mine thread k)
      rw [none s.posted fun _ member => member]
      refine none _ fun pkt member => ?_
      have place := owned.place pkt
      have sent := owned.sent pkt
      have listed := List.count_pos_iff.mpr member
      simp only [List.count_append, List.count_nil] at listed place
      exact List.count_pos_iff.mp (by omega)
    · exact lined.inLine thread k conn old

theorem Lined.post (lined : Lined [] s) (known : s.conns pkt.handle ≠ .absent) (other : pkt.thread ≠ .loop) :
    Lined [] { s.note [.posted pkt] with next := s.next + 1, pktList := s.pktList ++ [pkt] } := by
  have posted : (s.note [.posted pkt]).posted = s.posted ++ [pkt] := s.note_posted [.posted pkt]
  have submitted : (s.note [.posted pkt]).submitted = s.submitted :=
    (s.note_submitted [.posted pkt]).trans (List.append_nil _)
  constructor
  · intro p member
    have member : p ∈ s.tmpPktList ++ (s.pktList ++ [pkt]) := member
    rw [← List.append_assoc] at member
    rcases List.mem_append.mp member with old | last
    · exact lined.foreign p old
    · rw [List.mem_singleton.mp last]
      exact other
  · exact lined.openEmpty
  · intro p member
    have member : p ∈ (s.note [.posted pkt]).posted := member
    rw [posted] at member
    rcases List.mem_append.mp member with old | last
    · exact lined.known p old
    · rw [List.mem_singleton.mp last]
      exact known
  · intro thread h
    show (s.note [.posted pkt]).submitted.filter _ <+: (s.note [.posted pkt]).posted.filter _
    rw [posted, submitted, List.filter_append]
    exact (lined.started thread h).trans (List.prefix_append _ _)
  · intro thread h conn is
    show ((s.note [.posted pkt]).submitted ++ conn.waitPktList ++ [] ++ s.tmpPktList ++ (s.pktList ++ [pkt])).filter _ =
      (s.note [.posted pkt]).posted.filter _
    rw [posted, submitted, ← List.append_assoc, List.filter_append, List.filter_append s.posted,
      lined.inLine thread h conn is]

theorem Lined.swap (lined : Lined [] s) (done : s.tmpPktList = []) :
    Lined [] { s with tmpPktList := s.pktList, pktList := [] } := by
  refine ⟨?_, lined.openEmpty, lined.known, lined.started, fun thread h conn is => ?_⟩
  · intro pkt member
    have member : pkt ∈ s.pktList ++ [] := member
    rw [List.append_nil] at member
    exact lined.foreign pkt (List.mem_append_right _ member)
  · have old := lined.inLine thread h conn is
    rw [done, List.append_nil] at old
    show (s.submitted ++ conn.waitPktList ++ [] ++ s.pktList ++ []).filter _ = _
    rw [List.append_nil]
    exact old

/-- The next packet of the swapped list goes into the hand of the loop. -/
theorem Lined.next {rest : List Pkt} (lined : Lined [] s) (first : s.tmpPktList = pkt :: rest) :
    Lined [pkt] { s with tmpPktList := rest } := by
  refine ⟨?_, lined.openEmpty, lined.known, lined.started, fun thread h conn is => ?_⟩
  · intro p member
    apply lined.foreign p
    rw [first]
    exact List.mem_cons_of_mem pkt member
  · have old := lined.inLine thread h conn is
    rw [first, List.append_nil, ← List.singleton_append, ← List.append_assoc] at old
    exact old

/-- The packets that wait are submitted. -/
theorem Lined.confirm {conn : Conn} (lined : Lined [] s) (owned : Owned [] s) (registered : s.conns h = .registered conn) :
    Lined [] (((s.note (conn.waitPktList.map .submitted ++ [.confirmed h])).free conn.waitPktList).setLife h
      (.registered ⟨true, []⟩)) := by
  refine lined.settle conn.waitPktList [] (owned.home h) (confirm_quiet _ h) (confirm_submits _ h) ?_
    (fun gone => absurd registered (gone conn)) ?_ nofun
  · intro old is
    rw [registered] at is
    cases is
    rfl
  · intro new is
    cases is
    exact ⟨⟨conn, registered⟩, rfl, fun _ => rfl⟩

theorem Lined.close {conn : Conn} (lined : Lined [] s) (owned : Owned [] s) (registered : s.conns h = .registered conn) :
    Lined [] (s.setLife h (.closed { conn with isOpen := false })) := by
  have kept : Lined [] (((s.note []).free []).setLife h (.closed { conn with isOpen := false })) := by
    refine lined.settle [] conn.waitPktList (owned.home h) rfl rfl ?_ (fun _ => rfl) nofun nofun
    intro old is
    rw [registered] at is
    cases is
    exact List.append_nil _
  rwa [State.note_nil, State.free_nil] at kept

theorem Lined.destroy {conn : Conn} (lined : Lined [] s) (owned : Owned [] s) (closed : s.conns h = .closed conn) :
    Lined [] ((s.free conn.waitPktList).setLife h .destroyed) := by
  have kept : Lined [] (((s.note []).free conn.waitPktList).setLife h .destroyed) := by
    refine lined.settle [] [] (owned.home h) rfl rfl ?_ (fun _ => rfl) nofun nofun
    intro old is
    rw [closed] at is
    cases is
  rwa [State.note_nil] at kept

/-- **The packets of a thread stay in line**, in every state. -/
theorem Lined.move (lined : Lined [] s) (owned : Owned [] s) (move : Move s t) : Lined [] t := by
  cases move with
  | idle => exact lined
  | register h isOpen absent => exact lined.register owned absent
  | post pkt fresh known other => exact lined.post known other
  | send pkt fresh known inLoop t processed => exact (lined.send known inLoop).processed (owned.post fresh) processed
  | swap done => exact lined.swap done
  | next pkt rest first t processed => exact (lined.next first).processed (owned.next first) processed
  | confirm h conn registered => exact lined.confirm owned registered
  | close h conn registered => exact lined.close owned registered
  | destroy h conn closed => exact lined.destroy owned closed

end Netter.Posting
