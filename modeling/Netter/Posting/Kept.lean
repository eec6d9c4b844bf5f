import Netter.Posting.Order

/-!
# Nothing is lost

A packet whose turn comes while its connection is open is submitted, and so is one that waits until the
connection is confirmed. With the place and the order of packets this gives what `SendPkt` by handle
promises, for any interleaving of the threads with the loop.
-/

namespace Netter.Posting

open Lib

/-- What becomes of the packets whose turn has come. -/
structure Fate (s : State) : Prop where
  sent : ∀ pkt, .processed pkt true ∈ s.trace → pkt ∈ s.submitted
  waits : ∀ pkt conn, .processed pkt false ∈ s.trace → s.conns pkt.handle = .registered conn →
    pkt ∈ s.submitted ∨ pkt ∈ conn.waitPktList
  confirmed : ∀ pkt, Before (.processed pkt false) (.confirmed pkt.handle) s.trace → pkt ∈ s.submitted
  known : ∀ pkt isOpen, .processed pkt isOpen ∈ s.trace → s.conns pkt.handle ≠ .absent

variable {s t : State} {pkt : Pkt}

/-- Events about posting and submitting only. -/
def Plain (events : List Event) : Prop :=
  ∀ event ∈ events, (∀ pkt isOpen, event ≠ .processed pkt isOpen) ∧ ∀ h, event ≠ .confirmed h

/-- A step without a turn or a confirmation; a registered connection keeps its waiting packets. -/
theorem Fate.plain {s t : State} {events : List Event} (fate : Fate s) (plain : Plain events)
    (trace : t.trace = s.trace ++ events)
    (kept : ∀ h conn, t.conns h = .registered conn → s.conns h = .registered conn ∨ s.conns h = .absent)
    (known : ∀ h, s.conns h ≠ .absent → t.conns h ≠ .absent) : Fate t := by
  have submitted : ∀ pkt ∈ s.submitted, pkt ∈ t.submitted := by
    intro pkt member
    unfold State.submitted
    rw [trace, List.filterMap_append]
    exact List.mem_append_left _ member
  have turned : ∀ pkt isOpen, .processed pkt isOpen ∈ t.trace → .processed pkt isOpen ∈ s.trace := by
    intro pkt isOpen member
    rw [trace] at member
    rcases List.mem_append.mp member with old | new
    · exact old
    · exact absurd rfl ((plain _ new).1 pkt isOpen)
  constructor
  · exact fun pkt member => submitted pkt (fate.sent pkt (turned pkt true member))
  · intro pkt conn member is
    have member := turned pkt false member
    rcases kept pkt.handle conn is with registered | absent
    · exact (fate.waits pkt conn member registered).imp_left (submitted pkt)
    · exact absurd absent (fate.known pkt false member)
  · intro pkt before
    rw [trace] at before
    exact submitted pkt (fate.confirmed pkt (before.of_append fun member => (plain _ member).2 _ rfl))
  · exact fun pkt isOpen member => known pkt.handle (fate.known pkt isOpen (turned pkt isOpen member))

/-- A packet whose turn comes with an open connection. -/
theorem Fate.submit (fate : Fate s) (known : s.conns pkt.handle ≠ .absent) :
    Fate ((s.note [.processed pkt true, .submitted pkt]).free [pkt]) := by
  have submitted : ((s.note [.processed pkt true, .submitted pkt]).free [pkt]).submitted = s.submitted ++ [pkt] :=
    s.note_submitted _
  have turned : ∀ p b, .processed p b ∈ s.trace ++ [.processed pkt true, .submitted pkt] →
      .processed p b ∈ s.trace ∨ p = pkt ∧ b = true := by
    simp
  constructor
  · intro p member
    rw [submitted]
    rcases turned p true member with old | ⟨rfl, _⟩
    · exact List.mem_append_left _ (fate.sent p old)
    · exact List.mem_append_right _ (List.mem_singleton_self p)
  · intro p conn member is
    rw [submitted]
    rcases turned p false member with old | ⟨_, impossible⟩
    · exact (fate.waits p conn old is).imp_left (List.mem_append_left _)
    · cases impossible
  · intro p before
    rw [submitted]
    exact List.mem_append_left _ (fate.confirmed p (before.of_append (by simp)))
  · intro p b member
    rcases turned p b member with old | ⟨rfl, _⟩
    · exact fate.known p b old
    · exact known

/-- A packet whose turn comes before the connection is confirmed. -/
theorem Fate.wait {conn : Conn} (fate : Fate s) (registered : s.conns pkt.handle = .registered conn) :
    Fate ((s.note [.processed pkt false]).setLife pkt.handle (.registered ⟨false, conn.waitPktList ++ [pkt]⟩)) := by
  have submitted : ((s.note [.processed pkt false]).setLife pkt.handle
      (.registered ⟨false, conn.waitPktList ++ [pkt]⟩)).submitted = s.submitted :=
    (s.note_submitted [.processed pkt false]).trans (List.append_nil _)
  have turned : ∀ p b, .processed p b ∈ s.trace ++ [.processed pkt false] →
      .processed p b ∈ s.trace ∨ p = pkt ∧ b = false := by
    simp
  constructor
  · intro p member
    rw [submitted]
    rcases turned p true member with old | ⟨_, impossible⟩
    · exact fate.sent p old
    · cases impossible
  · intro p new member is
    rw [submitted]
    rcases State.registered_of_setLife is with ⟨at_h, life⟩ | ⟨other, was⟩
    · cases life
      rcases turned p false member with old | ⟨rfl, _⟩
      · exact (fate.waits p conn old (at_h ▸ registered)).imp_right (List.mem_append_left _)
      · exact .inr (List.mem_append_right _ (List.mem_singleton_self p))
    · rcases turned p false member with old | ⟨rfl, _⟩
      · exact fate.waits p new old was
      · exact absurd rfl other
  · intro p before
    rw [submitted]
    exact fate.confirmed p (Before.of_append (l := s.trace) before (by simp))
  · intro p b member
    rcases turned p b member with old | ⟨rfl, _⟩
    · exact State.setLife_known nofun (.inr (fate.known p b old))
    · exact State.setLife_known nofun (.inl rfl)

theorem Fate.processed (fate : Fate s) (processed : Processed s pkt t) : Fate t := by
  cases processed with
  | submitted conn registered isOpen =>
    have known : s.conns pkt.handle ≠ .absent := by
      rw [registered]
      nofun
    exact fate.submit known
  | waits conn registered connecting => exact fate.wait registered
  | dropped gone => exact ⟨fate.sent, fate.waits, fate.confirmed, fate.known⟩

theorem Fate.confirm {h : NetHandle} {conn : Conn} (fate : Fate s) (registered : s.conns h = .registered conn) :
    Fate (((s.note (conn.waitPktList.map .submitted ++ [.confirmed h])).free conn.waitPktList).setLife h
      (.registered ⟨true, []⟩)) := by
  have submitted : (((s.note (conn.waitPktList.map .submitted ++ [.confirmed h])).free conn.waitPktList).setLife h
      (.registered ⟨true, []⟩)).submitted = s.submitted ++ conn.waitPktList := by
    rw [State.settle_submitted, confirm_submits]
  have turned : ∀ p b, .processed p b ∈ s.trace ++ (conn.waitPktList.map .submitted ++ [.confirmed h]) →
      .processed p b ∈ s.trace := by
    simp
  constructor
  · intro p member
    rw [submitted]
    exact List.mem_append_left _ (fate.sent p (turned p true member))
  · intro p new member is
    rw [submitted]
    have member := turned p false member
    rcases State.registered_of_setLife is with ⟨at_h, _⟩ | ⟨_, old⟩
    · exact .inl (List.mem_append.mpr (fate.waits p conn member (at_h ▸ registered)))
    · exact (fate.waits p new member old).imp_left (List.mem_append_left _)
  · intro p before
    rw [submitted]
    by_cases at_h : p.handle = h
    · have member := turned p false before.left_mem
      exact List.mem_append.mpr (fate.waits p conn member (at_h ▸ registered))
    · have old := before.of_append (l := s.trace) (by simp [at_h])
      exact List.mem_append_left _ (fate.confirmed p old)
  · exact fun p b member => State.setLife_known nofun (.inr (fate.known p b (turned p b member)))

theorem setLife_kept {h : NetHandle} {life : Life} (gone : ∀ conn, life ≠ .registered conn) (k : NetHandle)
    (conn : Conn) (is : (s.setLife h life).conns k = .registered conn) :
    s.conns k = .registered conn ∨ s.conns k = .absent := by
  rcases State.registered_of_setLife is with ⟨_, new⟩ | ⟨_, old⟩
  · exact absurd new (gone conn)
  · exact .inl old

theorem plain_nil : Plain [] := nofun

theorem plain_posted (pkt : Pkt) : Plain [.posted pkt] := by
  intro event member
  rw [List.mem_singleton.mp member]
  exact ⟨fun _ _ => nofun, fun _ => nofun⟩

theorem Fate.move (fate : Fate s) (move : Move s t) : Fate t := by
  cases move with
  | idle => exact fate
  | register h isOpen absent =>
    refine fate.plain plain_nil (List.append_nil _).symm (fun k conn is => ?_) fun _ known => State.setLife_known nofun (.inr known)
    rcases State.registered_of_setLife is with ⟨at_h, _⟩ | ⟨_, old⟩
    · exact .inr (at_h ▸ absent)
    · exact .inl old
  | post pkt fresh known other => exact fate.plain (plain_posted pkt) rfl (fun _ _ is => .inl is) fun _ known => known
  | send pkt fresh known inLoop t processed =>
    have posted : Fate { s.note [.posted pkt] with next := s.next + 1 } :=
      fate.plain (plain_posted pkt) rfl (fun _ _ is => .inl is) fun _ known => known
    exact posted.processed processed
  | swap done => exact ⟨fate.sent, fate.waits, fate.confirmed, fate.known⟩
  | next pkt rest first t processed =>
    have taken : Fate { s with tmpPktList := rest } := ⟨fate.sent, fate.waits, fate.confirmed, fate.known⟩
    exact taken.processed processed
  | confirm h conn registered => exact fate.confirm registered
  | close h conn registered =>
    exact fate.plain plain_nil (List.append_nil _).symm (setLife_kept nofun) fun _ known => State.setLife_known nofun (.inr known)
  | destroy h conn closed =>
    exact fate.plain plain_nil (List.append_nil _).symm (setLife_kept nofun) fun _ known => State.setLife_known nofun (.inr known)

/-! ## Runs -/

structure Inv (s : State) : Prop where
  owned : Owned [] s
  lined : Lined [] s
  fate : Fate s

theorem State.init_inv : Inv State.init := by
  refine ⟨⟨nofun, List.nodup_nil, fun _ => rfl, nofun, fun _ => Nat.le_refl _⟩, ⟨nofun, nofun, nofun, ?_, nofun⟩,
    ⟨nofun, nofun, ?_, nofun⟩⟩
  · exact fun _ _ => List.prefix_rfl
  · exact fun _ before => absurd before.left_mem List.not_mem_nil

theorem run_inv (steps : List Step) : wp (run steps) (fun _ => Inv) Never State.init := by
  refine wp_forM (fun step _ s inv => ?_) State.init_inv
  refine (step_spec inv.owned.safe step).call fun _ t move => ?_
  exact ⟨inv.owned.move move, inv.lined.move inv.owned move, inv.fate.move move⟩

/-- What `SendPkt` by handle promises about the packets posted so far. -/
structure Kept (s : State) : Prop where
  deletedOnce : ∀ pkt, s.freed.count pkt ≤ 1
  /-- In the end every packet of a destroyed connection is deleted. -/
  deletedAll : s.pktList = [] → s.tmpPktList = [] →
    ∀ pkt, .posted pkt ∈ s.trace → s.conns pkt.handle = .destroyed → s.freed.count pkt = 1
  submittedOnce : ∀ pkt, s.trace.count (.submitted pkt) ≤ 1
  /-- A packet whose connection is open when its turn comes is submitted. -/
  sent : ∀ pkt, .processed pkt true ∈ s.trace → s.trace.count (.submitted pkt) = 1
  /-- So is one whose connection is confirmed afterwards. -/
  confirmed : ∀ pkt, Before (.processed pkt false) (.confirmed pkt.handle) s.trace →
    s.trace.count (.submitted pkt) = 1
  order : ∀ p q, p.thread = q.thread → p.handle = q.handle → Before (.posted p) (.posted q) s.trace →
    .submitted q ∈ s.trace → Before (.submitted p) (.submitted q) s.trace

/-- Packets that are taken from the events of one kind. -/
theorem mem_filterMap_event {f : Event → Option Pkt} {noted : Event} (only : ∀ event, f event = some pkt ↔ event = noted)
    (trace : List Event) : pkt ∈ trace.filterMap f ↔ noted ∈ trace := by
  simp only [List.mem_filterMap, only, exists_eq_right]

theorem mem_posted : pkt ∈ s.posted ↔ .posted pkt ∈ s.trace :=
  mem_filterMap_event (fun event => by cases event <;> simp [postedPkt]) s.trace

theorem mem_submitted : pkt ∈ s.submitted ↔ .submitted pkt ∈ s.trace :=
  mem_filterMap_event (fun event => by cases event <;> simp [submittedPkt]) s.trace

theorem count_submitted (trace : List Event) (pkt : Pkt) :
    (trace.filterMap submittedPkt).count pkt = trace.count (.submitted pkt) := by
  induction trace with
  | nil => rfl
  | cons event trace ih =>
    cases event with
    | submitted other =>
      show (other :: trace.filterMap submittedPkt).count pkt = _
      rw [List.count_cons, List.count_cons, ih]
      simp
    | posted other => exact ih.trans (by simp)
    | processed other isOpen => exact ih.trans (by simp)
    | confirmed h => exact ih.trans (by simp)

theorem Inv.order (inv : Inv s) {p q : Pkt} (sender : p.thread = q.thread) (target : p.handle = q.handle)
    (before : Before (.posted p) (.posted q) s.trace) (submitted : .submitted q ∈ s.trace) :
    Before (.submitted p) (.submitted q) s.trace := by
  have mineP : mine q.thread q.handle p = true := by simp [mine, sender, target]
  have mineQ : mine q.thread q.handle q = true := by simp [mine]
  have posted : Before p q (s.posted.filter (mine q.thread q.handle)) :=
    (before.filterMap (f := postedPkt) rfl rfl).filter mineP mineQ
  have sent : q ∈ s.submitted.filter (mine q.thread q.handle) :=
    List.mem_filter.mpr ⟨mem_submitted.mpr submitted, mineQ⟩
  have started := inv.lined.started q.thread q.handle
  obtain ⟨a, b, isP, isQ, inTrace⟩ :=
    (posted.of_prefix (inv.owned.nodup.filter _) started sent).of_filter.of_filterMap
  cases a <;> cases isP
  cases b <;> cases isQ
  exact inTrace

theorem Inv.kept (inv : Inv s) : Kept s := by
  have freedOnce : ∀ pkt, s.freed.count pkt ≤ 1 := by
    intro pkt
    have place := inv.owned.place pkt
    have once := inv.owned.once pkt
    omega
  have submittedOnce : ∀ pkt, s.trace.count (.submitted pkt) ≤ 1 := by
    intro pkt
    rw [← count_submitted]
    exact Nat.le_trans (inv.owned.sent pkt) (freedOnce pkt)
  have exactly : ∀ pkt, pkt ∈ s.submitted → s.trace.count (.submitted pkt) = 1 := by
    intro pkt member
    have positive := List.count_pos_iff.mpr (mem_submitted.mp member)
    have once := submittedOnce pkt
    omega
  refine ⟨freedOnce, ?_, submittedOnce, fun pkt turn => exactly pkt (inv.fate.sent pkt turn),
    fun pkt before => exactly pkt (inv.fate.confirmed pkt before), fun p q => inv.order⟩
  intro noPkt noTmp pkt posted destroyed
  have place := inv.owned.place pkt
  have once := inv.owned.once pkt
  have positive := List.count_pos_iff.mpr (mem_posted.mpr posted)
  have waits : (s.conns pkt.handle).waiting.count pkt = 0 := by
    rw [destroyed]
    rfl
  rw [noPkt, noTmp, waits] at place
  simp only [List.count_nil] at place
  omega

/-- **`SendPkt` by handle.** No interleaving of the threads with the loop uses a deleted packet, and it keeps
what is promised about packets. -/
theorem packets_kept (steps : List Step) : ∃ s, (run steps).run .init = .ok ⟨⟩ s ∧ Kept s := by
  obtain ⟨⟨⟩, s, run, inv⟩ := wp_never.mp (run_inv steps)
  exact ⟨s, run, inv.kept⟩

end Netter.Posting
