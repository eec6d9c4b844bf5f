import Netter.Posting.Steps

/-!
# Each packet has one place

A posted packet is in the hand of a running call, in one of the two lists, with its connection, or
deleted, and in one of these places only. So no step uses a deleted packet or deletes one twice.
-/

namespace Netter.Posting

open Lib

/-- The packets in `hand` are those of the running call. -/
structure Owned (hand : List Pkt) (s : State) : Prop where
  serials : ∀ pkt ∈ s.posted, pkt.serial < s.next
  nodup : s.posted.Nodup
  place : ∀ pkt, s.posted.count pkt = hand.count pkt + s.pktList.count pkt + s.tmpPktList.count pkt +
    (s.conns pkt.handle).waiting.count pkt + s.freed.count pkt
  home : ∀ h, ∀ pkt ∈ (s.conns h).waiting, pkt.handle = h
  sent : ∀ pkt, s.submitted.count pkt ≤ s.freed.count pkt

variable {s t : State} {hand : List Pkt} {pkt : Pkt}

@[simp] theorem State.note_posted (s : State) (events : List Event) :
    (s.note events).posted = s.posted ++ events.filterMap postedPkt := List.filterMap_append

@[simp] theorem State.note_submitted (s : State) (events : List Event) :
    (s.note events).submitted = s.submitted ++ events.filterMap submittedPkt := List.filterMap_append

section Settle

variable (s : State) (h : NetHandle) (life : Life) (freed : List Pkt) (events : List Event)

@[simp] theorem State.settle_posted :
    (((s.note events).free freed).setLife h life).posted = s.posted ++ events.filterMap postedPkt :=
  s.note_posted events

@[simp] theorem State.settle_submitted :
    (((s.note events).free freed).setLife h life).submitted = s.submitted ++ events.filterMap submittedPkt :=
  s.note_submitted events

@[simp] theorem State.settle_freed : (((s.note events).free freed).setLife h life).freed = s.freed ++ freed := rfl

end Settle

theorem State.free_nil (s : State) : s.free [] = s := by
  unfold State.free
  rw [List.append_nil]

theorem submitted_of_submitted (pkts : List Pkt) : pkts.filterMap (submittedPkt ∘ Event.submitted) = pkts :=
  List.filterMap_some

/-- The trace of a confirmation posts nothing. -/
theorem confirm_quiet (pkts : List Pkt) (h : NetHandle) :
    (pkts.map Event.submitted ++ [Event.confirmed h]).filterMap postedPkt = [] := by
  rw [List.filterMap_append, List.filterMap_map]
  exact List.append_eq_nil_iff.mpr ⟨List.filterMap_eq_nil_iff.mpr fun _ _ => rfl, rfl⟩

theorem confirm_submits (pkts : List Pkt) (h : NetHandle) :
    (pkts.map Event.submitted ++ [Event.confirmed h]).filterMap submittedPkt = pkts := by
  rw [List.filterMap_append, List.filterMap_map, submitted_of_submitted]
  exact List.append_nil pkts

theorem Owned.once (owned : Owned hand s) (pkt : Pkt) : s.posted.count pkt ≤ 1 :=
  List.nodup_iff_count_le_one.mp owned.nodup pkt

theorem Owned.posted_of_freed (owned : Owned hand s) (freed : pkt ∈ s.freed) : pkt ∈ s.posted := by
  have place := owned.place pkt
  have positive := List.count_pos_iff.mpr freed
  exact List.count_pos_iff.mp (by omega)

theorem Owned.safe (owned : Owned [] s) : Safe s := by
  constructor
  · exact fun pkt freed => owned.serials pkt (owned.posted_of_freed freed)
  · intro pkt member freed
    have place := owned.place pkt
    have once := owned.once pkt
    have inTmp := List.count_pos_iff.mpr member
    have inFreed := List.count_pos_iff.mpr freed
    omega
  · intro h pkt member freed
    have place := owned.place pkt
    have once := owned.once pkt
    have at_h := owned.home h pkt member
    rw [at_h] at place
    have waits := List.count_pos_iff.mpr member
    have inFreed := List.count_pos_iff.mpr freed
    omega
  · intro h
    refine List.nodup_iff_count_le_one.mpr fun pkt => ?_
    by_cases member : pkt ∈ (s.conns h).waiting
    · have place := owned.place pkt
      have once := owned.once pkt
      have at_h := owned.home h pkt member
      rw [at_h] at place
      omega
    · rw [List.count_eq_zero_of_not_mem member]
      exact Nat.zero_le 1

theorem State.setLife_self (s : State) (h : NetHandle) : s.setLife h (s.conns h) = s := by
  have same : (fun k => if k = h then s.conns h else s.conns k) = s.conns := by
    funext k
    split
    · next at_h => rw [at_h]
    · rfl
  unfold State.setLife
  rw [same]

/-- What happens to the packets of one handle: those in the hand and those that wait are afterwards
waiting or deleted. -/
theorem Owned.settle {h : NetHandle} {life : Life} {freed : List Pkt} {events : List Event}
    (owned : Owned hand s) (own : ∀ pkt ∈ hand, pkt.handle = h)
    (balance : ∀ pkt, hand.count pkt + (s.conns h).waiting.count pkt =
      life.waiting.count pkt + freed.count pkt)
    (quiet : events.filterMap postedPkt = [])
    (sent : ∀ pkt, (events.filterMap submittedPkt).count pkt ≤ freed.count pkt) :
    Owned [] (((s.note events).free freed).setLife h life) := by
  have posted : (((s.note events).free freed).setLife h life).posted = s.posted := by
    rw [State.settle_posted, quiet, List.append_nil]
  have elsewhere : ∀ pkt, pkt.handle ≠ h → hand.count pkt = 0 ∧ (s.conns h).waiting.count pkt = 0 := by
    intro pkt other
    constructor
    · exact List.count_eq_zero_of_not_mem fun member => other (own pkt member)
    · exact List.count_eq_zero_of_not_mem fun member => other (owned.home h pkt member)
  constructor
  · rw [posted]
    exact owned.serials
  · rw [posted]
    exact owned.nodup
  · intro pkt
    have place := owned.place pkt
    have balance := balance pkt
    rw [posted, State.settle_freed, List.count_append]
    show _ = 0 + s.pktList.count pkt + s.tmpPktList.count pkt + _ + _
    by_cases at_h : pkt.handle = h
    · rw [at_h] at place ⊢
      rw [State.setLife_conns]
      omega
    · rw [State.setLife_conns_ne _ life at_h]
      have elsewhere := elsewhere pkt at_h
      show _ = 0 + s.pktList.count pkt + s.tmpPktList.count pkt + (s.conns pkt.handle).waiting.count pkt + _
      omega
  · intro k pkt member
    by_cases at_h : k = h
    · rw [at_h, State.setLife_conns] at member
      rw [at_h]
      by_contra other
      have elsewhere := elsewhere pkt other
      have balance := balance pkt
      have waits := List.count_pos_iff.mpr member
      omega
    · rw [State.setLife_conns_ne _ life at_h] at member
      exact owned.home k pkt member
  · intro pkt
    rw [State.settle_submitted, State.settle_freed, List.count_append, List.count_append]
    exact Nat.add_le_add (owned.sent pkt) (sent pkt)

theorem Owned.processed (owned : Owned [pkt] s) (processed : Processed s pkt t) : Owned [] t := by
  have own : ∀ p ∈ [pkt], p.handle = pkt.handle := fun p member => by rw [List.mem_singleton.mp member]
  cases processed with
  | submitted conn registered isOpen =>
    rw [← State.setLife_self ((s.note _).free [pkt]) pkt.handle]
    exact owned.settle own (fun p => Nat.add_comm _ _) rfl fun p => Nat.le_refl _
  | waits conn registered connecting =>
    have kept : Owned [] (((s.note [.processed pkt false]).free []).setLife pkt.handle
        (.registered ⟨false, conn.waitPktList ++ [pkt]⟩)) := by
      refine owned.settle own (fun p => ?_) rfl fun p => Nat.zero_le _
      rw [registered]
      exact (Nat.add_comm _ _).trans List.count_append.symm
    rwa [State.free_nil] at kept
  | dropped gone =>
    have kept : Owned [] (((s.note []).free [pkt]).setLife pkt.handle (s.conns pkt.handle)) := by
      exact owned.settle own (fun p => Nat.add_comm _ _) rfl fun p => Nat.zero_le _
    rw [State.note_nil] at kept
    exact (State.setLife_self (s.free [pkt]) pkt.handle) ▸ kept

/-- A packet that is posted starts in the hand of its call. -/
theorem Owned.post (owned : Owned [] s) (fresh : pkt.serial = s.next) :
    Owned [pkt] { s.note [.posted pkt] with next := s.next + 1 } := by
  have posted : ({ s.note [.posted pkt] with next := s.next + 1 } : State).posted = s.posted ++ [pkt] :=
    s.note_posted [.posted pkt]
  have new : pkt ∉ s.posted := fun member => by
    have old := owned.serials pkt member
    omega
  have submitted : ({ s.note [.posted pkt] with next := s.next + 1 } : State).submitted = s.submitted := by
    have noted := s.note_submitted [.posted pkt]
    exact noted.trans (List.append_nil _)
  constructor
  · intro p member
    rw [posted] at member
    rcases List.mem_append.mp member with old | last
    · exact Nat.lt_succ_of_lt (owned.serials p old)
    · rw [List.mem_singleton.mp last, fresh]
      exact Nat.lt_succ_self _
  · rw [posted]
    exact List.nodup_append.mpr ⟨owned.nodup, List.nodup_singleton pkt, fun p old q last => by
      rw [List.mem_singleton.mp last]
      exact fun same => new (same ▸ old)⟩
  · intro p
    have place := owned.place p
    rw [posted, List.count_append]
    show _ = _ + s.pktList.count p + s.tmpPktList.count p + (s.conns p.handle).waiting.count p + s.freed.count p
    simp only [List.count_nil] at place
    omega
  · exact owned.home
  · rw [submitted]
    exact owned.sent

/-- The next packet of the swapped list goes into the hand of the loop. -/
theorem Owned.next {rest : List Pkt} (owned : Owned [] s) (first : s.tmpPktList = pkt :: rest) :
    Owned [pkt] { s with tmpPktList := rest } := by
  refine ⟨owned.serials, owned.nodup, fun p => ?_, owned.home, owned.sent⟩
  have place := owned.place p
  have head : (pkt :: rest).count p = [pkt].count p + rest.count p := by
    rw [← List.singleton_append, List.count_append]
  rw [first, head] at place
  refine place.trans ?_
  show _ = _ + s.pktList.count p + rest.count p + (s.conns p.handle).waiting.count p + s.freed.count p
  simp only [List.count_nil]
  omega

/-- The packet in the hand of a call goes to the end of the list. -/
theorem Owned.push (owned : Owned [pkt] s) : Owned [] { s with pktList := s.pktList ++ [pkt] } := by
  refine ⟨owned.serials, owned.nodup, fun p => ?_, owned.home, owned.sent⟩
  have place := owned.place p
  have grows : (s.pktList ++ [pkt]).count p = s.pktList.count p + [pkt].count p := List.count_append
  refine place.trans ?_
  show _ = 0 + (s.pktList ++ [pkt]).count p + s.tmpPktList.count p + (s.conns p.handle).waiting.count p + s.freed.count p
  omega

theorem Owned.swap (owned : Owned [] s) (done : s.tmpPktList = []) :
    Owned [] { s with tmpPktList := s.pktList, pktList := [] } := by
  refine ⟨owned.serials, owned.nodup, fun p => ?_, owned.home, owned.sent⟩
  have place := owned.place p
  rw [done] at place
  refine place.trans ?_
  show _ = 0 + 0 + s.pktList.count p + (s.conns p.handle).waiting.count p + s.freed.count p
  simp only [List.count_nil]
  omega

/-- **One place for each packet**, in every state. -/
theorem Owned.move (owned : Owned [] s) (move : Move s t) : Owned [] t := by
  cases move with
  | idle => exact owned
  | register h isOpen absent =>
    have kept : Owned [] (((s.note []).free []).setLife h (.registered ⟨isOpen, []⟩)) := by
      refine owned.settle nofun (fun p => ?_) rfl fun p => Nat.zero_le _
      rw [absent]
      rfl
    rwa [State.note_nil, State.free_nil] at kept
  | post pkt fresh known other => exact (owned.post fresh).push
  | send pkt fresh known inLoop t processed => exact (owned.post fresh).processed processed
  | swap done => exact owned.swap done
  | next pkt rest first t processed => exact (owned.next first).processed processed
  | confirm h conn registered =>
    refine owned.settle nofun (fun p => ?_) (confirm_quiet _ h) fun p => ?_
    · rw [registered]
      rfl
    · exact Nat.le_of_eq (congrArg (List.count p) (confirm_submits _ h))
  | close h conn registered =>
    have kept : Owned [] (((s.note []).free []).setLife h (.closed { conn with isOpen := false })) := by
      refine owned.settle nofun (fun p => ?_) rfl fun p => Nat.zero_le _
      rw [registered]
      exact Nat.add_comm _ _
    rwa [State.note_nil, State.free_nil] at kept
  | destroy h conn closed =>
    have kept : Owned [] (((s.note []).free conn.waitPktList).setLife h .destroyed) := by
      refine owned.settle nofun (fun p => ?_) rfl fun p => Nat.zero_le _
      rw [closed]
      rfl
    rwa [State.note_nil] at kept

end Netter.Posting
