import Netter.Lib.Run
import Netter.Posting.Kept

/-!
# `CloseHandle` among the packets

`PendingEventMgr` keeps a list of packets and a list of closes. `loop_callback` swaps out both at once, and then
goes through all the packets before it comes to the closes. So a close waits for every packet that its
thread has posted before, but a packet that is posted after a close, while this is still in its list,
overtakes it.
-/

namespace Netter.Posting

open Lib

/-- `CloseHandle(handle)` of a thread, when packets up to the serial `before` had been posted. -/
structure CloseCall where
  thread : Thread
  handle : NetHandle
  before : Nat
  deriving DecidableEq

/-- A close that has found its connection, with the packets submitted by then. -/
structure Closing where
  call : CloseCall
  isOpen : Bool
  submitted : List Pkt

structure Pending where
  packets : State
  closeList : List CloseCall
  tmpCloseList : List CloseCall
  /-- The calls of `CloseHandle` outside of the loop thread. -/
  called : List CloseCall
  closings : List Closing

def Pending.init : Pending := ⟨.init, [], [], [], []⟩

namespace Pending

/-- What is done with packets and connections, unless it is undefined behaviour. -/
def onPackets (x : PostM Unit) (p : Pending) : Option Pending :=
  match x.run p.packets with
  | .ok _ packets => some { p with packets }
  | .error _ _ => none

/-- `Close` of a connection that is found in `conn_map`. -/
def closeConn (p : Pending) (h : NetHandle) (conn : Conn) : Pending :=
  { p with packets := { p.packets with
      conns := fun k => if k = h then .closed { conn with isOpen := false } else p.packets.conns k } }

/-- `CloseHandle(handle)`. -/
def closeHandle (thread : Thread) (h : NetHandle) (p : Pending) : Pending :=
  match thread with
  | .loop =>
    match p.packets.conns h with
    | .registered conn => p.closeConn h conn
    | _ => p
  | .other _ =>
    { p with
      closeList := p.closeList ++ [⟨thread, h, p.packets.next⟩]
      called := p.called ++ [⟨thread, h, p.packets.next⟩] }

/-- The locked swap of both lists in `loop_callback`. -/
def swap (p : Pending) : Pending :=
  { p with
    packets := { p.packets with tmpPktList := p.packets.pktList, pktList := [] }
    tmpCloseList := p.closeList
    closeList := [] }

/-- A round of the second loop of `loop_callback`. -/
def processClose (p : Pending) : Pending :=
  match p.tmpCloseList with
  | [] => p
  | call :: rest =>
    let p := { p with tmpCloseList := rest }
    match p.packets.conns call.handle with
    | .registered conn =>
      { p.closeConn call.handle conn with
        closings := p.closings ++ [⟨call, conn.isOpen, p.packets.submitted⟩] }
    | _ => p

end Pending

/-- A call of some thread or a step of the loop. -/
inductive PendingStep where
  /-- The loop registers, confirms, closes or destroys a connection. -/
  | register (handle : NetHandle) (isOpen : Bool)
  | onConfirm (handle : NetHandle)
  | close (handle : NetHandle)
  | destroy (handle : NetHandle)
  /-- A call with the handle of a connection that has been registered. -/
  | sendPkt (thread : Thread) (handle : NetHandle)
  | closeHandle (thread : Thread) (handle : NetHandle)
  /-- `loop_callback`: the swap, then a round of its first loop, or of its second loop after the first. -/
  | swap
  | processPkt
  | processClose

def PendingStep.exec (p : Pending) : PendingStep → Option Pending
  | .register h isOpen => p.onPackets (Step.register h isOpen).exec
  | .onConfirm h => p.onPackets (Step.onConfirm h).exec
  | .close h => p.onPackets (Step.close h).exec
  | .destroy h => p.onPackets (Step.destroy h).exec
  | .sendPkt thread h => p.onPackets (Step.sendPkt thread h).exec
  | .closeHandle thread h =>
    match p.packets.conns h with
    | .absent => some p
    | _ => some (p.closeHandle thread h)
  | .swap => some (if p.packets.tmpPktList = [] ∧ p.tmpCloseList = [] then p.swap else p)
  | .processPkt => p.onPackets Step.processNext.exec
  | .processClose => some (if p.packets.tmpPktList = [] then p.processClose else p)

/-! ## Program order -/

/-- A packet of the thread that has called, for the same handle. -/
def CloseCall.Same (call : CloseCall) (pkt : Pkt) : Prop := pkt.thread = call.thread ∧ pkt.handle = call.handle

/-- The operations of a thread have taken effect in the order of its calls. -/
structure InOrder (p : Pending) : Prop where
  /-- What was posted before a close has been submitted before it. -/
  before : ∀ closing ∈ p.closings, closing.isOpen = true → ∀ pkt ∈ p.packets.posted, closing.call.Same pkt →
    pkt.serial < closing.call.before → pkt ∈ closing.submitted
  /-- What was posted after a close has not been submitted. -/
  after : ∀ call ∈ p.called, ∀ pkt ∈ p.packets.submitted, call.Same pkt → pkt.serial < call.before

/-- The handle is not registered, or not any more. -/
def State.Gone (s : State) (h : NetHandle) : Prop := ∀ conn, s.conns h ≠ .registered conn

/-- No packet is posted for a connection while a close of it by the same thread waits in `close_list`. -/
def PendingStep.Meets (p : Pending) : PendingStep → Prop
  | .sendPkt thread h => p.packets.Gone h ∨ ∀ call ∈ p.closeList, call.thread = thread → call.handle ≠ h
  | _ => True

/-! ## The invariant -/

/-- A close that is in neither list has been done or has not found its connection, and what was posted after a
close is still in the list when that is processed. -/
structure PendingInv (p : Pending) : Prop where
  owned : Owned [] p.packets
  lined : Lined [] p.packets
  foreign : ∀ call ∈ p.called, call.thread ≠ .loop
  known : ∀ call ∈ p.called, p.packets.conns call.handle ≠ .absent
  early : ∀ call ∈ p.called, call.before ≤ p.packets.next
  listed : ∀ call ∈ p.closeList ++ p.tmpCloseList, call ∈ p.called
  waits : ∀ call ∈ p.called, call ∈ p.closeList ∨ call ∈ p.tmpCloseList ∨ p.packets.Gone call.handle
  later : ∀ call ∈ p.tmpCloseList, ∀ pkt ∈ p.packets.pktList, call.Same pkt → call.before ≤ pkt.serial
  overtaken : ∀ call ∈ p.called, ∀ pkt ∈ p.packets.posted, call.Same pkt → call.before ≤ pkt.serial →
    pkt ∉ p.packets.submitted ∧
      (p.packets.Gone call.handle ∨ call ∈ p.tmpCloseList ∧ pkt ∈ p.packets.pktList)
  closed : ∀ closing ∈ p.closings, closing.call ∈ p.called
  before : ∀ closing ∈ p.closings, closing.isOpen = true → ∀ pkt ∈ p.packets.posted, closing.call.Same pkt →
    pkt.serial < closing.call.before → pkt ∈ closing.submitted

variable {p q : Pending} {s t : State} {hand : List Pkt} {pkt : Pkt} {h : NetHandle} {conn : Conn}

theorem Owned.posted_of_submitted (owned : Owned hand s) (submitted : pkt ∈ s.submitted) : pkt ∈ s.posted := by
  have sent := owned.sent pkt
  have positive := List.count_pos_iff.mpr submitted
  exact owned.posted_of_freed (List.count_pos_iff.mp (by omega))

/-- A packet in the shared list is nowhere else. -/
theorem Owned.not_elsewhere (owned : Owned hand s) (listed : pkt ∈ s.pktList) :
    pkt ∉ hand ∧ pkt ∉ s.tmpPktList ∧ pkt ∉ (s.conns pkt.handle).waiting := by
  have place := owned.place pkt
  have once := owned.once pkt
  have positive := List.count_pos_iff.mpr listed
  refine ⟨?_, ?_, ?_⟩ <;>
  · intro member
    have other := List.count_pos_iff.mpr member
    omega

theorem InOrder.of_inv (inv : PendingInv p) : InOrder p := by
  refine ⟨inv.before, fun call called pkt submitted same => ?_⟩
  by_contra late
  have posted := inv.owned.posted_of_submitted submitted
  exact (inv.overtaken call called pkt posted same (Nat.le_of_not_lt late)).1 submitted

/-- What a step does to packets and connections, when nothing is posted but by the loop thread: it submits
packets of registered connections that are not in the shared list. -/
structure Serves (s t : State) : Prop where
  next : s.next ≤ t.next
  posted : ∀ pkt ∈ t.posted, pkt ∈ s.posted ∨ pkt.thread = .loop
  pktList : t.pktList = s.pktList
  known : ∀ h, s.conns h ≠ .absent → t.conns h ≠ .absent
  gone : ∀ h, s.conns h ≠ .absent → s.Gone h → t.Gone h
  submitted : ∀ pkt ∈ t.submitted, pkt ∈ s.submitted ∨ ¬ s.Gone pkt.handle ∧ pkt ∉ s.pktList

theorem PendingInv.serves (inv : PendingInv p) (serves : Serves p.packets t) (owned : Owned [] t) (lined : Lined [] t) :
    PendingInv { p with packets := t } := by
  refine ⟨owned, lined, inv.foreign, ?_, ?_, inv.listed, ?_, ?_, ?_, inv.closed, ?_⟩
  · exact fun call called => serves.known _ (inv.known call called)
  · exact fun call called => Nat.le_trans (inv.early call called) serves.next
  · intro call called
    exact (inv.waits call called).imp_right (·.imp_right (serves.gone _ (inv.known call called)))
  · intro call member pkt listed same
    rw [serves.pktList] at listed
    exact inv.later call member pkt listed same
  · intro call called pkt posted same late
    have old : pkt ∈ p.packets.posted := (serves.posted pkt posted).resolve_right
      (same.1 ▸ inv.foreign call called)
    obtain ⟨unsent, place⟩ := inv.overtaken call called pkt old same late
    refine ⟨fun sent => ?_, ?_⟩
    · obtain ⟨here, elsewhere⟩ := (serves.submitted pkt sent).resolve_left unsent
      rw [same.2] at here
      rcases place with gone | ⟨_, listed⟩
      · exact here gone
      · exact elsewhere listed
    · rw [serves.pktList]
      exact place.imp_left (serves.gone _ (inv.known call called))
  · intro closing member isOpen pkt posted same early
    have foreign := inv.foreign _ (inv.closed closing member)
    have old := (serves.posted pkt posted).resolve_right (same.1 ▸ foreign)
    exact inv.before closing member isOpen pkt old same early

/-! ## Steps with packets and connections -/

theorem Serves.rfl : Serves s s :=
  ⟨Nat.le_refl _, fun _ => .inl, Eq.refl _, fun _ => id, fun _ _ => id, fun _ => .inl⟩

/-- The connection of one handle changes, and packets for it may be submitted. -/
theorem Serves.settle {life : Life} {freed : List Pkt} {events : List Event} (base : Serves s t)
    (quiet : events.filterMap postedPkt = []) (made : s.conns h ≠ .absent → life ≠ .absent)
    (kept : s.conns h ≠ .absent → s.Gone h → ∀ conn, life ≠ .registered conn)
    (sent : ∀ pkt ∈ events.filterMap submittedPkt, ¬ s.Gone pkt.handle ∧ pkt ∉ s.pktList) :
    Serves s (((t.note events).free freed).setLife h life) := by
  refine ⟨base.next, ?_, base.pktList, ?_, ?_, ?_⟩
  · intro pkt posted
    rw [State.settle_posted, quiet, List.append_nil] at posted
    exact base.posted pkt posted
  · intro k known
    rcases eq_or_ne k h with rfl | other
    · rw [State.setLife_conns]
      exact made known
    · rw [State.setLife_conns_ne _ _ other]
      exact base.known k known
  · intro k known gone conn is
    rcases State.registered_of_setLife is with ⟨rfl, new⟩ | ⟨_, old⟩
    · exact kept known gone conn new
    · exact base.gone k known gone conn old
  · intro pkt submitted
    rw [State.settle_submitted] at submitted
    rcases List.mem_append.mp submitted with old | new
    · exact base.submitted pkt old
    · exact .inr (sent pkt new)

theorem not_gone (registered : s.conns h = .registered conn) : ¬ s.Gone h := fun gone => gone conn registered

theorem Serves.processed (base : Serves s t) (conns : t.conns = s.conns) {u : State} (processed : Processed t pkt u)
    (unlisted : pkt ∉ s.pktList) : Serves s u := by
  cases processed with
  | submitted conn registered isOpen =>
    rw [conns] at registered
    rw [← State.setLife_self ((t.note _).free [pkt]) pkt.handle]
    refine base.settle (Eq.refl _) ?_ ?_ ?_
    · show _ → t.conns pkt.handle ≠ _
      rw [conns]
      exact id
    · exact fun _ gone => absurd registered (gone conn)
    · intro other member
      rw [show other = pkt from List.mem_singleton.mp member]
      exact ⟨not_gone registered, unlisted⟩
  | waits conn registered connecting =>
    rw [conns] at registered
    have kept : Serves s (((t.note [.processed pkt false]).free []).setLife pkt.handle
        (.registered ⟨false, conn.waitPktList ++ [pkt]⟩)) :=
      base.settle (Eq.refl _) (fun _ => nofun) (fun _ gone => absurd registered (gone conn)) nofun
    rwa [State.free_nil] at kept
  | dropped gone => exact ⟨base.next, base.posted, base.pktList, base.known, base.gone, base.submitted⟩

theorem PendingInv.next {rest : List Pkt} (inv : PendingInv p) (first : p.packets.tmpPktList = pkt :: rest)
    (processed : Processed { p.packets with tmpPktList := rest } pkt t) : PendingInv { p with packets := t } := by
  have unlisted : pkt ∉ p.packets.pktList := by
    intro listed
    refine (inv.owned.not_elsewhere listed).2.1 ?_
    rw [first]
    exact List.mem_cons_self
  have base : Serves p.packets { p.packets with tmpPktList := rest } :=
    ⟨Nat.le_refl _, fun _ => .inl, rfl, fun _ => id, fun _ _ => id, fun _ => .inl⟩
  have inHand := inv.owned.next first
  exact inv.serves (base.processed rfl processed unlisted) (inHand.processed processed)
    ((inv.lined.next first).processed inHand processed)

/-- A call of `SendPkt` in the loop thread. -/
theorem PendingInv.send (inv : PendingInv p) (fresh : pkt.serial = p.packets.next)
    (known : p.packets.conns pkt.handle ≠ .absent) (inLoop : pkt.thread = .loop)
    (processed : Processed { p.packets.note [.posted pkt] with next := p.packets.next + 1 } pkt t) :
    PendingInv { p with packets := t } := by
  have inHand := inv.owned.post fresh
  have base : Serves p.packets { p.packets.note [.posted pkt] with next := p.packets.next + 1 } := by
    refine ⟨Nat.le_succ _, ?_, rfl, fun _ => id, fun _ _ => id, ?_⟩
    · intro other posted
      have posted : other ∈ (p.packets.note [.posted pkt]).posted := posted
      rw [State.note_posted] at posted
      rcases List.mem_append.mp posted with old | new
      · exact .inl old
      · rw [show other = pkt from List.mem_singleton.mp new]
        exact .inr inLoop
    · intro other submitted
      have submitted : other ∈ (p.packets.note [.posted pkt]).submitted := submitted
      rw [State.note_submitted] at submitted
      exact .inl (by simpa [submittedPkt] using submitted)
  have unlisted : pkt ∉ p.packets.pktList := fun listed => (inHand.not_elsewhere listed).1 List.mem_cons_self
  exact inv.serves (base.processed rfl processed unlisted) (inHand.processed processed)
    ((inv.lined.send known inLoop).processed inHand processed)

/-- A step that submits only packets that have waited with their connection. -/
theorem PendingInv.settle (inv : PendingInv p) (h : NetHandle) (life : Life) (freed : List Pkt) (events : List Event)
    (owned : Owned [] (((p.packets.note events).free freed).setLife h life))
    (lined : Lined [] (((p.packets.note events).free freed).setLife h life))
    (quiet : events.filterMap postedPkt = []) (made : life ≠ .absent)
    (kept : p.packets.conns h ≠ .absent → p.packets.Gone h → ∀ conn, life ≠ .registered conn)
    (sent : ∀ pkt ∈ events.filterMap submittedPkt, ∃ conn, p.packets.conns h = .registered conn ∧ pkt ∈ conn.waitPktList) :
    PendingInv { p with packets := ((p.packets.note events).free freed).setLife h life } := by
  refine inv.serves (Serves.rfl.settle quiet (fun _ => made) kept fun pkt member => ?_) owned lined
  obtain ⟨conn, registered, waits⟩ := sent pkt member
  have waiting : pkt ∈ (p.packets.conns h).waiting := by
    rw [registered]
    exact waits
  have home := inv.owned.home h pkt waiting
  rw [home]
  refine ⟨not_gone registered, fun listed => ?_⟩
  have elsewhere := (inv.owned.not_elsewhere listed).2.2
  rw [home] at elsewhere
  exact elsewhere waiting

/-- A call of `SendPkt` in another thread, which has no close of the connection in the list. -/
theorem PendingInv.post (inv : PendingInv p) (pkt : Pkt) (fresh : pkt.serial = p.packets.next)
    (known : p.packets.conns pkt.handle ≠ .absent) (other : pkt.thread ≠ .loop)
    (meets : p.packets.Gone pkt.handle ∨ ∀ call ∈ p.closeList, call.thread = pkt.thread → call.handle ≠ pkt.handle) :
    PendingInv { p with packets :=
      { p.packets.note [.posted pkt] with next := p.packets.next + 1, pktList := p.packets.pktList ++ [pkt] } } := by
  have inHand := inv.owned.post fresh
  have posted (q : Pkt) : q ∈ (p.packets.note [.posted pkt]).posted ↔ q ∈ p.packets.posted ∨ q = pkt := by
    rw [State.note_posted]
    exact List.mem_append.trans (or_congr_right List.mem_singleton)
  have submitted : (p.packets.note [.posted pkt]).submitted = p.packets.submitted :=
    (State.note_submitted _ _).trans (List.append_nil _)
  have unsent : pkt ∉ p.packets.submitted := by
    intro sent
    have serial := inv.owned.serials pkt (inv.owned.posted_of_submitted sent)
    omega
  refine ⟨inHand.push, inv.lined.post known other, inv.foreign, inv.known, ?_, inv.listed, inv.waits, ?_, ?_, inv.closed, ?_⟩
  · exact fun call called => Nat.le_succ_of_le (inv.early call called)
  · intro call member q listed same
    rcases List.mem_append.mp listed with old | new
    · exact inv.later call member q old same
    · rw [List.mem_singleton.mp new, fresh]
      exact inv.early call (inv.listed call (List.mem_append_right _ member))
  · intro call called q inTrace same late
    rcases (posted q).mp inTrace with old | rfl
    · obtain ⟨before, place⟩ := inv.overtaken call called q old same late
      refine ⟨submitted ▸ before, place.imp_right fun ⟨tmp, listed⟩ => ⟨tmp, ?_⟩⟩
      exact List.mem_append_left _ listed
    · refine ⟨submitted ▸ unsent, ?_⟩
      have last : q ∈ p.packets.pktList ++ [q] := List.mem_append_right _ (List.mem_singleton_self q)
      rcases inv.waits call called with waits | swapped | gone
      · rcases meets with gone | clear
        · exact .inl (same.2 ▸ gone)
        · exact absurd same.2.symm (clear call waits same.1.symm)
      · exact .inr ⟨swapped, last⟩
      · exact .inl gone
  · intro closing member isOpen q inTrace same early
    rcases (posted q).mp inTrace with old | rfl
    · exact inv.before closing member isOpen q old same early
    · have bound := inv.early _ (inv.closed closing member)
      omega

theorem PendingInv.register (inv : PendingInv p) (absent : p.packets.conns h = .absent) (isOpen : Bool) :
    PendingInv { p with packets := p.packets.setLife h (.registered ⟨isOpen, []⟩) } := by
  have kept := inv.settle h (.registered ⟨isOpen, []⟩) [] []
  rw [State.note_nil, State.free_nil] at kept
  have move := Move.register h isOpen absent
  exact kept (inv.owned.move move) (inv.lined.move inv.owned move) rfl nofun (fun known => absurd absent known) nofun

theorem PendingInv.confirm (inv : PendingInv p) (registered : p.packets.conns h = .registered conn) :
    PendingInv { p with packets := ((p.packets.note (conn.waitPktList.map .submitted ++ [.confirmed h])).free
      conn.waitPktList).setLife h (.registered ⟨true, []⟩) } := by
  have move := Move.confirm h conn registered
  refine inv.settle h _ _ _ (inv.owned.move move) (inv.lined.move inv.owned move) (confirm_quiet _ h) nofun
    (fun _ gone => absurd registered (gone conn)) fun pkt member => ?_
  rw [confirm_submits] at member
  exact ⟨conn, registered, member⟩

theorem PendingInv.destroy (inv : PendingInv p) (closed : p.packets.conns h = .closed conn) :
    PendingInv { p with packets := (p.packets.free conn.waitPktList).setLife h .destroyed } := by
  have kept := inv.settle h .destroyed conn.waitPktList []
  rw [State.note_nil] at kept
  have move := Move.destroy h conn closed
  exact kept (inv.owned.move move) (inv.lined.move inv.owned move) rfl nofun (fun _ _ => nofun) nofun

theorem PendingInv.closeConn (inv : PendingInv p) (registered : p.packets.conns h = .registered conn) :
    PendingInv (p.closeConn h conn) := by
  have kept := inv.settle h (.closed { conn with isOpen := false }) [] []
  rw [State.note_nil, State.free_nil] at kept
  have move := Move.close h conn registered
  exact kept (inv.owned.move move) (inv.lined.move inv.owned move) rfl nofun (fun _ _ => nofun) nofun

theorem PendingInv.sendPkt {thread : Thread} (inv : PendingInv p) (known : p.packets.conns h ≠ .absent)
    (meets : (PendingStep.sendPkt thread h).Meets p) :
    wp (Posting.sendPkt thread h) (fun _ t => PendingInv { p with packets := t }) Never p.packets := by
  unfold Posting.sendPkt record
  rw [wp_bind, wp_get, wp_bind, wp_modify, wp_bind, wp_modify]
  cases thread with
  | other number => exact inv.post ⟨p.packets.next, h, .other number⟩ rfl known nofun meets
  | loop =>
    have live : (⟨p.packets.next, h, .loop⟩ : Pkt) ∉ p.packets.freed := fun freed =>
      Nat.lt_irrefl _ (inv.owned.safe.freed _ freed)
    have processed := process_spec
      (s := { p.packets.note [.posted ⟨p.packets.next, h, .loop⟩] with next := p.packets.next + 1 }) live
    exact processed.call fun _ t post => inv.send rfl known rfl post

theorem PendingInv.processNext (inv : PendingInv p) :
    wp Posting.processNext (fun _ t => PendingInv { p with packets := t }) Never p.packets := by
  unfold Posting.processNext
  rw [wp_bind, wp_get]
  cases first : p.packets.tmpPktList with
  | nil => exact inv
  | cons pkt rest =>
    have live : pkt ∉ p.packets.freed := inv.owned.safe.tmp pkt (by rw [first]; exact List.mem_cons_self)
    exact (process_spec (s := { p.packets with tmpPktList := rest }) live).call fun _ t post => inv.next first post

/-! ## Steps with closes -/

theorem PendingInv.closeHandle (inv : PendingInv p) (thread : Thread) (known : p.packets.conns h ≠ .absent) :
    PendingInv (p.closeHandle thread h) := by
  unfold Pending.closeHandle
  cases thread with
  | loop =>
    dsimp only
    split
    next conn registered => exact inv.closeConn registered
    next => exact inv
  | other number =>
    have called (call : CloseCall) : call ∈ p.called ++ [⟨.other number, h, p.packets.next⟩] ↔
        call ∈ p.called ∨ call = ⟨.other number, h, p.packets.next⟩ :=
      List.mem_append.trans (or_congr_right List.mem_singleton)
    refine ⟨inv.owned, inv.lined, ?_, ?_, ?_, ?_, ?_, inv.later, ?_, ?_, inv.before⟩
    · intro call member
      rcases (called call).mp member with old | rfl
      · exact inv.foreign call old
      · nofun
    · intro call member
      rcases (called call).mp member with old | rfl
      · exact inv.known call old
      · exact known
    · intro call member
      rcases (called call).mp member with old | rfl
      · exact inv.early call old
      · exact Nat.le_refl _
    · intro call member
      have member : call ∈ p.closeList ++ [⟨.other number, h, p.packets.next⟩] ++ p.tmpCloseList := member
      refine (called call).mpr ?_
      simp only [List.mem_append, List.mem_singleton] at member
      rcases member with (old | new) | swapped
      · exact .inl (inv.listed call (List.mem_append_left _ old))
      · exact .inr new
      · exact .inl (inv.listed call (List.mem_append_right _ swapped))
    · intro call member
      rcases (called call).mp member with old | rfl
      · exact (inv.waits call old).imp_left (List.mem_append_left _)
      · exact .inl (List.mem_append_right _ (List.mem_singleton_self _))
    · intro call member pkt posted same late
      rcases (called call).mp member with old | rfl
      · exact inv.overtaken call old pkt posted same late
      · exact absurd late (Nat.not_le_of_lt (inv.owned.serials pkt posted))
    · exact fun closing member => (called _).mpr (.inl (inv.closed closing member))

theorem PendingInv.swap (inv : PendingInv p) (done : p.packets.tmpPktList = []) (closed : p.tmpCloseList = []) :
    PendingInv p.swap := by
  refine ⟨inv.owned.swap done, inv.lined.swap done, inv.foreign, inv.known, inv.early, ?_, ?_, fun _ _ => nofun, ?_,
    inv.closed, inv.before⟩
  · intro call member
    exact inv.listed call (List.mem_append_left _ member)
  · intro call called
    rcases inv.waits call called with waits | swapped | gone
    · exact .inr (.inl waits)
    · rw [closed] at swapped
      cases swapped
    · exact .inr (.inr gone)
  · intro call called pkt posted same late
    obtain ⟨unsent, gone | ⟨swapped, _⟩⟩ := inv.overtaken call called pkt posted same late
    · exact ⟨unsent, .inl gone⟩
    · rw [closed] at swapped
      cases swapped

/-- A close is done with when its handle is not registered any more. -/
theorem PendingInv.dequeue {call : CloseCall} {rest : List CloseCall} (inv : PendingInv p)
    (first : p.tmpCloseList = call :: rest) (gone : p.packets.Gone call.handle) :
    PendingInv { p with tmpCloseList := rest } := by
  have swapped (other : CloseCall) (member : other ∈ p.tmpCloseList) : other ∈ rest ∨ p.packets.Gone other.handle := by
    rw [first] at member
    rcases List.mem_cons.mp member with rfl | left
    · exact .inr gone
    · exact .inl left
  have left (other : CloseCall) (member : other ∈ rest) : other ∈ p.tmpCloseList := by
    rw [first]
    exact List.mem_cons_of_mem call member
  refine ⟨inv.owned, inv.lined, inv.foreign, inv.known, inv.early, ?_, ?_, ?_, ?_, inv.closed, inv.before⟩
  · intro other member
    rcases List.mem_append.mp member with listed | later
    · exact inv.listed other (List.mem_append_left _ listed)
    · exact inv.listed other (List.mem_append_right _ (left other later))
  · intro other called
    rcases inv.waits other called with waits | member | gone
    · exact .inl waits
    · exact .inr (swapped other member)
    · exact .inr (.inr gone)
  · exact fun other member => inv.later other (left other member)
  · intro other called pkt posted same late
    obtain ⟨unsent, place⟩ := inv.overtaken other called pkt posted same late
    refine ⟨unsent, ?_⟩
    rcases place with gone | ⟨member, listed⟩
    · exact .inl gone
    · exact (swapped other member).symm.imp_right fun left => ⟨left, listed⟩

/-- When a close comes to its turn, all that its thread has posted before it has been submitted. -/
theorem PendingInv.submitted_before {call : CloseCall} (inv : PendingInv p) (member : call ∈ p.tmpCloseList)
    (done : p.packets.tmpPktList = []) (registered : p.packets.conns call.handle = .registered conn)
    (isOpen : conn.isOpen = true) (posted : pkt ∈ p.packets.posted) (same : call.Same pkt)
    (early : pkt.serial < call.before) : pkt ∈ p.packets.submitted := by
  have empty := inv.lined.openEmpty call.handle conn registered isOpen
  have line := inv.lined.inLine call.thread call.handle conn registered
  rw [empty, done] at line
  simp only [List.append_nil] at line
  have own : mine call.thread call.handle pkt = true := by simp [mine, same.1, same.2]
  have inLine : pkt ∈ (p.packets.submitted ++ p.packets.pktList).filter (mine call.thread call.handle) := by
    rw [line]
    exact List.mem_filter.mpr ⟨posted, own⟩
  rcases List.mem_append.mp (List.mem_filter.mp inLine).1 with submitted | listed
  · exact submitted
  · exact absurd early (Nat.not_lt_of_le (inv.later call member pkt listed same))

theorem PendingInv.processClose (inv : PendingInv p) (done : p.packets.tmpPktList = []) : PendingInv p.processClose := by
  unfold Pending.processClose
  cases first : p.tmpCloseList with
  | nil => exact inv
  | cons call rest =>
    have member : call ∈ p.tmpCloseList := first ▸ List.mem_cons_self
    dsimp only
    split
    next conn registered =>
      have gone : (p.closeConn call.handle conn).packets.Gone call.handle := by
        intro other is
        have life : Life.closed { conn with isOpen := false } = .registered other := (if_pos rfl).symm.trans is
        cases life
      have closed := (inv.closeConn registered).dequeue first gone
      refine { closed with closed := ?_, before := ?_ }
      · intro closing noted
        rcases List.mem_append.mp noted with old | new
        · exact inv.closed closing old
        · rw [List.mem_singleton.mp new]
          exact inv.listed call (List.mem_append_right _ member)
      · intro closing noted isOpen pkt posted same early
        rcases List.mem_append.mp noted with old | new
        · exact inv.before closing old isOpen pkt posted same early
        · rw [List.mem_singleton.mp new] at isOpen same early ⊢
          exact inv.submitted_before member done registered isOpen posted same early
    next unregistered => exact inv.dequeue first fun conn is => unregistered conn is

/-! ## Runs -/

/-- A step with packets and connections does not fail, and ends with what holds after it. -/
theorem Pending.onPackets_of_wp {x : PostM Unit} {Q : Pending → Prop}
    (runs : wp x (fun _ t => Q { p with packets := t }) Never p.packets) : ∃ q, p.onPackets x = some q ∧ Q q := by
  obtain ⟨⟨⟩, t, ran, post⟩ := wp_never.mp runs
  refine ⟨{ p with packets := t }, ?_, post⟩
  rw [onPackets, ran]

theorem PendingInv.exec {step : PendingStep} (inv : PendingInv p) (meets : step.Meets p) :
    ∃ q, step.exec p = some q ∧ PendingInv q := by
  have safe := inv.owned.safe
  cases step with
  | register h isOpen =>
    apply Pending.onPackets_of_wp
    unfold Step.exec
    rw [wp_bind, wp_get]
    cases life : p.packets.conns h with
    | absent => exact inv.register life isOpen
    | registered => exact inv
    | closed => exact inv
    | destroyed => exact inv
  | onConfirm h =>
    apply Pending.onPackets_of_wp
    unfold Step.exec
    rw [wp_bind, wp_get]
    cases life : p.packets.conns h with
    | registered conn => exact (onConfirm_run safe life).call fun _ t is => is ▸ inv.confirm life
    | absent => exact inv
    | closed => exact inv
    | destroyed => exact inv
  | close h =>
    apply Pending.onPackets_of_wp
    unfold Step.exec
    rw [wp_bind, wp_get]
    cases life : p.packets.conns h with
    | registered conn => exact inv.closeConn life
    | absent => exact inv
    | closed => exact inv
    | destroyed => exact inv
  | destroy h =>
    apply Pending.onPackets_of_wp
    unfold Step.exec
    rw [wp_bind, wp_get]
    cases life : p.packets.conns h with
    | closed conn => exact (destroy_run safe life).call fun _ t is => is ▸ inv.destroy life
    | absent => exact inv
    | registered => exact inv
    | destroyed => exact inv
  | sendPkt thread h =>
    apply Pending.onPackets_of_wp
    unfold Step.exec
    rw [wp_bind, wp_get]
    cases life : p.packets.conns h with
    | absent => exact inv
    | registered => exact inv.sendPkt (by rw [life]; nofun) meets
    | closed => exact inv.sendPkt (by rw [life]; nofun) meets
    | destroyed => exact inv.sendPkt (by rw [life]; nofun) meets
  | closeHandle thread h =>
    simp only [PendingStep.exec]
    split
    · exact ⟨p, rfl, inv⟩
    · next known => exact ⟨_, rfl, inv.closeHandle thread known⟩
  | swap =>
    refine ⟨_, rfl, ?_⟩
    split
    next done => exact inv.swap done.1 done.2
    next => exact inv
  | processPkt =>
    apply Pending.onPackets_of_wp
    exact inv.processNext
  | processClose =>
    refine ⟨_, rfl, ?_⟩
    split
    next done => exact inv.processClose done
    next => exact inv

theorem PendingInv.init : PendingInv .init :=
  ⟨State.init_inv.owned, State.init_inv.lined, nofun, nofun, nofun, nofun, nofun, nofun, nofun, nofun, nofun⟩

/-- **The calls of a thread take effect in their order**, in every run in which no thread posts a packet for a
connection while its own close of it waits in `close_list`. -/
theorem program_order (steps : List PendingStep)
    (meets : AlongPartial PendingStep.exec (fun p step => step.Meets p) .init steps) :
    ∃ p, runPartial PendingStep.exec .init steps = some p ∧ InOrder p := by
  obtain ⟨p, ran, inv⟩ := runPartial_along (I := PendingInv) (fun p step inv meets => inv.exec meets) .init meets
  exact ⟨p, ran, .of_inv inv⟩

/-- A packet and a close, as one thread posts them. -/
theorem program_order_reply : ∃ p,
    runPartial PendingStep.exec .init [.register 1 true, .sendPkt (.other 0) 1, .closeHandle (.other 0) 1, .swap,
      .processPkt, .processClose] = some p ∧ InOrder p :=
  program_order _ ⟨trivial, fun _ is => ⟨.inr (by cases is; nofun), fun _ _ => ⟨trivial, fun _ _ => ⟨trivial, fun _ _ =>
    ⟨trivial, fun _ _ => ⟨trivial, fun _ _ => trivial⟩⟩⟩⟩⟩⟩

/-- A packet that is posted after a close of its own thread, before the loop swaps the lists, is sent first. -/
theorem not_program_order : ∃ p,
    runPartial PendingStep.exec .init [.register 1 true, .closeHandle (.other 0) 1, .sendPkt (.other 0) 1, .swap,
      .processPkt, .processClose] = some p ∧ ¬ InOrder p := by
  refine ⟨_, rfl, fun inOrder => ?_⟩
  have late := inOrder.after ⟨.other 0, 1, 0⟩ (by decide) ⟨0, 1, .other 0⟩ (by decide) ⟨rfl, rfl⟩
  exact absurd late (by decide)

end Netter.Posting
