import Mathlib.Logic.Function.Basic
import Netter.Accept.Model
import Netter.Posting.Closes

/-!
# From a handle to its loop

`SendPkt` and `CloseHandle` find the `EventLoop` and the `PendingEventMgr` of a handle with the remainder of the
handle by the number of I/O threads. It is a remainder of `int`s, so it is negative for a negative
handle that the number does not divide, and then there is neither a loop nor a manager in that place.
-/

namespace Netter.Posting

open Lib
open Accept (LoopId)

/-- `IoThreadResource<T>` after `Init`. -/
structure IoThreadResource (T : Type) where
  ioThreadNum : Int32
  /-- `main_thread_resource_` and the array `io_thread_resources_`. -/
  resource : LoopId → T

namespace IoThreadResource

variable {T : Type} (r : IoThreadResource T)

/-- There is such a resource: the array has `io_thread_num_` elements. -/
def Exists : LoopId → Prop
  | .main => True
  | .io index => (index : Int) < r.ioThreadNum.toInt

instance (l : LoopId) : Decidable (r.Exists l) := by
  unfold Exists
  cases l <;> infer_instance

/-- `GetIOResource(handle)`, or `none` for a pointer outside of the array. -/
def getIoResource (handle : NetHandle) : Option LoopId :=
  if 0 < r.ioThreadNum then
    let index := handle % r.ioThreadNum
    if 0 ≤ index ∧ r.Exists (.io index.toNatClampNeg) then some (.io index.toNatClampNeg) else none
  else some .main

def set (l : LoopId) (x : T) : IoThreadResource T := { r with resource := Function.update r.resource l x }

end IoThreadResource

structure EventLoop where
  threadId : Nat
  /-- The calls of `Wakeup`. -/
  wakeups : Nat

/-- The thread that calls, as seen from this loop (`IsInLoopThread`). -/
def EventLoop.thread (el : EventLoop) (caller : Nat) : Thread := if caller = el.threadId then .loop else .other caller

/-- `g_event_loops` and `g_pending_event_mgr`. -/
structure Routed where
  eventLoops : IoThreadResource EventLoop
  pendingEventMgr : IoThreadResource Pending

/-- `init_thread_event_loops` and `init_thread_base_conn` with the same number of threads. -/
def Routed.init (ioThreadNum : Int32) (threadId : LoopId → Nat) : Routed where
  eventLoops := ⟨ioThreadNum, fun l => ⟨threadId l, 0⟩⟩
  pendingEventMgr := ⟨ioThreadNum, fun _ => .init⟩

namespace Routed

variable (s : Routed)

def setPending (l : LoopId) (p : Pending) : Routed := { s with pendingEventMgr := s.pendingEventMgr.set l p }

/-- `Wakeup`. -/
def wakeup (l : LoopId) : Routed :=
  let el := s.eventLoops.resource l
  { s with eventLoops := s.eventLoops.set l { el with wakeups := el.wakeups + 1 } }

/-- `BaseConn::SendPkt(handle, pkt)` with a new packet. -/
def sendPkt (caller : Nat) (h : NetHandle) : Option Routed := do
  let el ← s.eventLoops.getIoResource h
  let mgr ← s.pendingEventMgr.getIoResource h
  let thread := (s.eventLoops.resource el).thread caller
  let pending ← (s.pendingEventMgr.resource mgr).onPackets (Posting.sendPkt thread h)
  let s := s.setPending mgr pending
  some (if thread = .loop then s else s.wakeup el)

/-- `BaseConn::CloseHandle(handle)`. -/
def closeHandle (caller : Nat) (h : NetHandle) : Option Routed := do
  let el ← s.eventLoops.getIoResource h
  let mgr ← s.pendingEventMgr.getIoResource h
  let thread := (s.eventLoops.resource el).thread caller
  let s := s.setPending mgr ((s.pendingEventMgr.resource mgr).closeHandle thread h)
  some (if thread = .loop then s else s.wakeup el)

/-- A step of a loop with its own manager; there are no other loops than those of `Exists`. -/
def inLoop (l : LoopId) (step : PendingStep) : Option Routed :=
  if s.pendingEventMgr.Exists l then (step.exec (s.pendingEventMgr.resource l)).map (s.setPending l) else some s

/-- A step of the loop that a socket belongs to; no socket has a handle that picks none. -/
def inLoopOf (h : NetHandle) (step : PendingStep) : Option Routed :=
  match s.pendingEventMgr.getIoResource h with
  | some l => s.inLoop l step
  | none => some s

end Routed

/-- A call by handle, of any thread and with any handle, or a step of a loop. -/
inductive RoutedStep where
  | sendPkt (caller : Nat) (handle : NetHandle)
  | closeHandle (caller : Nat) (handle : NetHandle)
  | register (handle : NetHandle) (isOpen : Bool)
  | onConfirm (handle : NetHandle)
  | close (handle : NetHandle)
  | destroy (handle : NetHandle)
  | swap (loop : LoopId)
  | processPkt (loop : LoopId)
  | processClose (loop : LoopId)

def RoutedStep.exec (s : Routed) : RoutedStep → Option Routed
  | .sendPkt caller h => s.sendPkt caller h
  | .closeHandle caller h => s.closeHandle caller h
  | .register h isOpen => s.inLoopOf h (.register h isOpen)
  | .onConfirm h => s.inLoopOf h (.onConfirm h)
  | .close h => s.inLoopOf h (.close h)
  | .destroy h => s.inLoopOf h (.destroy h)
  | .swap l => s.inLoop l .swap
  | .processPkt l => s.inLoop l .processPkt
  | .processClose l => s.inLoop l .processClose

/-! ## Safety for every handle -/

/-- What becomes of a packet whose turn has come. -/
structure Handled (s t : State) (pkt : Pkt) : Prop where
  /-- No connection is registered for it: it is deleted, once, and that is all. -/
  gone : s.Gone pkt.handle → t.conns = s.conns ∧ t.submitted = s.submitted ∧ t.freed = s.freed ++ [pkt] ∧
    t.freed.count pkt = 1
  /-- Only its connection is affected, and only it is sent or deleted. -/
  found : ∀ k ≠ pkt.handle, t.conns k = s.conns k
  sent : t.submitted = s.submitted ∨ t.submitted = s.submitted ++ [pkt]
  freed : t.freed = s.freed ∨ t.freed = s.freed ++ [pkt]

/-- What becomes of a close whose turn has come. -/
structure Closed (p q : Pending) (h : NetHandle) : Prop where
  gone : p.packets.Gone h → q.packets = p.packets
  found : ∀ k ≠ h, q.packets.conns k = p.packets.conns k
  kept : q.packets = { p.packets with conns := q.packets.conns }

/-- A call has reached a loop and the manager of the same index, and nothing else. -/
structure Reached (s t : Routed) (h : NetHandle) (l : LoopId) : Prop where
  eventLoop : s.eventLoops.getIoResource h = some l
  manager : s.pendingEventMgr.getIoResource h = some l
  loopExists : s.eventLoops.Exists l
  managerExists : s.pendingEventMgr.Exists l
  loops : ∀ other ≠ l, t.eventLoops.resource other = s.eventLoops.resource other
  managers : ∀ other ≠ l, t.pendingEventMgr.resource other = s.pendingEventMgr.resource other

/-- A step of a loop is one with its own manager. -/
structure Local (s t : Routed) (l : LoopId) : Prop where
  loops : t.eventLoops = s.eventLoops
  managers : ∀ other ≠ l, t.pendingEventMgr.resource other = s.pendingEventMgr.resource other

/-- `SendPkt` in the loop thread, or for the loop to take up later. -/
def SendsPkt (p q : Pending) (thread : Thread) (h : NetHandle) : Prop :=
  let pkt : Pkt := ⟨p.packets.next, h, thread⟩
  match thread with
  | .loop => Handled p.packets q.packets pkt
  | .other _ => q.packets = { p.packets.note [.posted pkt] with
      next := p.packets.next + 1, pktList := p.packets.pktList ++ [pkt] }

/-- `CloseHandle` in the loop thread, or for the loop to take up later. -/
def ClosesHandle (p q : Pending) (thread : Thread) (h : NetHandle) : Prop :=
  match thread with
  | .loop => Closed p q h
  | .other _ => q.packets = p.packets ∧ q.closeList = p.closeList ++ [⟨thread, h, p.packets.next⟩]

/-- A round of `loop_callback` for one packet. -/
def ProcessesPkt (p q : Pending) : Prop :=
  ∀ pkt rest, p.packets.tmpPktList = pkt :: rest → Handled p.packets q.packets pkt

/-- A round of `loop_callback` for one close. -/
def ProcessesClose (p q : Pending) : Prop :=
  ∀ call rest, p.tmpCloseList = call :: rest → Closed p q call.handle

/-- What a step does is safe. -/
def RoutedStep.Safe (s t : Routed) : RoutedStep → Prop
  | .sendPkt caller h => ∃ l, Reached s t h l ∧
      SendsPkt (s.pendingEventMgr.resource l) (t.pendingEventMgr.resource l) ((s.eventLoops.resource l).thread caller) h
  | .closeHandle caller h => ∃ l, Reached s t h l ∧
      ClosesHandle (s.pendingEventMgr.resource l) (t.pendingEventMgr.resource l)
        ((s.eventLoops.resource l).thread caller) h
  | .processPkt l => Local s t l ∧ (s.pendingEventMgr.Exists l →
      ProcessesPkt (s.pendingEventMgr.resource l) (t.pendingEventMgr.resource l))
  | .processClose l => Local s t l ∧ (s.pendingEventMgr.Exists l →
      ProcessesClose (s.pendingEventMgr.resource l) (t.pendingEventMgr.resource l))
  | _ => True

/-- Every step is defined and safe, and no packet is deleted twice. -/
def SafeRun : List RoutedStep → Routed → Prop
  | [], _ => True
  | step :: steps, s => ∃ t, step.exec s = some t ∧ step.Safe s t ∧
      (∀ l, (t.pendingEventMgr.resource l).packets.freed.Nodup) ∧ SafeRun steps t

/-- The remainder of a handle is not negative. -/
def RoutedStep.InRange (ioThreadNum : Int32) : RoutedStep → Prop
  | .sendPkt _ h | .closeHandle _ h => 0 < ioThreadNum → 0 ≤ h % ioThreadNum
  | _ => True

/-! ## The loop of a handle -/

section Resources

variable {T : Type} {r : IoThreadResource T} {h : NetHandle} {l k : LoopId} {x : T}

/-- The remainder is an index of the array unless it is negative. -/
theorem IoThreadResource.getIoResource_of_inRange (inRange : 0 < r.ioThreadNum → 0 ≤ h % r.ioThreadNum) :
    ∃ l, r.getIoResource h = some l ∧ r.Exists l := by
  unfold getIoResource
  split
  · next positive =>
    have nonneg := inRange positive
    have index := Int32.cast_toNatClampNeg _ nonneg
    have bound := Int.tmod_lt_of_pos h.toInt (Int32.lt_iff_toInt_lt.mp positive)
    rw [← Int32.toInt_mod, ← index] at bound
    have inside : r.Exists (.io (h % r.ioThreadNum).toNatClampNeg) := bound
    exact ⟨_, if_pos ⟨nonneg, inside⟩, inside⟩
  · exact ⟨.main, rfl, ⟨⟩⟩

theorem IoThreadResource.inRange_of_getIoResource (is : r.getIoResource h = some l) (positive : 0 < r.ioThreadNum) :
    0 ≤ h % r.ioThreadNum := by
  unfold getIoResource at is
  rw [if_pos positive] at is
  by_contra negative
  rw [if_neg fun inside => negative inside.1] at is
  exact nomatch is

/-- The remainder of a handle that has been given out. -/
theorem mod_of_nonneg {n : Int32} (nonneg : 0 ≤ h) (positive : 0 < n) :
    0 ≤ h % n ∧ (h % n).toNatClampNeg = h.toNatClampNeg % n.toNatClampNeg := by
  have isNonneg := Int32.le_iff_toInt_le.mp nonneg
  have num := Int32.lt_iff_toInt_lt.mp positive
  have mod : (h % n).toInt = h.toInt % n.toInt :=
    (Int32.toInt_mod _ _).trans (Int.tmod_eq_emod_of_nonneg isNonneg)
  constructor
  · rw [Int32.le_iff_toInt_le, mod]
    exact Int.emod_nonneg _ (Int.ne_of_gt num)
  · rw [← Int32.toNat_toInt, mod, Int.toNat_emod isNonneg (Int.le_of_lt num)]
    rfl

/-- A handle that has been given out picks the loop that its socket goes to. -/
theorem IoThreadResource.getIoResource_of_nonneg (nonneg : 0 ≤ h) :
    r.getIoResource h = some (Accept.getIoResource r.ioThreadNum.toNatClampNeg h) := by
  have signs : 0 < r.ioThreadNum ↔ 0 < r.ioThreadNum.toNatClampNeg := by
    rw [Int32.lt_iff_toInt_lt, ← Int32.toNat_toInt]
    exact Int.pos_iff_toNat_pos
  obtain ⟨l, is, -⟩ := getIoResource_of_inRange (r := r) fun positive => (mod_of_nonneg nonneg positive).1
  rw [is]
  unfold getIoResource at is
  unfold Accept.getIoResource
  by_cases positive : 0 < r.ioThreadNum
  · rw [if_pos positive] at is
    rw [if_pos (signs.mp positive), ← (mod_of_nonneg nonneg positive).2]
    dsimp only at is
    split at is
    · exact is.symm
    · cases is
  · rw [if_neg positive] at is
    rw [if_neg (mt signs.mpr positive)]
    exact is.symm

/-- The choice of the loop and of its manager is the same. -/
theorem IoThreadResource.getIoResource_congr {T' : Type} {r' : IoThreadResource T'}
    (same : r'.ioThreadNum = r.ioThreadNum) (h : NetHandle) : r'.getIoResource h = r.getIoResource h := by
  obtain ⟨ioThreadNum, resource⟩ := r
  obtain ⟨ioThreadNum', resource'⟩ := r'
  subst same
  rfl

@[simp] theorem IoThreadResource.set_ioThreadNum : (r.set l x).ioThreadNum = r.ioThreadNum := rfl

@[simp] theorem IoThreadResource.set_resource : (r.set l x).resource l = x := Function.update_self ..

theorem IoThreadResource.set_resource_ne (other : k ≠ l) : (r.set l x).resource k = r.resource k :=
  Function.update_of_ne other ..

end Resources

/-! ## One manager -/

variable {s t : State} {pkt : Pkt} {p q : Pending} {h : NetHandle}

theorem Processed.handled (owned : Owned [pkt] s) (processed : Processed s pkt t) : Handled s t pkt := by
  have notFreed : s.freed.count pkt = 0 := by
    have place := owned.place pkt
    have once := owned.once pkt
    rw [List.count_singleton_self] at place
    omega
  have once : (s.freed ++ [pkt]).count pkt = 1 := by
    rw [List.count_append, notFreed, List.count_singleton_self]
  cases processed with
  | submitted conn registered isOpen =>
    exact {
      gone := fun gone => absurd registered (gone conn)
      found := fun _ _ => rfl
      sent := .inr (s.note_submitted _)
      freed := .inr rfl }
  | waits conn registered connecting =>
    exact {
      gone := fun gone => absurd registered (gone conn)
      found := fun _ other => State.setLife_conns_ne _ _ other
      sent := .inl ((s.note_submitted _).trans (List.append_nil _))
      freed := .inl rfl }
  | dropped gone =>
    exact {
      gone := fun _ => ⟨rfl, rfl, rfl, once⟩
      found := fun _ _ => rfl
      sent := .inl rfl
      freed := .inr rfl }

theorem process_handled (owned : Owned [pkt] s) :
    wp (noteTurn pkt >>= fun _ => process pkt) (fun _ t => Owned [] t ∧ Handled s t pkt) Never s := by
  have live : pkt ∉ s.freed := by
    intro freed
    have place := owned.place pkt
    have once := owned.once pkt
    have positive := List.count_pos_iff.mpr freed
    rw [List.count_singleton_self] at place
    omega
  exact (process_spec live).call fun _ t processed => ⟨owned.processed processed, processed.handled owned⟩

/-- What `SendPkt` does with the packet before it looks for a connection changes none. -/
theorem Handled.of_posted {u : State} (handled : Handled u t pkt) (same : u.conns = s.conns)
    (submitted : u.submitted = s.submitted) (freed : u.freed = s.freed) : Handled s t pkt := by
  constructor
  · intro gone
    have result := handled.gone fun conn => by rw [same]; exact gone conn
    rwa [same, submitted, freed] at result
  · exact fun k other => by rw [handled.found k other, same]
  · rw [← submitted]
    exact handled.sent
  · rw [← freed]
    exact handled.freed

/-- `SendPkt` takes any handle. -/
theorem Owned.sendPkt (owned : Owned [] p.packets) (thread : Thread) (h : NetHandle) :
    ∃ q, p.onPackets (Posting.sendPkt thread h) = some q ∧ Owned [] q.packets ∧ SendsPkt p q thread h := by
  apply Pending.onPackets_of_wp
  unfold Posting.sendPkt record
  rw [wp_bind, wp_get, wp_bind, wp_modify, wp_bind, wp_modify]
  have fresh : (⟨p.packets.next, h, thread⟩ : Pkt).serial = p.packets.next := rfl
  have posted := owned.post fresh
  cases thread with
  | other number => exact ⟨posted.push, rfl⟩
  | loop =>
    refine (process_handled posted).call fun _ t ⟨kept, handled⟩ => ⟨kept, ?_⟩
    have submitted := (p.packets.note_submitted [.posted ⟨p.packets.next, h, .loop⟩]).trans (List.append_nil _)
    exact handled.of_posted rfl submitted rfl

theorem Owned.closeConn {conn : Conn} (owned : Owned [] p.packets) (registered : p.packets.conns h = .registered conn) :
    Owned [] (p.closeConn h conn).packets := owned.move (.close h conn registered)

theorem Closed.rfl (keeps : q.packets = p.packets) : Closed p q h :=
  ⟨fun _ => keeps, fun _ _ => by rw [keeps], by rw [keeps]⟩

theorem Closed.closeConn {conn : Conn} (registered : p.packets.conns h = .registered conn)
    (closes : q.packets = (p.closeConn h conn).packets) : Closed p q h := by
  constructor
  · exact fun gone => absurd registered (gone conn)
  · intro k other
    rw [closes]
    exact if_neg other
  · rw [closes]
    rfl

theorem Owned.closeHandle (owned : Owned [] p.packets) (thread : Thread) (h : NetHandle) :
    Owned [] (p.closeHandle thread h).packets ∧ ClosesHandle p (p.closeHandle thread h) thread h := by
  unfold Pending.closeHandle ClosesHandle
  cases thread with
  | other number => exact ⟨owned, rfl, rfl⟩
  | loop =>
    dsimp only
    split
    · next conn registered => exact ⟨owned.closeConn registered, .closeConn registered rfl⟩
    · exact ⟨owned, .rfl rfl⟩

theorem Owned.processPkt (owned : Owned [] p.packets) :
    ∃ q, PendingStep.processPkt.exec p = some q ∧ Owned [] q.packets ∧ ProcessesPkt p q := by
  apply Pending.onPackets_of_wp
  unfold Step.exec processNext ProcessesPkt
  rw [wp_bind, wp_get]
  cases first : p.packets.tmpPktList with
  | nil => exact ⟨owned, nofun⟩
  | cons pkt rest =>
    refine (process_handled (owned.next first)).call fun _ t ⟨kept, handled⟩ => ⟨kept, fun next more same => ?_⟩
    obtain ⟨head, -⟩ := List.cons.inj same
    rw [← head]
    exact handled.of_posted rfl rfl rfl

theorem Owned.processClose (owned : Owned [] p.packets) :
    Owned [] p.processClose.packets ∧ ProcessesClose p p.processClose := by
  unfold Pending.processClose ProcessesClose
  cases first : p.tmpCloseList with
  | nil => exact ⟨owned, nofun⟩
  | cons call rest =>
    have closed (q : Pending) (closed : Closed p q call.handle) :
        ∀ next more, call :: rest = next :: more → Closed p q next.handle := by
      intro next more same
      rw [← (List.cons.inj same).1]
      exact closed
    dsimp only
    split
    · next conn registered => exact ⟨owned.closeConn registered, closed _ (.closeConn registered rfl)⟩
    · exact ⟨owned, closed _ (.rfl rfl)⟩

/-- The steps of the loop that are not about one packet or one close. -/
theorem Owned.step (owned : Owned [] p.packets) (step : Step) : ∃ q, p.onPackets step.exec = some q ∧ Owned [] q.packets := by
  apply Pending.onPackets_of_wp
  exact (step_spec owned.safe step).call fun _ t move => owned.move move

theorem Owned.swapBoth (owned : Owned [] p.packets) :
    ∃ q, PendingStep.swap.exec p = some q ∧ Owned [] q.packets := by
  refine ⟨_, rfl, ?_⟩
  split
  · next done => exact owned.swap done.1
  · exact owned

/-! ## All managers -/

/-- Both resources have been initialised with `n` threads, and each packet has one place in its manager. -/
structure RoutedInv (n : Int32) (s : Routed) : Prop where
  loops : s.eventLoops.ioThreadNum = n
  managers : s.pendingEventMgr.ioThreadNum = n
  owned : ∀ l, Owned [] (s.pendingEventMgr.resource l).packets

variable {n : Int32} {l : LoopId} {r : Routed}

theorem RoutedInv.init (n : Int32) (threadId : LoopId → Nat) : RoutedInv n (.init n threadId) :=
  ⟨rfl, rfl, fun _ => PendingInv.init.owned⟩

theorem RoutedInv.setPending (inv : RoutedInv n r) (l : LoopId) (owned : Owned [] q.packets) :
    RoutedInv n (r.setPending l q) := by
  refine ⟨inv.loops, inv.managers, fun k => ?_⟩
  by_cases same : k = l
  · subst same
    rw [Routed.setPending, IoThreadResource.set_resource]
    exact owned
  · rw [Routed.setPending, IoThreadResource.set_resource_ne same]
    exact inv.owned k

theorem Local.setPending : Local r (r.setPending l q) l := ⟨rfl, fun _ other => IoThreadResource.set_resource_ne other⟩

theorem RoutedInv.nodup (inv : RoutedInv n r) (l : LoopId) : (r.pendingEventMgr.resource l).packets.freed.Nodup := by
  refine List.nodup_iff_count_le_one.mpr fun pkt => ?_
  have place := (inv.owned l).place pkt
  have once := (inv.owned l).once pkt
  omega

/-- Where a call by handle goes: to a loop and a manager of one index, that are there. -/
theorem RoutedInv.route (inv : RoutedInv n r) (inRange : 0 < n → 0 ≤ h % n) :
    ∃ l, r.eventLoops.getIoResource h = some l ∧ r.pendingEventMgr.getIoResource h = some l ∧
      r.eventLoops.Exists l ∧ r.pendingEventMgr.Exists l := by
  have same : r.pendingEventMgr.ioThreadNum = r.eventLoops.ioThreadNum := inv.managers.trans inv.loops.symm
  obtain ⟨l, loop, inside⟩ := r.eventLoops.getIoResource_of_inRange (h := h) (by rw [inv.loops]; exact inRange)
  have manager := (IoThreadResource.getIoResource_congr same h).trans loop
  have insideToo : r.pendingEventMgr.Exists l := by
    unfold IoThreadResource.Exists at inside ⊢
    rwa [same]
  exact ⟨l, loop, manager, inside, insideToo⟩

/-- The end of a call by handle: the manager has changed, and a loop in another thread is woken up. -/
def Routed.finish (s : Routed) (l : LoopId) (q : Pending) (inLoop : Prop) [Decidable inLoop] : Routed :=
  if inLoop then s.setPending l q else (s.setPending l q).wakeup l

section Finish

variable {inLoop : Prop} [Decidable inLoop]

theorem RoutedInv.finish (inv : RoutedInv n r) (owned : Owned [] q.packets) : RoutedInv n (r.finish l q inLoop) := by
  have set := inv.setPending l owned
  unfold Routed.finish
  split
  · exact set
  · exact ⟨set.loops, set.managers, set.owned⟩

@[simp] theorem Routed.finish_resource : (r.finish l q inLoop).pendingEventMgr.resource l = q := by
  unfold Routed.finish Routed.setPending Routed.wakeup
  split
  · exact IoThreadResource.set_resource
  · exact IoThreadResource.set_resource

theorem Reached.finish (loop : r.eventLoops.getIoResource h = some l) (manager : r.pendingEventMgr.getIoResource h = some l)
    (loopExists : r.eventLoops.Exists l) (managerExists : r.pendingEventMgr.Exists l) :
    Reached r (r.finish l q inLoop) h l := by
  refine ⟨loop, manager, loopExists, managerExists, fun other differs => ?_, fun other differs => ?_⟩
  · unfold Routed.finish Routed.setPending Routed.wakeup
    split
    · rfl
    · exact IoThreadResource.set_resource_ne differs
  · unfold Routed.finish Routed.setPending Routed.wakeup
    split
    · exact IoThreadResource.set_resource_ne differs
    · exact IoThreadResource.set_resource_ne differs

end Finish

/-- A step of a loop with its own manager. -/
theorem RoutedInv.inLoop {step : PendingStep} {Q : Pending → Prop} (inv : RoutedInv n r)
    (steps : ∃ q, step.exec (r.pendingEventMgr.resource l) = some q ∧ Owned [] q.packets ∧ Q q) :
    ∃ t, r.inLoop l step = some t ∧
      (Local r t l ∧ (r.pendingEventMgr.Exists l → Q (t.pendingEventMgr.resource l))) ∧ RoutedInv n t := by
  obtain ⟨q, execs, owned, post⟩ := steps
  unfold Routed.inLoop
  by_cases inside : r.pendingEventMgr.Exists l
  · rw [if_pos inside, execs]
    refine ⟨r.setPending l q, rfl, ⟨.setPending, fun _ => ?_⟩, inv.setPending l owned⟩
    rw [Routed.setPending, IoThreadResource.set_resource]
    exact post
  · rw [if_neg inside]
    exact ⟨r, rfl, ⟨⟨rfl, fun _ _ => rfl⟩, fun there => absurd there inside⟩, inv⟩

theorem RoutedInv.inLoopOf (inv : RoutedInv n r) (h : NetHandle) (step : PendingStep)
    (steps : ∀ p, Owned [] p.packets → ∃ q, step.exec p = some q ∧ Owned [] q.packets) :
    ∃ t, r.inLoopOf h step = some t ∧ RoutedInv n t := by
  unfold Routed.inLoopOf
  split
  · next l is =>
    obtain ⟨q, execs, owned⟩ := steps _ (inv.owned l)
    obtain ⟨t, done, -, kept⟩ := inv.inLoop (Q := fun _ => True) ⟨q, execs, owned, ⟨⟩⟩
    exact ⟨t, done, kept⟩
  · exact ⟨r, rfl, inv⟩

/-- A step whose call is in range is defined and safe. -/
theorem RoutedInv.exec {step : RoutedStep} (inv : RoutedInv n r) (inRange : step.InRange n) :
    ∃ t, step.exec r = some t ∧ step.Safe r t ∧ RoutedInv n t := by
  cases step with
  | sendPkt caller h =>
    obtain ⟨l, loop, manager, loopExists, managerExists⟩ := inv.route inRange
    obtain ⟨q, sends, owned, post⟩ := (inv.owned l).sendPkt ((r.eventLoops.resource l).thread caller) h
    refine ⟨r.finish l q ((r.eventLoops.resource l).thread caller = .loop), ?_, ⟨l, ?_, ?_⟩, inv.finish owned⟩
    · simp only [RoutedStep.exec, Routed.sendPkt, loop, manager, sends, Option.bind_eq_bind, Option.bind_some]
      rfl
    · exact .finish loop manager loopExists managerExists
    · rw [Routed.finish_resource]
      exact post
  | closeHandle caller h =>
    obtain ⟨l, loop, manager, loopExists, managerExists⟩ := inv.route inRange
    obtain ⟨owned, post⟩ := (inv.owned l).closeHandle ((r.eventLoops.resource l).thread caller) h
    refine ⟨r.finish l _ ((r.eventLoops.resource l).thread caller = .loop), ?_, ⟨l, ?_, ?_⟩, inv.finish owned⟩
    · simp only [RoutedStep.exec, Routed.closeHandle, loop, manager, Option.bind_eq_bind, Option.bind_some]
      rfl
    · exact .finish loop manager loopExists managerExists
    · rw [Routed.finish_resource]
      exact post
  | register h isOpen =>
    obtain ⟨t, done, kept⟩ := inv.inLoopOf h (.register h isOpen) fun p owned => owned.step (.register h isOpen)
    exact ⟨t, done, ⟨⟩, kept⟩
  | onConfirm h =>
    obtain ⟨t, done, kept⟩ := inv.inLoopOf h (.onConfirm h) fun p owned => owned.step (.onConfirm h)
    exact ⟨t, done, ⟨⟩, kept⟩
  | close h =>
    obtain ⟨t, done, kept⟩ := inv.inLoopOf h (.close h) fun p owned => owned.step (.close h)
    exact ⟨t, done, ⟨⟩, kept⟩
  | destroy h =>
    obtain ⟨t, done, kept⟩ := inv.inLoopOf h (.destroy h) fun p owned => owned.step (.destroy h)
    exact ⟨t, done, ⟨⟩, kept⟩
  | swap l =>
    obtain ⟨q, execs, owned⟩ := (inv.owned l).swapBoth
    obtain ⟨t, done, -, kept⟩ := inv.inLoop (Q := fun _ => True) ⟨q, execs, owned, ⟨⟩⟩
    exact ⟨t, done, ⟨⟩, kept⟩
  | processPkt l => exact inv.inLoop (inv.owned l).processPkt
  | processClose l =>
    refine inv.inLoop ⟨_, rfl, ?_⟩
    split
    · exact (inv.owned l).processClose
    · exact ⟨inv.owned l, fun call rest _ => .rfl rfl⟩

theorem RoutedInv.inRange {step : RoutedStep} {t : Routed} (inv : RoutedInv n r) (execs : step.exec r = some t) :
    step.InRange n := by
  cases step with
  | sendPkt caller h =>
    intro positive
    rw [← inv.loops] at positive ⊢
    obtain ⟨l, loop, -⟩ := Option.bind_eq_some_iff.mp execs
    exact IoThreadResource.inRange_of_getIoResource loop positive
  | closeHandle caller h =>
    intro positive
    rw [← inv.loops] at positive ⊢
    obtain ⟨l, loop, -⟩ := Option.bind_eq_some_iff.mp execs
    exact IoThreadResource.inRange_of_getIoResource loop positive
  | _ => exact ⟨⟩

theorem RoutedInv.safeRun_iff {steps : List RoutedStep} (inv : RoutedInv n r) :
    SafeRun steps r ↔ ∀ step ∈ steps, step.InRange n := by
  induction steps generalizing r with
  | nil => exact iff_of_true ⟨⟩ nofun
  | cons step steps ih =>
    rw [List.forall_mem_cons]
    constructor
    · rintro ⟨t, execs, -, -, rest⟩
      have inRange := inv.inRange execs
      obtain ⟨u, same, -, kept⟩ := inv.exec inRange
      rw [Option.some.inj (same.symm.trans execs)] at kept
      exact ⟨inRange, (ih kept).mp rest⟩
    · rintro ⟨inRange, rest⟩
      obtain ⟨t, execs, safe, kept⟩ := inv.exec inRange
      exact ⟨t, execs, safe, kept.nodup, (ih kept).mpr rest⟩

/-- **The calls by handle are safe** exactly when the remainder of each handle is not negative: for each number of
threads, and each order of calls and steps. -/
theorem by_handle_safe_iff (n : Int32) (threadId : LoopId → Nat) (steps : List RoutedStep) :
    SafeRun steps (.init n threadId) ↔ ∀ step ∈ steps, step.InRange n := (RoutedInv.init n threadId).safeRun_iff

/-- With two I/O threads, `CloseHandle` with the handle of a closed connection looks for a manager in front of
the array. -/
theorem not_by_handle_safe : ¬ SafeRun [.closeHandle 1 (-1)] (.init 2 fun _ => 0) := by
  rintro ⟨t, execs, -⟩
  have fails : (RoutedStep.closeHandle 1 (-1)).exec (.init 2 fun _ => 0) = none := rfl
  exact nomatch fails.symm.trans execs

end Netter.Posting
