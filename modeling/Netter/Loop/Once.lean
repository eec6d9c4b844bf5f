import Netter.Loop.Lifetime

/-!
# Closed and destroyed once

A connection is made by `Connect`, by the registration of an accepted socket, or by a listener of the loop itself, and is then
open. It is closed by the step in which a `CLOSE` callback comes, `recv` returns 0, a packet is malformed
or its override throws, the connection has been silent for too long, an override calls `Close`, or a close has been posted.
After the step its two objects are destroyed, and it is never opened again.
-/

namespace Netter.Loop

open Lib

/-- The tables agree with the connection, and what ends a connection has happened once if it is closed and
not at all before. -/
structure InStep (s : Slot) : Prop where
  connMap : s.inConnMap = s.connOpen
  socketMap : s.inSocketMapAsConn = s.connOpen
  running : s.connClosed = false → s.tally = .zero
  closed : s.connClosed = true → s.socket = .freed ∧ s.conn = .freed ∧ s.tally = ⟨1, 1, 1, 1⟩
  /-- A `CLOSE` callback closes its connection. -/
  closeSeen : s.closeSeen = true → s.connClosed = true

def Slot.socketState (s : Slot) : SocketState :=
  match s.socket with
  | .live socket => socket.state
  | _ => .closing

/-- The step closes the connection of `h`. -/
def Step.closes (w : World) (h : NetHandle) : Step → Bool
  | .dispatch ready => ready.handle = h && ready.closes (w.slot h).socketState
  | .timer visits => visits.any fun v => v.handle = h && (v.timedOut || 0 < v.closes)
  | .posted _ closes => closes.any (· = h)
  | _ => false

/-- The step makes the connection of `h`. -/
def Step.opens (w : World) (h : NetHandle) : Step → Bool
  | .connect k => k = h && (w.slot h).isFresh
  | .register k => k = h && (w.slot h).isFresh
  | .dispatch ready => (w.slot ready.handle).inSocketMap && (w.slot ready.handle).socketState = .listening &&
      ready.input.any (h ∈ ·.accepted) && (w.slot h).isFresh
  | _ => false

/-- What a step does with the connection of a handle. -/
structure Stepped (step : Step) (w w' : World) (h : NetHandle) : Prop where
  opened : step.opens w h = true → (w'.slot h).connOpen = true
  closed : (w.slot h).connOpen = true → step.closes w h = true → (w'.slot h).connClosed = true
  stays : (w.slot h).connClosed = true → (w'.slot h).connClosed = true

variable {h : NetHandle} {entries : List NetHandle} {conns : List Known} {s : Slot} {w : World}

theorem Fit.inStep (fit : Fit h 0 0 0 s) : InStep s := by
  cases fit with
  | fresh => exact ⟨rfl, rfl, fun _ => rfl, nofun, nofun⟩
  | listener => exact ⟨rfl, rfl, fun _ => rfl, nofun, nofun⟩
  | up => exact ⟨rfl, rfl, fun _ => rfl, nofun, nofun⟩
  | down => exact ⟨rfl, rfl, nofun, fun _ => ⟨rfl, rfl, rfl⟩, fun _ => rfl⟩

theorem Fit.closed_iff (fit : Fit h 0 0 0 s) : s.connClosed = true ↔ s.conn.isAbsent = false ∧ s.inSocketMap = false := by
  cases fit with
  | fresh => exact ⟨nofun, nofun⟩
  | listener => exact ⟨nofun, nofun⟩
  | up => exact ⟨nofun, nofun⟩
  | down => exact ⟨fun _ => ⟨rfl, rfl⟩, fun _ => rfl⟩

theorem Fit.open_registered (fit : Fit h 0 0 0 s) (isOpen : s.connOpen = true) :
    s.conn.isAbsent = false ∧ s.inSocketMap = true := by
  cases fit with
  | fresh => cases isOpen
  | listener => cases isOpen
  | up => exact ⟨rfl, rfl⟩
  | down => cases isOpen

/-- A connection that the table of the connections does not know has no socket in the map either. -/
theorem Fit.unmapped {e f n : Nat} (fit : Fit h e f n s) (made : s.conn.isAbsent = false) (unmapped : ¬ s.inConnMap = true) :
    s.inSocketMap = false := by
  cases fit with
  | fresh => cases made
  | listener => cases made
  | up => exact absurd rfl unmapped
  | down => rfl

/-- A connection that has been made is one that can be said to be closed. -/
theorem Inv.know (inv : Inv quiet entries [] w) (made : (w.slot h).conn.isAbsent = false) :
    Inv quiet entries [⟨h, false⟩] w := by
  refine ⟨inv.fit, inv.pending, inv.used, inv.crossings, inv.dispatched, fun k member => ?_⟩
  obtain rfl := List.mem_singleton.mp member
  exact ⟨made, nofun⟩

theorem Inv.kept (inv : Inv quiet entries conns w) (made : (w.slot h).conn.isAbsent = false)
    (mapped : (w.slot h).inSocketMap = true) :
    Calm (w.slot h).socketState ∧ w.Kept h (· = (w.slot h).socketState) := by
  rcases inv.listens_or_kept mapped with listens | ⟨state, calm, kept⟩
  · rw [listens.absent] at made
    cases made
  · obtain ⟨socket, live, is⟩ := kept.state mapped
    have same : (w.slot h).socketState = state := by
      rw [Slot.socketState, live]
      exact is
    rw [same]
    exact ⟨calm, kept⟩

/-! ## What closes a connection -/

theorem visits_close (visits : List Visit) (inv : Inv quiet entries conns w) (known : ⟨h, false⟩ ∈ conns) :
    wp (visits.forM visit) (fun _ => Inv quiet entries
      (ended h (visits.any fun v => v.handle = h && (v.timedOut || 0 < v.closes)) conns)) Never w := by
  induction visits generalizing conns w with
  | nil => exact inv
  | cons v visits ih =>
    rw [wp_forM_cons, List.any_cons]
    have made := (inv.known _ known).made
    have first : wp (visit v) (fun _ => Inv quiet entries
        (ended h (decide (v.handle = h) && (v.timedOut || 0 < v.closes)) conns)) Never w := by
      by_cases at_h : v.handle = h
      · subst at_h
        rw [decide_eq_true rfl, Bool.true_and]
        by_cases mapped : (w.slot v.handle).inSocketMap = true
        · obtain ⟨calm, kept⟩ := inv.kept made mapped
          exact visit_conn v calm kept inv
        · exact visit_inv v (inv.ended _ made (by simpa using mapped))
      · rw [decide_eq_false at_h, Bool.false_and]
        exact visit_inv v inv
    refine first.call fun _ w inv => ?_
    refine (ih inv ?_).call fun _ _ inv => inv.also
    unfold ended
    split
    · exact List.mem_cons_of_mem _ known
    · exact known

theorem closeHandle_close (inv : Inv quiet entries conns w) (known : ⟨h, false⟩ ∈ conns) :
    wp (closeHandle h) (fun _ => Inv quiet entries (ended h true conns)) Never w := by
  have fit : Fit h 0 0 0 (w.slot h) := inv.fit h
  have made := (inv.known _ known).made
  unfold closeHandle
  rw [wp_bind, wp_get, wp_ite]
  split
  · next mapped =>
    obtain ⟨conn, live⟩ := fit.conn_live_of_inConnMap mapped
    refine (close_inv inv live).call fun _ w gone => ?_
    exact gone.1.ended true (gone.1.known _ known).made gone.2
  · next unmapped =>
    exact inv.ended true made (fit.unmapped made unmapped)

theorem closes_close (closes : List NetHandle) (inv : Inv quiet entries conns w) (known : ⟨h, false⟩ ∈ conns) :
    wp (closes.forM closeHandle) (fun _ => Inv quiet entries (ended h (closes.any (· = h)) conns)) Never w := by
  induction closes generalizing conns w with
  | nil => exact inv
  | cons k closes ih =>
    rw [wp_forM_cons, List.any_cons]
    have first : wp (closeHandle k) (fun _ => Inv quiet entries (ended h (decide (k = h)) conns)) Never w := by
      by_cases at_h : k = h
      · subst at_h
        rw [decide_eq_true rfl]
        exact closeHandle_close inv known
      · rw [decide_eq_false at_h]
        exact closeHandle_inv inv
    refine first.call fun _ w inv => ?_
    refine (ih inv ?_).call fun _ _ inv => inv.also
    unfold ended
    split
    · exact List.mem_cons_of_mem _ known
    · exact known

/-- A step that closes a connection leaves it closed. -/
theorem step_closes (step : Step) (inv : Inv quiet [] conns w) (known : ⟨h, false⟩ ∈ conns)
    (mapped : (w.slot h).inSocketMap = true) :
    wp step.exec (fun _ => Inv quiet [] (ended h (step.closes w h) conns)) Never w := by
  have made := (inv.known _ known).made
  cases step with
  | listen k => exact step_inv (.listen k) inv
  | connect k => exact step_inv (.connect k) inv
  | register k => exact step_inv (.register k) inv
  | timer visits => exact visits_close visits inv known
  | posted pkts closes =>
    unfold Step.exec
    rw [wp_bind]
    refine (wp_forM (fun h _ _ inv => sendPosted_inv h inv) inv).call fun _ w inv => ?_
    exact closes_close closes inv known
  | dispatch ready =>
    by_cases at_h : ready.handle = h
    · subst at_h
      obtain ⟨calm, kept⟩ := inv.kept made mapped
      have closes : (Step.dispatch ready).closes w ready.handle = ready.closes (w.slot ready.handle).socketState := by
        rw [Step.closes, decide_eq_true rfl, Bool.true_and]
      unfold Step.exec
      rw [closes, wp_bind, wp_get, wp_ite, if_pos mapped]
      exact dispatch_conn calm mapped kept inv
    · have stays : (Step.dispatch ready).closes w h = false := by
        rw [Step.closes, decide_eq_false at_h, Bool.false_and]
      rw [stays]
      exact step_inv (.dispatch ready) inv

/-! ## What opens a connection -/

/-- A listener, whose callback tells no connection anything, and what is said of another handle. -/
structure Beside (k h : NetHandle) (P : Slot → Prop) (w : World) : Prop where
  listener : ∃ socket, (w.slot k).socket = .live socket ∧ socket.callback = .connectCallback
  other : P (w.slot h)

/-- The handle is new, or its connection has just been made. -/
def Slot.Starts (s : Slot) : Prop := s = .fresh ∨ s.connOpen = true

def Slot.IsOpen (s : Slot) : Prop := s.connOpen = true

variable {k : NetHandle} {P : Slot → Prop}

theorem wp_setSocket {socket : Socket} {Q : Unit → World → Prop} {E : Stop → World → Prop} (f : Socket → Socket)
    (live : (w.slot k).socket = .live socket) :
    wp (atSlot k (derefSocket >>= fun socket => setSocket (f socket))) Q E w ↔
      Q ⟨⟩ (w.setSlot k { w.slot k with socket := .live (f socket) }) := by
  simp only [atSlot, wp_zoom, derefSocket, setSocket, live, Cell.get, wp_bind, wp_get, wp_ofExcept_ok, wp_modify]

theorem Beside.setSocket (beside : Beside k h P w) (differs : h ≠ k) {socket : Socket}
    (is : socket.callback = .connectCallback) : Beside k h P (w.setSlot k { w.slot k with socket := .live socket }) := by
  refine ⟨⟨socket, ?_, is⟩, ?_⟩
  · rw [World.setSlot_slot]
  · rw [World.setSlot_slot_ne w _ differs]
    exact beside.other

theorem setState_beside (state : SocketState) (differs : h ≠ k) : Keeps (Beside k h P) (atSlot k (setState state)) := by
  intro w beside
  obtain ⟨socket, live, is⟩ := beside.listener
  exact (wp_setSocket (fun socket => { socket with state }) live).mpr (beside.setSocket differs is)

theorem callback_beside (msg : Msg) (after : List Act) : Keeps (Beside k h P) (callback k msg after) := by
  intro w beside
  obtain ⟨socket, live, is⟩ := beside.listener
  unfold callback
  rw [wp_bind, wp_atSlot_derefSocket live, is]
  exact beside

theorem socketOnClose_beside (after : List Act) (differs : h ≠ k) : Keeps (Beside k h P) (socketOnClose k after) := by
  intro w beside
  obtain ⟨socket, live, -⟩ := beside.listener
  unfold socketOnClose
  rw [wp_bind, wp_atSlot_derefSocket live, wp_ite]
  split
  · exact beside
  · exact ((setState_beside .closing differs).bind fun _ => callback_beside _ _) w beside

theorem socketOnWrite_beside (output : Output) (differs : h ≠ k) : Keeps (Beside k h P) (socketOnWrite k output) := by
  intro w beside
  obtain ⟨socket, live, -⟩ := beside.listener
  unfold socketOnWrite
  rw [wp_bind, wp_atSlot_derefSocket live]
  split
  · rw [wp_ite]
    split
    · exact callback_beside _ _ w beside
    · rw [wp_ite]
      split
      · exact socketOnClose_beside _ differs w beside
      · exact ((setState_beside .connected differs).bind fun _ => callback_beside _ _) w beside
  · exact callback_beside _ _ w beside
  · exact beside

theorem Slot.used_of_connOpen (isOpen : s.connOpen = true) : s.isFresh = false := by
  obtain ⟨socket, conn, inSocketMap, inConnMap, tally, closeSeen⟩ := s
  cases conn with
  | live => exact Bool.and_false _
  | absent => cases isOpen
  | freed => cases isOpen

/-- A handle that no socket has yet. -/
theorem wp_create {op : SlotM Unit} {Q : Unit → World → Prop} {E : Stop → World → Prop} (fresh : w.slot h = .fresh) :
    wp (create h op) Q E w ↔ wp op (fun _ t => Q ⟨⟩ (w.setSlot h t)) (fun e t => E e (w.setSlot h t)) .fresh := by
  rw [create, wp_bind, wp_get, wp_ite, fresh, if_pos (show Slot.fresh.isFresh = true from rfl), atSlot, wp_zoom, fresh]

/-- A socket that is accepted under a new handle gets its connection. -/
theorem accept_opens (beside : Beside k h Slot.Starts w) (differs : h ≠ k) :
    wp (create h (acceptSocket .connectCallback h)) (fun _ => Beside k h Slot.IsOpen) (fun _ _ => True) w := by
  obtain ⟨⟨socket, live, is⟩, starts⟩ := beside
  rcases starts with fresh | isOpen
  · have made : wp (acceptSocket .connectCallback h) (fun _ t => t.IsOpen) Never .fresh := rfl
    rw [wp_create fresh]
    refine made.call fun _ t isOpen => ⟨⟨socket, ?_, is⟩, ?_⟩
    · rw [World.setSlot_slot_ne w t differs.symm]
      exact live
    · rw [World.setSlot_slot]
      exact isOpen
  · rw [create, wp_bind, wp_get, wp_ite, Slot.used_of_connOpen isOpen, if_neg Bool.false_ne_true]
    exact ⟨⟨socket, live, is⟩, isOpen⟩

theorem create_beside {op : SlotM Unit} {j : NetHandle} (kept : Keeps (fun w : World => P (w.slot h)) (create j op)) :
    Keeps (Beside k h P) (create j op) := by
  intro w beside
  obtain ⟨⟨socket, live, is⟩, there⟩ := beside
  have used : (w.slot k).isFresh = false := by
    rw [Slot.isFresh, live]
    rfl
  refine ((create_other used).and (kept w there)).mono (fun _ t both => ⟨⟨socket, ?_, is⟩, both.2⟩) fun _ _ h => h.1
  rw [both.1]
  exact live

theorem create_ne {op : SlotM Unit} {j : NetHandle} (differs : h ≠ j) : Keeps (fun w : World => P (w.slot h)) (create j op) := by
  intro w there
  rw [create, wp_bind, wp_get, wp_ite]
  split
  · exact atSlot_ne differs w there
  · exact there

theorem create_open {op : SlotM Unit} {j : NetHandle} : Keeps (fun w : World => (w.slot h).IsOpen) (create j op) := by
  intro w isOpen
  refine (create_other (Slot.used_of_connOpen isOpen)).mono (fun _ t same => ?_) fun _ _ h => h
  rw [same]
  exact isOpen

theorem accepts_open {callback : CallbackFn} (is : callback = .connectCallback) (accepted : List NetHandle)
    (beside : Beside k h Slot.Starts w) (differs : h ≠ k) (member : h ∈ accepted) :
    wp (accepted.forM fun j => create j (acceptSocket callback j)) (fun _ => Beside k h Slot.IsOpen) (fun _ _ => True) w := by
  subst is
  induction accepted generalizing w with
  | nil => cases member
  | cons j accepted ih =>
    rw [wp_forM_cons]
    by_cases at_h : h = j
    · subst at_h
      refine (accept_opens beside differs).mono (fun _ w beside => ?_) fun _ _ h => h
      exact wp_forM (fun j _ w beside => create_beside create_open w beside) beside
    · refine (create_beside (create_ne at_h) w beside).mono (fun _ w beside => ?_) fun _ _ h => h
      exact ih beside (List.mem_of_ne_of_mem at_h member)

/-- A listener opens what it accepts. -/
theorem dispatch_accepts {ready : Ready} {input : Input} (arrives : ready.input = some input) (member : h ∈ input.accepted)
    (beside : Beside ready.handle h Slot.Starts w) (listening : (w.slot ready.handle).socketState = .listening)
    (differs : h ≠ ready.handle) : wp (dispatch ready) (fun _ w => (w.slot h).IsOpen) (fun _ _ => True) w := by
  obtain ⟨socket, live, is⟩ := beside.listener
  have state : socket.state = .listening := by
    rw [Slot.socketState, live] at listening
    exact listening
  have same : ({ socket with refCount := socket.refCount + 1 } : Socket).callback = .connectCallback := is
  have referenced := beside.setSocket differs same
  unfold dispatch
  rw [wp_bind]
  refine (wp_setSocket (fun socket => { socket with refCount := socket.refCount + 1 }) live).mpr ?_
  rw [arrives, wp_bind]
  have opens : wp (socketOnRead ready.handle input) (fun _ => Beside ready.handle h Slot.IsOpen) (fun _ _ => True)
      (w.setSlot ready.handle { w.slot ready.handle with socket := .live { socket with refCount := socket.refCount + 1 } }) := by
    unfold socketOnRead
    rw [wp_bind, wp_atSlot_derefSocket (by rw [World.setSlot_slot]), wp_ite, if_pos state]
    exact accepts_open is _ referenced differs member
  refine opens.mono (fun _ w beside => ?_) fun _ _ h => h
  rw [wp_bind]
  refine (wp_option_forM (fun output _ => socketOnWrite_beside output differs _ beside) beside).mono (fun _ w beside => ?_) fun _ _ h => h
  rw [wp_bind]
  refine (wp_option_forM (fun after _ => socketOnClose_beside after differs _ beside) beside).mono (fun _ w beside => ?_) fun _ _ h => h
  exact atSlot_ne differs w beside.other

theorem Inv.listener (inv : Inv quiet entries conns w) (mapped : (w.slot k).inSocketMap = true)
    (listening : (w.slot k).socketState = .listening) :
    ∃ socket, (w.slot k).socket = .live socket ∧ socket.callback = .connectCallback := by
  rcases inv.listens_or_kept mapped with listens | ⟨state, calm, kept⟩
  · exact (inv.fit k).connect_callback listens
  · obtain ⟨socket, live, is⟩ := kept.state mapped
    rw [Slot.socketState, live] at listening
    exact absurd (is ▸ listening) calm.not_listening

/-- A step that makes a connection leaves it open. -/
theorem step_opens (step : Step) (inv : Inv quiet [] conns w) (opens : step.opens w h = true) :
    wp step.exec (fun _ w => (w.slot h).connOpen = true) Never w := by
  have creates {op : SlotM Unit} (made : wp op (fun _ t => t.connOpen = true) Never .fresh) (fresh : (w.slot h).isFresh = true) :
      wp (create h op) (fun _ w => (w.slot h).connOpen = true) Never w := by
    obtain ⟨-, -, -, eq⟩ := (inv.fit h).eq_fresh fresh
    rw [wp_create eq]
    refine made.call fun _ t isOpen => ?_
    rw [World.setSlot_slot]
    exact isOpen
  unfold Step.opens at opens
  cases step with
  | connect k =>
    obtain ⟨same, fresh⟩ := Bool.and_eq_true_iff.mp opens
    obtain rfl := of_decide_eq_true same
    exact creates rfl fresh
  | register k =>
    obtain ⟨same, fresh⟩ := Bool.and_eq_true_iff.mp opens
    obtain rfl := of_decide_eq_true same
    exact creates rfl fresh
  | dispatch ready =>
    simp only [Bool.and_eq_true, decide_eq_true_eq] at opens
    obtain ⟨⟨⟨mapped, listening⟩, accepts⟩, unused⟩ := opens
    obtain ⟨input, arrives, accepted⟩ := (Option.any_eq_true _ _).mp accepts
    obtain ⟨-, -, -, fresh⟩ := (inv.fit h).eq_fresh unused
    have listener := inv.listener mapped listening
    have differs : h ≠ ready.handle := by
      rintro rfl
      rw [fresh] at mapped
      cases mapped
    have opened := dispatch_accepts arrives (of_decide_eq_true accepted) ⟨listener, .inl fresh⟩ listening differs
    unfold Step.exec
    rw [wp_bind, wp_get, wp_ite, if_pos mapped]
    refine ((dispatch_inv ready mapped inv).and opened).mono (fun _ w both => both.2) fun _ _ impossible => impossible.1
  | _ => cases opens

/-- **One life for each connection.** No run of the loop uses a deleted object, and after it every handle
is in step; the next step opens and closes what it should, and opens nothing again. -/
theorem closed_once (steps : List Step) :
    ∃ w, (runSteps steps).run World.init = .ok ⟨⟩ w ∧ (∀ h, InStep (w.slot h)) ∧
      ∀ step, ∃ w', step.exec.run w = .ok ⟨⟩ w' ∧ ∀ h, InStep (w'.slot h) ∧ Stepped step w w' h := by
  obtain ⟨⟨⟩, w, run, inv⟩ := wp_never.mp (runSteps_inv steps)
  refine ⟨w, run, fun h => (inv.fit h).inStep, fun step => ?_⟩
  obtain ⟨⟨⟩, w', ran, inv'⟩ := wp_never.mp (step_inv step inv)
  refine ⟨w', ran, fun h => ⟨(inv'.fit h).inStep, fun opens => ?_, fun isOpen closes => ?_, fun isClosed => ?_⟩⟩
  · exact (step_opens step inv opens).of_run ran
  · obtain ⟨made, mapped⟩ := (inv.fit h).open_registered isOpen
    have after := (step_closes step (inv.know made) (List.mem_singleton.mpr rfl) mapped).of_run ran
    rw [closes] at after
    exact (inv'.fit h).closed_iff.mpr after.closed
  · obtain ⟨made, unmapped⟩ := (inv.fit h).closed_iff.mp isClosed
    have after := (step_inv step (inv.ended true made unmapped)).of_run ran
    exact (inv'.fit h).closed_iff.mpr after.closed

end Netter.Loop
