import Netter.Accept.Model

/-!
# Every accepted socket is introduced once

For each handle, what the loops, the lists and the trace say about it is one of four things: it is
unknown, it waits in one place to be registered, it is registered with a connection, or it is closed.
A step for one handle leaves the others as they are, and no other loop than the one of the handle
knows anything about it.
-/

namespace Netter.Accept

open Loop (CallbackFn)

variable {n : Nat} {s t : State} {h k : NetHandle} {loop : LoopId} {el : EventLoop} {closes : Bool} {msg : Msg}
  {polled socketMap connMap : Bool} {socket : Option CallbackFn} {events more : List Event}

/-- What there is to know about a handle. -/
structure View where
  accepted : Bool
  /-- How often it waits to be registered. -/
  waits : Nat
  socket : Option CallbackFn
  polled : Bool
  inSocketMap : Bool
  inConnMap : Bool
  history : List Event

def State.view (n : Nat) (s : State) (h : NetHandle) : View :=
  let el := s.loops (getIoResource n h)
  { accepted := s.accepted.contains h
    waits := s.accepting.toList.count h + el.registerEventList.count h + el.eventList.count h
    socket := s.sockets h
    polled := el.polled h
    inSocketMap := el.socketMap h
    inConnMap := el.connMap h
    history := s.trace.filter (·.handle = h) }

/-- A loop knows nothing about a handle. -/
structure EventLoop.Without (el : EventLoop) (h : NetHandle) : Prop where
  register : h ∉ el.registerEventList
  list : h ∉ el.eventList
  polled : el.polled h = false
  socketMap : el.socketMap h = false
  connMap : el.connMap h = false

def Away (n : Nat) (s : State) : Prop := ∀ loop h, loop ≠ getIoResource n h → (s.loops loop).Without h

/-- A step for one handle, as a change of its entries, its socket and the trace. -/
def State.patch (n : Nat) (s : State) (h : NetHandle) (polled socketMap connMap : Bool) (socket : Option CallbackFn)
    (events : List Event) : State :=
  let home := getIoResource n h
  let el := s.loops home
  { s with
    loops := Function.update s.loops home { el with
      polled := Function.update el.polled h polled
      socketMap := Function.update el.socketMap h socketMap
      connMap := Function.update el.connMap h connMap }
    sockets := Function.update s.sockets h socket
    trace := s.trace ++ events }

theorem State.patch_loop (n : Nat) (s : State) (h : NetHandle) :
    (s.patch n h polled socketMap connMap socket events).loops (getIoResource n h) =
      { s.loops (getIoResource n h) with
        polled := Function.update (s.loops (getIoResource n h)).polled h polled
        socketMap := Function.update (s.loops (getIoResource n h)).socketMap h socketMap
        connMap := Function.update (s.loops (getIoResource n h)).connMap h connMap } := Function.update_self ..

theorem State.patch_patch {polled' socketMap' connMap' : Bool} {socket' : Option CallbackFn} :
    (s.patch n h polled socketMap connMap socket events).patch n h polled' socketMap' connMap' socket' more =
      s.patch n h polled' socketMap' connMap' socket' (events ++ more) := by
  unfold State.patch
  simp only [Function.update_self, Function.update_idem, List.append_assoc]

theorem State.view_patch (own : ∀ event ∈ events, event.handle = h) :
    (s.patch n h polled socketMap connMap socket events).view n h =
      { s.view n h with
        socket := socket, polled := polled, inSocketMap := socketMap, inConnMap := connMap
        history := (s.view n h).history ++ events } := by
  have kept : events.filter (·.handle = h) = events := by
    refine List.filter_eq_self.mpr fun event member => ?_
    exact decide_eq_true (own event member)
  unfold State.view
  rw [State.patch_loop]
  simp only [State.patch, Function.update_self, List.filter_append, kept]

theorem State.view_patch_ne (own : ∀ event ∈ events, event.handle = h) (other : k ≠ h) :
    (s.patch n h polled socketMap connMap socket events).view n k = s.view n k := by
  have none : events.filter (·.handle = k) = [] := by
    refine List.filter_eq_nil_iff.mpr fun event member => ?_
    rw [decide_eq_true_eq, own event member]
    exact other.symm
  by_cases same : getIoResource n k = getIoResource n h
  · unfold State.view
    rw [same, State.patch_loop]
    simp only [State.patch, Function.update_of_ne other, List.filter_append, none, List.append_nil]
  · unfold State.view State.patch
    simp only [Function.update_of_ne same, Function.update_of_ne other, List.filter_append, none, List.append_nil]

theorem Away.patch (away : Away n s) : Away n (s.patch n h polled socketMap connMap socket events) := by
  intro loop k elsewhere
  have before := away loop k elsewhere
  by_cases here : loop = getIoResource n h
  · have other : k ≠ h := by
      rintro rfl
      exact elsewhere here
    subst here
    rw [State.patch_loop]
    refine ⟨before.register, before.list, ?_, ?_, ?_⟩
    · exact (Function.update_of_ne other _ _).trans before.polled
    · exact (Function.update_of_ne other _ _).trans before.socketMap
    · exact (Function.update_of_ne other _ _).trans before.connMap
  · have same : (s.patch n h polled socketMap connMap socket events).loops loop = s.loops loop :=
      Function.update_of_ne here _ _
    rw [same]
    exact before

theorem State.close_eq : s.close n h = s.patch n h false false false none [] := by
  unfold State.close State.patch State.setLoop State.setSocket
  simp only [List.append_nil]

theorem State.record_eq (event : Event) : s.record event = s.patch n h (s.view n h).polled (s.view n h).inSocketMap
    (s.view n h).inConnMap (s.view n h).socket [event] := by
  unfold State.record State.patch State.view
  simp only [Function.update_eq_self]

theorem State.onConnect_eq (fresh : (s.view n h).inConnMap = false) :
    s.onConnect n h = s.patch n h (s.view n h).polled (s.view n h).inSocketMap true (some .connCallback)
      [.created (getIoResource n h) h] := by
  have fresh : (s.loops (getIoResource n h)).connMap h = false := fresh
  unfold State.onConnect State.patch State.view State.setLoop State.setSocket State.record
  simp only [fresh, Bool.false_eq_true, if_false, Function.update_eq_self]

/-! ## The stages of a handle -/

/-- What happens to a socket when it is registered. -/
def introduction (home : LoopId) (h : NetHandle) : List Event :=
  [.inserted home h, .delivered home h .connect .connectCallback, .created home h]

/-- A message to the connection. -/
def Talk (home : LoopId) (h : NetHandle) (event : Event) : Prop :=
  ∃ msg, msg ≠ .connect ∧ event = .delivered home h msg .connCallback

inductive Stage (home : LoopId) (h : NetHandle) : View → Prop where
  | unknown : Stage home h ⟨false, 0, none, false, false, false, []⟩
  | waiting : Stage home h ⟨true, 1, some .connectCallback, false, false, false, []⟩
  | registered (later : List Event) (talk : ∀ event ∈ later, Talk home h event) :
      Stage home h ⟨true, 0, some .connCallback, true, true, true, introduction home h ++ later⟩
  | closed (later : List Event) (talk : ∀ event ∈ later, Talk home h event) :
      Stage home h ⟨true, 0, none, false, false, false, introduction home h ++ later⟩

structure Inv (n : Nat) (s : State) : Prop where
  stage : ∀ h, Stage (getIoResource n h) h (s.view n h)
  away : Away n s

/-- A socket that has just been taken from where it waits. -/
def taken : View := ⟨true, 0, some .connectCallback, false, false, false, []⟩

theorem introduction_own (home : LoopId) (h : NetHandle) : ∀ event ∈ introduction home h, event.handle = h := by
  intro event member
  simp only [introduction, List.mem_cons, List.not_mem_nil, or_false] at member
  rcases member with rfl | rfl | rfl <;> rfl

theorem Inv.patch (others : ∀ k, k ≠ h → Stage (getIoResource n k) k (s.view n k)) (away : Away n s)
    (own : ∀ event ∈ events, event.handle = h)
    (here : Stage (getIoResource n h) h { s.view n h with
      socket := socket, polled := polled, inSocketMap := socketMap, inConnMap := connMap
      history := (s.view n h).history ++ events }) :
    Inv n (s.patch n h polled socketMap connMap socket events) := by
  refine ⟨fun k => ?_, away.patch⟩
  by_cases same : k = h
  · subst same
    rw [State.view_patch own]
    exact here
  · rw [State.view_patch_ne own same]
    exact others k same

theorem State.deliver_connect (callback : (s.view n h).socket = some .connectCallback)
    (fresh : (s.view n h).inConnMap = false) :
    s.deliver n loop h .connect closes =
      if closes then s.patch n h false false false none
        [.delivered loop h .connect .connectCallback, .created (getIoResource n h) h]
      else s.patch n h (s.view n h).polled (s.view n h).inSocketMap true (some .connCallback)
        [.delivered loop h .connect .connectCallback, .created (getIoResource n h) h] := by
  have found : s.sockets h = some .connectCallback := callback
  have own : ∀ event ∈ [Event.delivered loop h .connect .connectCallback], event.handle = h := by
    intro event member
    rw [List.mem_singleton.mp member]
    rfl
  have called := s.record_eq (n := n) (h := h) (.delivered loop h .connect .connectCallback)
  have after : ((s.patch n h (s.view n h).polled (s.view n h).inSocketMap (s.view n h).inConnMap (s.view n h).socket
      [.delivered loop h .connect .connectCallback]).view n h) =
      { s.view n h with history := (s.view n h).history ++ [.delivered loop h .connect .connectCallback] } :=
    State.view_patch own
  unfold State.deliver
  rw [found]
  show (if closes then ((s.record _).onConnect n h).close n h else (s.record _).onConnect n h) = _
  rw [called, State.onConnect_eq (by rw [after]; exact fresh), after, State.patch_patch, State.close_eq,
    State.patch_patch]
  rfl

/-- `AddEvent` of a socket in its loop: an entry of `socket_map_`, `CONNECT`, and an entry of `conn_map`. -/
theorem State.addEvent_eq (view : s.view n h = taken) : s.addEvent n (getIoResource n h) h closes =
    if closes then s.patch n h false false false none (introduction (getIoResource n h) h)
    else s.patch n h true true true (some .connCallback) (introduction (getIoResource n h) h) := by
  have inMap : (s.loops (getIoResource n h)).socketMap h = false := congrArg View.inSocketMap view
  have own : ∀ event ∈ [Event.inserted (getIoResource n h) h], event.handle = h := by
    intro event member
    rw [List.mem_singleton.mp member]
    rfl
  have inserted : (s.record (.inserted (getIoResource n h) h)).setLoop (getIoResource n h) { s.loops (getIoResource n h) with
      polled := Function.update (s.loops (getIoResource n h)).polled h true
      socketMap := Function.update (s.loops (getIoResource n h)).socketMap h true } =
      s.patch n h true true (s.view n h).inConnMap (s.view n h).socket [.inserted (getIoResource n h) h] := by
    unfold State.record State.setLoop State.patch State.view
    simp only [Function.update_eq_self]
  have after : ((s.patch n h true true (s.view n h).inConnMap (s.view n h).socket
      [.inserted (getIoResource n h) h]).view n h) =
      { s.view n h with
        polled := true, inSocketMap := true
        history := (s.view n h).history ++ [.inserted (getIoResource n h) h] } := State.view_patch own
  rw [view] at inserted after
  unfold State.addEvent
  simp only [inMap, Bool.false_eq_true, if_false]
  rw [inserted, State.deliver_connect (by rw [after]; rfl) (by rw [after]; rfl), after, State.patch_patch, State.patch_patch]
  rfl

theorem Inv.addEvent (others : ∀ k, k ≠ h → Stage (getIoResource n k) k (s.view n k)) (away : Away n s)
    (view : s.view n h = taken) : Inv n (s.addEvent n (getIoResource n h) h closes) := by
  rw [State.addEvent_eq view]
  split
  · refine .patch others away (introduction_own _ h) ?_
    rw [view]
    exact .closed [] nofun
  · refine .patch others away (introduction_own _ h) ?_
    rw [view]
    exact .registered [] nofun

/-- A message to a registered socket. -/
theorem Inv.deliver (inv : Inv n s) (registered : (s.view n h).polled = true ∨ (s.view n h).inSocketMap = true)
    (later : msg ≠ .connect) : Inv n (s.deliver n (getIoResource n h) h msg closes) := by
  have stage := inv.stage h
  generalize view : s.view n h = v at stage registered
  cases stage with
  | unknown => cases registered <;> contradiction
  | waiting => cases registered <;> contradiction
  | closed events talk => cases registered <;> contradiction
  | registered events talk =>
    have found : s.sockets h = some .connCallback := congrArg View.socket view
    have own : ∀ event ∈ [Event.delivered (getIoResource n h) h msg .connCallback], event.handle = h := by
      intro event member
      rw [List.mem_singleton.mp member]
      rfl
    have talks : ∀ event ∈ events ++ [Event.delivered (getIoResource n h) h msg .connCallback],
        Talk (getIoResource n h) h event := by
      intro event member
      rcases List.mem_append.mp member with old | last
      · exact talk event old
      · exact ⟨msg, later, List.mem_singleton.mp last⟩
    have called : Inv n (s.record (.delivered (getIoResource n h) h msg .connCallback)) := by
      rw [s.record_eq (n := n) (h := h)]
      refine .patch (fun k _ => inv.stage k) inv.away own ?_
      rw [view, List.append_assoc]
      exact .registered _ talks
    have closed : Inv n ((s.record (.delivered (getIoResource n h) h msg .connCallback)).close n h) := by
      rw [s.record_eq (n := n) (h := h), State.close_eq, State.patch_patch]
      refine .patch (fun k _ => inv.stage k) inv.away own ?_
      rw [view, List.append_assoc]
      exact .closed _ talks
    unfold State.deliver
    rw [found]
    cases msg with
    | connect => exact absurd rfl later
    | close => exact closed
    | read => cases closes <;> assumption
    | write => cases closes <;> assumption
    | timer => cases closes <;> assumption

theorem Inv.close (inv : Inv n s) (registered : (s.view n h).inConnMap = true) : Inv n (s.close n h) := by
  have stage := inv.stage h
  rw [State.close_eq]
  refine .patch (fun k _ => inv.stage k) inv.away nofun ?_
  generalize view : s.view n h = v at stage registered
  cases stage with
  | unknown => cases registered
  | waiting => cases registered
  | closed events talk => cases registered
  | registered events talk =>
    rw [List.append_nil]
    exact .closed events talk

/-! ## Waiting to be registered -/

theorem Inv.accept (inv : Inv n s) (idle : s.accepting = none) (new : h ∉ s.accepted) :
    Inv n { s.setSocket h (some .connectCallback) with accepting := some h, accepted := s.accepted ++ [h] } := by
  refine ⟨fun k => ?_, inv.away⟩
  have stage := inv.stage k
  have view : State.view n { s.setSocket h (some .connectCallback) with
      accepting := some h, accepted := s.accepted ++ [h] } k =
      { s.view n k with
        accepted := (s.accepted ++ [h]).contains k, waits := [h].count k + (s.view n k).waits
        socket := Function.update s.sockets h (some .connectCallback) k } := by
    unfold State.view
    rw [idle]
    simp only [State.setSocket, Option.toList, List.count_nil, Nat.zero_add, Nat.add_assoc]
  rw [view]
  by_cases same : k = h
  · subst same
    have unknown : (s.view n k).accepted = false := by
      show s.accepted.contains k = false
      simpa using new
    generalize s.view n k = v at stage unknown
    cases stage with
    | unknown =>
      simp only [Function.update_self, List.count_singleton_self, List.contains_append]
      simpa using Stage.waiting
    | _ => cases unknown
  · rw [Function.update_of_ne same]
    have other : [h].count k = 0 := List.count_eq_zero.mpr fun member => same (List.mem_singleton.mp member)
    have known : (s.accepted ++ [h]).contains k = s.accepted.contains k := by simp [same]
    rw [other, Nat.zero_add, known]
    exact stage

theorem Stage.waits_of_pos {home : LoopId} {v : View} (stage : Stage home h v) (positive : 0 < v.waits) :
    v = ⟨true, 1, some .connectCallback, false, false, false, []⟩ := by
  cases stage with
  | waiting => rfl
  | _ => cases positive

/-- A socket is taken from where it waits. -/
theorem Inv.take (inv : Inv n s)
    (less : ∀ k, s.view n k = { t.view n k with waits := [h].count k + (t.view n k).waits }) :
    (∀ k, k ≠ h → Stage (getIoResource n k) k (t.view n k)) ∧ t.view n h = taken := by
  constructor
  · intro k other
    have none : [h].count k = 0 := List.count_eq_zero.mpr fun member => other (List.mem_singleton.mp member)
    have stage := inv.stage k
    rw [less k, none, Nat.zero_add] at stage
    exact stage
  · have here := less h
    rw [List.count_singleton_self] at here
    have positive : 0 < (s.view n h).waits := by
      rw [here]
      exact Nat.add_pos_left Nat.one_pos _
    have waiting := (inv.stage h).waits_of_pos positive
    rw [here] at waiting
    generalize t.view n h = v at waiting
    obtain ⟨accepted, waits, socket, polled, inSocketMap, inConnMap, history⟩ := v
    simp only [View.mk.injEq] at waiting
    obtain ⟨rfl, one, rfl, rfl, rfl, rfl, rfl⟩ := waiting
    have none : waits = 0 := by omega
    rw [none]
    rfl

theorem Inv.take_accepting (inv : Inv n s) (at_accept : s.accepting = some h) :
    (∀ k, k ≠ h → Stage (getIoResource n k) k (({ s with accepting := none } : State).view n k)) ∧
      ({ s with accepting := none } : State).view n h = taken := by
  refine inv.take (t := { s with accepting := none }) (h := h) fun k => ?_
  unfold State.view
  rw [at_accept]
  simp only [Option.toList, List.count_nil, Nat.zero_add, Nat.add_assoc]

/-- The accepted socket is passed to `AddEvent` in the main loop. -/
theorem Inv.give (inv : Inv n s) (at_accept : s.accepting = some h) :
    Inv n (({ s with accepting := none } : State).addEvent n (getIoResource n h) h closes) :=
  .addEvent (inv.take_accepting at_accept).1 inv.away (inv.take_accepting at_accept).2

theorem Inv.home_of_first {rest : List NetHandle} (inv : Inv n s) (first : (s.loops loop).eventList = h :: rest) :
    loop = getIoResource n h := by
  by_contra elsewhere
  apply (inv.away loop h elsewhere).list
  rw [first]
  exact List.mem_cons_self

theorem Inv.take_first {rest : List NetHandle} (inv : Inv n s)
    (first : (s.loops (getIoResource n h)).eventList = h :: rest) :
    (∀ k, k ≠ h → Stage (getIoResource n k) k
      ((s.setLoop (getIoResource n h) { s.loops (getIoResource n h) with eventList := rest }).view n k)) ∧
      (s.setLoop (getIoResource n h) { s.loops (getIoResource n h) with eventList := rest }).view n h = taken := by
  refine inv.take fun k => ?_
  unfold State.view State.setLoop
  by_cases same : getIoResource n k = getIoResource n h
  · have head : (h :: rest).count k = [h].count k + rest.count k := by
      rw [← List.singleton_append, List.count_append]
    simp only [same, Function.update_self, first, head]
    congr 1
    omega
  · have other : k ≠ h := fun is => same (is ▸ rfl)
    have none : [h].count k = 0 := List.count_eq_zero.mpr fun member => other (List.mem_singleton.mp member)
    simp only [Function.update_of_ne same, none, Nat.zero_add]

/-- The loop takes the next entry of the list it has swapped out. -/
theorem Inv.register {rest : List NetHandle} (inv : Inv n s) (first : (s.loops loop).eventList = h :: rest) :
    Inv n ((s.setLoop loop { s.loops loop with eventList := rest }).addEvent n loop h closes) := by
  obtain rfl := inv.home_of_first first
  obtain ⟨others, view⟩ := inv.take_first first
  refine .addEvent others (fun other k elsewhere => ?_) view
  have before := inv.away other k elsewhere
  by_cases here : other = getIoResource n h
  · subst here
    show (Function.update s.loops _ _ _).Without k
    rw [Function.update_self]
    refine ⟨before.register, fun member => before.list ?_, before.polled, before.socketMap, before.connMap⟩
    rw [first]
    exact List.mem_cons_of_mem h member
  · show (Function.update s.loops _ _ _).Without k
    rw [Function.update_of_ne here]
    exact before

/-- A socket goes from one list of its loop to another. -/
theorem Inv.requeue (inv : Inv n s) {accepting : Option NetHandle}
    (counts : ∀ k, accepting.toList.count k + (if getIoResource n k = loop then
        el.registerEventList.count k + el.eventList.count k
      else (s.loops (getIoResource n k)).registerEventList.count k + (s.loops (getIoResource n k)).eventList.count k) =
      (s.view n k).waits)
    (polled : el.polled = (s.loops loop).polled) (socketMap : el.socketMap = (s.loops loop).socketMap)
    (connMap : el.connMap = (s.loops loop).connMap)
    (away : ∀ k, loop ≠ getIoResource n k → k ∉ el.registerEventList ∧ k ∉ el.eventList) :
    Inv n ({ s with accepting }.setLoop loop el) := by
  refine ⟨fun k => ?_, fun other k elsewhere => ?_⟩
  · have same : State.view n ({ s with accepting }.setLoop loop el) k = s.view n k := by
      have count := counts k
      unfold State.view at count ⊢
      simp only [State.setLoop, Function.update_apply]
      split at count <;> simp_all [Nat.add_assoc]
    rw [same]
    exact inv.stage k
  · have before := inv.away other k elsewhere
    by_cases here : other = loop
    · subst here
      obtain ⟨noRegister, noList⟩ := away k elsewhere
      show (Function.update s.loops other el other).Without k
      rw [Function.update_self]
      exact ⟨noRegister, noList, polled ▸ before.polled, socketMap ▸ before.socketMap, connMap ▸ before.connMap⟩
    · show (Function.update s.loops loop el other).Without k
      rw [Function.update_of_ne here]
      exact before

/-- The accepted socket is posted to its loop. -/
theorem Inv.post (inv : Inv n s) (at_accept : s.accepting = some h) :
    Inv n ({ s with accepting := none }.setLoop (getIoResource n h) { s.loops (getIoResource n h) with
      registerEventList := (s.loops (getIoResource n h)).registerEventList ++ [h] }) := by
  refine inv.requeue (fun k => ?_) rfl rfl rfl fun k elsewhere => ?_
  · unfold State.view
    rw [at_accept]
    by_cases same : getIoResource n k = getIoResource n h
    · simp only [same, if_true, List.count_append, Option.toList, List.count_nil]
      omega
    · have other : k ≠ h := fun is => same (is ▸ rfl)
      have none : [h].count k = 0 := List.count_eq_zero.mpr fun member => other (List.mem_singleton.mp member)
      simp only [same, if_false, Option.toList, List.count_nil, none]
      omega
  · have before := inv.away _ k elsewhere
    refine ⟨fun member => ?_, before.list⟩
    rcases List.mem_append.mp member with old | last
    · exact before.register old
    · exact elsewhere (List.mem_singleton.mp last ▸ rfl)

theorem Inv.swap (inv : Inv n s) (done : (s.loops loop).eventList = []) :
    Inv n (s.setLoop loop { s.loops loop with
      registerEventList := [], eventList := (s.loops loop).registerEventList }) := by
  refine inv.requeue (fun k => ?_) rfl rfl rfl fun k elsewhere => ?_
  · unfold State.view
    by_cases same : getIoResource n k = loop
    · simp only [same, if_true, done, List.count_nil]
      omega
    · simp only [same, if_false]
      omega
  · exact ⟨List.not_mem_nil, (inv.away loop k elsewhere).register⟩

theorem Inv.exec (inv : Inv n s) (step : Step) : Inv n (step.exec n s) := by
  unfold Step.exec
  split
  next h =>
    split
    next fresh => exact inv.accept fresh.1 fresh.2
    next => exact inv
  next closes =>
    split
    next => exact inv
    next h at_accept =>
      by_cases inLoop : getIoResource n h = .main
      · simp only [inLoop, if_true]
        exact inLoop ▸ inv.give at_accept
      · simp only [inLoop, if_false]
        exact inv.post at_accept
  next loop =>
    by_cases done : (s.loops loop).eventList = []
    · simp only [done, if_true]
      exact inv.swap done
    · simp only [done, if_false]
      exact inv
  next loop closes =>
    cases first : (s.loops loop).eventList with
    | nil =>
      simp only [first]
      exact inv
    | cons h rest =>
      simp only [first]
      exact inv.register first
  next loop h msg closes =>
    split
    next reported =>
      obtain ⟨polled, later, _⟩ := reported
      have home : loop = getIoResource n h := by
        by_contra elsewhere
        rw [(inv.away loop h elsewhere).polled] at polled
        cases polled
      subst home
      exact inv.deliver (.inl polled) later
    next => exact inv
  next loop h closes =>
    split
    next inMap =>
      have home : loop = getIoResource n h := by
        by_contra elsewhere
        rw [(inv.away loop h elsewhere).socketMap] at inMap
        cases inMap
      subst home
      exact inv.deliver (.inr inMap) nofun
    next => exact inv
  next h =>
    split
    next inMap => exact inv.close inMap
    next => exact inv

theorem Inv.init : Inv n .init :=
  ⟨fun _ => .unknown, fun _ _ _ => ⟨List.not_mem_nil, List.not_mem_nil, rfl, rfl, rfl⟩⟩

/-- A socket has been introduced once in its loop, and afterwards there are only messages to its connection. It has its
entries until it is closed. -/
structure Met (n : Nat) (s : State) (h : NetHandle) : Prop where
  waits : (s.view n h).waits = 0
  history : ∃ later, (s.view n h).history = introduction (getIoResource n h) h ++ later ∧
    ∀ event ∈ later, Talk (getIoResource n h) h event
  entries : (s.view n h).inSocketMap = (s.view n h).socket.isSome ∧ (s.view n h).inConnMap = (s.view n h).socket.isSome

theorem Inv.met (inv : Inv n s) (accepted : (s.view n h).accepted = true) (none : (s.view n h).waits = 0) : Met n s h := by
  have stage := inv.stage h
  generalize is : s.view n h = v at accepted none stage
  cases stage with
  | unknown => cases accepted
  | waiting => cases none
  | registered later talk => exact ⟨by rw [is], by rw [is]; exact ⟨later, rfl, talk⟩, by rw [is]; exact ⟨rfl, rfl⟩⟩
  | closed later talk => exact ⟨by rw [is], by rw [is]; exact ⟨later, rfl, talk⟩, by rw [is]; exact ⟨rfl, rfl⟩⟩

/-- `AddEvent` in the loop of a socket introduces it. -/
theorem met_addEvent (view : s.view n h = taken) : Met n (s.addEvent n (getIoResource n h) h closes) h ∧
    (closes = false → ((s.addEvent n (getIoResource n h) h closes).view n h).socket = some .connCallback) := by
  rw [State.addEvent_eq view]
  cases closes with
  | true =>
    simp only [if_true]
    refine ⟨⟨?_, ⟨[], ?_, nofun⟩, ?_⟩, nofun⟩ <;> rw [State.view_patch (introduction_own _ h), view]
    · rfl
    · rw [List.append_nil]
      rfl
    · exact ⟨rfl, rfl⟩
  | false =>
    simp only [Bool.false_eq_true, if_false]
    refine ⟨⟨?_, ⟨[], ?_, nofun⟩, ?_⟩, fun _ => ?_⟩ <;> rw [State.view_patch (introduction_own _ h), view]
    · rfl
    · rw [List.append_nil]
      rfl
    · exact ⟨rfl, rfl⟩

/-- What becomes of an accepted socket. -/
structure Introduced (n : Nat) (s : State) (h : NetHandle) : Prop where
  /-- It waits in one place and nothing has happened to it, or it has been introduced. -/
  once : (s.view n h).waits = 1 ∧ (s.view n h).history = [] ∨ Met n s h
  /-- No other loop has anything of it. -/
  elsewhere : ∀ loop, loop ≠ getIoResource n h → (s.loops loop).Without h
  /-- When it is in no list any more it has been introduced. -/
  settled : s.accepting ≠ some h → h ∉ (s.loops (getIoResource n h)).registerEventList →
    h ∉ (s.loops (getIoResource n h)).eventList → Met n s h
  /-- `AddEvent` introduces it in the loop thread, and posts it from another one. -/
  given : s.accepting = some h → ∀ closes,
    if getIoResource n h = .main then Met n ((Step.addEvent closes).exec n s) h
    else h ∈ (((Step.addEvent closes).exec n s).loops (getIoResource n h)).registerEventList
  /-- The swap takes it along. -/
  swapped : h ∈ (s.loops (getIoResource n h)).registerEventList → (s.loops (getIoResource n h)).eventList = [] →
    h ∈ (((Step.swap (getIoResource n h)).exec n s).loops (getIoResource n h)).eventList
  /-- When the loop comes to it, it is introduced, and it stays registered unless an override closes it. -/
  registered : ∀ rest, (s.loops (getIoResource n h)).eventList = h :: rest → ∀ closes,
    Met n ((Step.register (getIoResource n h) closes).exec n s) h ∧
      (closes = false →
        (((Step.register (getIoResource n h) closes).exec n s).view n h).socket = some .connCallback)

theorem Inv.introduced (inv : Inv n s) (accepted : h ∈ s.accepted) : Introduced n s h where
  once := by
    have known : (s.view n h).accepted = true := List.contains_iff_mem.mpr accepted
    by_cases none : (s.view n h).waits = 0
    · exact .inr (inv.met known none)
    · rw [(inv.stage h).waits_of_pos (Nat.pos_of_ne_zero none)]
      exact .inl ⟨rfl, rfl⟩
  elsewhere loop other := inv.away loop h other
  settled given posted listed := by
    refine inv.met (List.contains_iff_mem.mpr accepted) ?_
    have none : s.accepting.toList.count h = 0 := by
      refine List.count_eq_zero.mpr fun member => given ?_
      exact Option.mem_toList.mp member
    show s.accepting.toList.count h + _ + _ = 0
    rw [none, List.count_eq_zero.mpr posted, List.count_eq_zero.mpr listed]
  given at_accept closes := by
    split
    next inLoop =>
      simp only [Step.exec, at_accept, if_pos inLoop]
      exact (met_addEvent (inv.take_accepting at_accept).2).1
    next posts =>
      simp only [Step.exec, at_accept, if_neg posts]
      show h ∈ (Function.update s.loops _ _ _).registerEventList
      rw [Function.update_self]
      exact List.mem_append_right _ List.mem_cons_self
  swapped posted done := by
    show h ∈ ((if _ then State.setLoop s _ _ else s).loops _).eventList
    rw [if_pos done]
    show h ∈ (Function.update s.loops _ _ _).eventList
    rw [Function.update_self]
    exact posted
  registered rest first closes := by
    have ran : (Step.register (getIoResource n h) closes).exec n s =
        (s.setLoop (getIoResource n h) { s.loops (getIoResource n h) with eventList := rest }).addEvent n
          (getIoResource n h) h closes := by
      rw [Step.exec]
      dsimp only
      rw [first]
    rw [ran]
    exact met_addEvent (inv.take_first first).2

/-- **Every accepted socket is introduced once**, to the loop of its handle. -/
theorem introduced_once (n : Nat) (steps : List Step) (h : NetHandle) (accepted : h ∈ (runAccept n steps).accepted) :
    Introduced n (runAccept n steps) h := by
  have inv : Inv n (runAccept n steps) := Lib.run_inv (I := Inv n) (fun _ step inv => inv.exec step) .init steps
  exact inv.introduced accepted

/-- An accepted socket that is registered in the second of two I/O loops. -/
theorem introduced_once_posted :
    Met 2 (runAccept 2 [.accept 3, .addEvent false, .swap (.io 1), .register (.io 1) false]) 3 :=
  (introduced_once 2 _ 3 (by decide)).settled (by decide) (by decide) (by decide)

end Netter.Accept
