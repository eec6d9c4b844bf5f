import Mathlib.Logic.Function.Basic
import Netter.Lib.Run
import Netter.Conn.Model

/-!
# Waking up a loop

Other threads put their work into a list of the loop under its mutex and then call `Wakeup`, which
writes a byte to a socket that the loop watches edge-triggered. The loop reads the socket until it is
empty before it swaps the lists. So no work stays in a list while the loop sleeps, unless its thread
is still about to call `Wakeup`.
-/

namespace Netter.Wakeup

/-- What a thread wants the loop to do. -/
inductive Post where
  | addEvent (fd : Int) (socketEvent : UInt8)
  | sendPkt (handle : NetHandle) (pkt : Nat)
  | closeHandle (handle : NetHandle)
  /-- `EventLoop::Stop`. -/
  | stop

/-- An entry of a list, with the thread that has pushed it. -/
structure Item where
  serial : Nat
  thread : Nat
  post : Post

/-- A thread between its push and its `Wakeup`, or elsewhere. -/
inductive Poster where
  | idle
  | pushed (item : Item)

/-- An entry of the batch that `epoll_wait` gives: the wakeup socket is the one without a `BaseSocket`. -/
inductive Entry where
  | wakeup
  | socket
  deriving DecidableEq

/-- Where the loop stands in `Start`. -/
inductive Pc where
  /-- Before `while (!stop_)`. -/
  | head
  /-- In `epoll_wait`. -/
  | waiting
  | entries (batch : List Entry)
  /-- In the loop of `_ReadWakeupData`. -/
  | reading (rest : List Entry)
  | checkTimer
  | checkLoop
  | regiterEventList
  | exited

structure State where
  posters : Nat → Poster
  registerEventList : List Item
  pktList : List Item
  closeList : List Item
  stop : Bool
  pc : Pc
  /-- The bytes that wait on `wakeup_fds_[0]`. -/
  unread : Nat
  /-- The last read has found the wakeup socket empty, and nothing has been written since. -/
  drained : Bool
  /-- `epoll_wait` returns at once with the wakeup socket. -/
  ready : Bool
  next : Nat

/-- A loop that has registered its wakeup socket. -/
def State.init : State := ⟨fun _ => .idle, [], [], [], false, .head, 0, true, false, 0⟩

namespace State

variable (s : State)

def setPoster (thread : Nat) (poster : Poster) : State :=
  { s with posters := Function.update s.posters thread poster }

/-- The part of `AddEvent`, `SendPkt`, `CloseHandle` and `Stop` before `Wakeup`. -/
def push (item : Item) : State :=
  match item.post with
  | .addEvent _ _ => { s with registerEventList := s.registerEventList ++ [item] }
  | .sendPkt _ _ => { s with pktList := s.pktList ++ [item] }
  | .closeHandle _ => { s with closeList := s.closeList ++ [item] }
  | .stop => { s with stop := true }

/-- A byte is written. It makes the socket ready when the last read has found it empty; otherwise the
kernel may or may not report the socket again. -/
def wakeup (reported : Bool) : State :=
  { s with unread := s.unread + 1, ready := s.ready || s.drained || reported, drained := false }

/-- `epoll_wait` gives a batch. -/
def epollWait (batch : List Entry) : State :=
  { s with pc := .entries batch, ready := s.ready && !batch.contains .wakeup }

/-- A round of `while (read(wakeup_fds_[0], buf, 16) > 0)`. -/
def readWakeupData (rest : List Entry) : State :=
  if 0 < s.unread then { s with unread := s.unread - 16 }
  else { s with drained := true, pc := .entries rest }

/-- The next step of the loop thread outside of `epoll_wait`. Callbacks of sockets and timers run in the
loop thread and use no list. -/
def advance : State :=
  match s.pc with
  | .head => { s with pc := if s.stop then .exited else .waiting }
  | .waiting => s
  | .entries [] => { s with pc := .checkTimer }
  | .entries (.socket :: rest) => { s with pc := .entries rest }
  | .entries (.wakeup :: rest) => { s with pc := .reading rest }
  | .reading rest => s.readWakeupData rest
  | .checkTimer => { s with pc := .checkLoop }
  | .checkLoop => { s with pktList := [], closeList := [], pc := .regiterEventList }
  | .regiterEventList => { s with registerEventList := [], pc := .head }
  | .exited => s

end State

/-- A step of a thread, of the loop or of the kernel; one that cannot be taken changes nothing. -/
inductive Step where
  | push (thread : Nat) (post : Post)
  /-- `Wakeup`: `send` succeeds, or it fails, which it does only when bytes wait on the other side. -/
  | wakeup (thread : Nat) (sent reported : Bool)
  /-- `epoll_wait` returns. The wakeup socket is in the batch only when it is ready. -/
  | epollWait (batch : List Entry)
  | advance

def Step.exec (s : State) : Step → State
  | .push thread post =>
    match s.posters thread with
    | .idle =>
      let item : Item := ⟨s.next, thread, post⟩
      { (s.push item).setPoster thread (.pushed item) with next := s.next + 1 }
    | .pushed _ => s
  | .wakeup thread sent reported =>
    match s.posters thread with
    | .idle => s
    | .pushed _ =>
      if sent then (s.wakeup reported).setPoster thread .idle
      else if 0 < s.unread then s.setPoster thread .idle
      else s
  | .epollWait batch =>
    match s.pc with
    | .waiting => if batch.contains .wakeup && !s.ready then s else s.epollWait batch
    | _ => s
  | .advance => s.advance

def runLoop (steps : List Step) : State := Lib.run Step.exec .init steps

/-! ## No missed wake-up -/

/-- The loop will still swap `pkt_list` and `close_list` before it sleeps. -/
def Pc.beforeCheckLoop : Pc → Bool
  | .entries _ | .reading _ | .checkTimer | .checkLoop => true
  | _ => false

/-- The loop will still swap `register_event_list_` before it sleeps. -/
def Pc.beforeRegiter : Pc → Bool
  | .regiterEventList => true
  | pc => pc.beforeCheckLoop

/-- The loop will still read the wakeup socket before it sleeps. -/
def Pc.reads : Pc → Bool
  | .entries batch => batch.contains .wakeup
  | .reading _ => true
  | _ => false

/-- The list is about to be swapped out, or it is announced by a byte, or each of its threads is about to call
`Wakeup`. -/
def Announced (posters : Nat → Poster) (unread : Nat) (swaps : Bool) (list : List Item) : Prop :=
  swaps = true ∨ 0 < unread ∨ ∀ item ∈ list, posters item.thread = .pushed item

structure Inv (s : State) : Prop where
  pkts : Announced s.posters s.unread s.pc.beforeCheckLoop s.pktList
  closes : Announced s.posters s.unread s.pc.beforeCheckLoop s.closeList
  registers : Announced s.posters s.unread s.pc.beforeRegiter s.registerEventList
  written : 0 < s.unread → s.drained = false
  reported : s.drained = false → s.ready = true ∨ s.pc.reads = true

variable {s : State} {posters : Nat → Poster} {unread thread : Nat} {swaps later : Bool} {list : List Item} {item : Item}

theorem Announced.nil : Announced posters unread swaps [] := .inr (.inr nofun)

/-- The loop gets closer to the swap. -/
theorem Announced.closer (announced : Announced posters unread swaps list) (closer : swaps = true → later = true) :
    Announced posters unread later list := announced.imp_left closer

/-- A thread that is in no call pushes. -/
theorem Announced.push (announced : Announced posters unread swaps list) (idle : posters item.thread = .idle) :
    Announced (Function.update posters item.thread (.pushed item)) unread swaps (list ++ [item]) := by
  rcases announced with soon | byte | threads
  · exact .inl soon
  · exact .inr (.inl byte)
  · refine .inr (.inr fun other member => ?_)
    rcases List.mem_append.mp member with old | last
    · have pushed := threads other old
      have apart : other.thread ≠ item.thread := by
        intro same
        rw [same, idle] at pushed
        cases pushed
      rw [Function.update_of_ne apart]
      exact pushed
    · rw [List.mem_singleton.mp last, Function.update_self]

theorem Announced.of_append {more : List Item} (announced : Announced posters unread swaps (list ++ more)) :
    Announced posters unread swaps list :=
  announced.imp_right (·.imp_right fun threads other member => threads other (List.mem_append_left more member))

theorem Inv.push (inv : Inv s) (idle : s.posters item.thread = .idle) :
    Inv { (s.push item).setPoster item.thread (.pushed item) with next := s.next + 1 } := by
  have pkts := inv.pkts.push idle
  have closes := inv.closes.push idle
  have registers := inv.registers.push idle
  unfold State.push
  cases item.post with
  | addEvent fd socketEvent => exact ⟨pkts.of_append, closes.of_append, registers, inv.written, inv.reported⟩
  | sendPkt handle pkt => exact ⟨pkts, closes.of_append, registers.of_append, inv.written, inv.reported⟩
  | closeHandle handle => exact ⟨pkts.of_append, closes, registers.of_append, inv.written, inv.reported⟩
  | stop => exact ⟨pkts.of_append, closes.of_append, registers.of_append, inv.written, inv.reported⟩

/-- After `Wakeup` a byte is there. -/
theorem Inv.woken {t : State} (inv : Inv s) (byte : 0 < t.unread) (written : t.drained = false)
    (pc : t.pc = s.pc) (ready : t.ready = true ∨ t.ready = s.ready ∧ s.drained = false) : Inv t := by
  refine ⟨.inr (.inl byte), .inr (.inl byte), .inr (.inl byte), fun _ => written, fun _ => ?_⟩
  rcases ready with now | ⟨same, before⟩
  · exact .inl now
  · rw [same, pc]
    exact inv.reported before

theorem Inv.epollWait {batch : List Entry} (inv : Inv s) (waiting : s.pc = .waiting) : Inv (s.epollWait batch) := by
  refine ⟨.inl rfl, .inl rfl, .inl rfl, inv.written, fun written => ?_⟩
  show (s.ready && !batch.contains .wakeup) = true ∨ batch.contains .wakeup = true
  rcases inv.reported written with ready | reads
  · rw [ready]
    cases batch.contains .wakeup with
    | false => exact .inl rfl
    | true => exact .inr rfl
  · rw [waiting] at reads
    cases reads

/-- A step of the loop that uses neither the lists nor the socket. -/
theorem Inv.advancePc {pc : Pc} (inv : Inv s) (checkLoop : s.pc.beforeCheckLoop = true → pc.beforeCheckLoop = true)
    (regiter : s.pc.beforeRegiter = true → pc.beforeRegiter = true) (reads : s.pc.reads = true → pc.reads = true) :
    Inv { s with pc } := by
  refine ⟨inv.pkts.closer checkLoop, inv.closes.closer checkLoop, inv.registers.closer regiter, inv.written, ?_⟩
  exact fun written => (inv.reported written).imp_right reads

theorem Inv.readWakeupData {rest : List Entry} (inv : Inv s) (reading : s.pc = .reading rest) :
    Inv (s.readWakeupData rest) := by
  have soon : s.pc.beforeCheckLoop = true := by rw [reading]; rfl
  unfold State.readWakeupData
  split
  next bytes =>
    have written := inv.written bytes
    refine ⟨.inl soon, .inl soon, .inl ?_, fun _ => written, fun _ => .inr ?_⟩
    · show s.pc.beforeRegiter = true
      rw [reading]
      rfl
    · show s.pc.reads = true
      rw [reading]
      rfl
  next empty => exact ⟨.inl rfl, .inl rfl, .inl rfl, fun bytes => absurd bytes empty, nofun⟩

theorem Inv.advance (inv : Inv s) : Inv s.advance := by
  have stays {pc old : Pc} (at_old : s.pc = old) (checkLoop : old.beforeCheckLoop = true → pc.beforeCheckLoop = true)
      (regiter : old.beforeRegiter = true → pc.beforeRegiter = true) (reads : old.reads = true → pc.reads = true) :
      Inv { s with pc } := by
    subst at_old
    exact inv.advancePc checkLoop regiter reads
  unfold State.advance
  split
  next at_head => exact stays at_head nofun nofun nofun
  next => exact inv
  next at_end => exact stays at_end (fun _ => rfl) (fun _ => rfl) nofun
  next rest at_socket => exact stays at_socket (fun _ => rfl) (fun _ => rfl) fun reads => reads
  next rest at_wakeup => exact stays at_wakeup (fun _ => rfl) (fun _ => rfl) fun _ => rfl
  next rest reading => exact inv.readWakeupData reading
  next at_timer => exact stays at_timer (fun _ => rfl) (fun _ => rfl) nofun
  next at_loop =>
    refine ⟨.nil, .nil, .inl rfl, inv.written, fun written => (inv.reported written).imp_right fun reads => ?_⟩
    rw [at_loop] at reads
    cases reads
  next at_regiter =>
    have pkts := inv.pkts
    have closes := inv.closes
    rw [at_regiter] at pkts closes
    refine ⟨pkts, closes, .nil, inv.written, fun written => (inv.reported written).imp_right fun reads => ?_⟩
    rw [at_regiter] at reads
    cases reads
  next => exact inv

theorem Inv.exec (inv : Inv s) (step : Step) : Inv (step.exec s) := by
  unfold Step.exec
  split
  next thread post =>
    split
    next idle =>
      have idle : s.posters (Item.mk s.next thread post).thread = .idle := idle
      exact inv.push idle
    next => exact inv
  next thread sent reported =>
    split
    next => exact inv
    next =>
      split
      next =>
        refine inv.woken (Nat.succ_pos s.unread) rfl rfl ?_
        show (s.ready || s.drained || reported) = true ∨ (s.ready || s.drained || reported) = s.ready ∧ s.drained = false
        cases s.ready <;> cases s.drained <;> cases reported <;> simp
      next =>
        split
        next bytes => exact inv.woken bytes (inv.written bytes) rfl (.inr ⟨rfl, inv.written bytes⟩)
        next => exact inv
  next batch =>
    split
    next waiting =>
      split
      next => exact inv
      next => exact inv.epollWait waiting
    next => exact inv
  next => exact inv.advance

/-- What holds while the loop is in `epoll_wait`. -/
structure NothingMissed (s : State) : Prop where
  /-- With no byte on the wakeup socket, each entry of the three lists is of a thread before its `Wakeup`. -/
  quiet : s.unread = 0 → ∀ item ∈ s.registerEventList ++ s.pktList ++ s.closeList, s.posters item.thread = .pushed item
  /-- With a byte on it, `epoll_wait` returns. -/
  woken : 0 < s.unread → s.ready = true

theorem Announced.threads (announced : Announced posters unread swaps list) (asleep : swaps = false) (quiet : unread = 0) :
    ∀ item ∈ list, posters item.thread = .pushed item := by
  rcases announced with soon | byte | threads
  · rw [asleep] at soon
    cases soon
  · omega
  · exact threads

theorem Inv.nothingMissed (inv : Inv s) (waiting : s.pc = .waiting) : NothingMissed s := by
  constructor
  · intro quiet item member
    rcases List.mem_append.mp member with first | close
    · rcases List.mem_append.mp first with register | pkt
      · exact inv.registers.threads (by rw [waiting]; rfl) quiet item register
      · exact inv.pkts.threads (by rw [waiting]; rfl) quiet item pkt
    · exact inv.closes.threads (by rw [waiting]; rfl) quiet item close
  · intro bytes
    rcases inv.reported (inv.written bytes) with ready | reads
    · exact ready
    · rw [waiting] at reads
      cases reads

theorem Inv.init : Inv .init := ⟨.nil, .nil, .nil, nofun, nofun⟩

/-- **Posted work never misses its wake-up**, in every state in which the loop waits. -/
theorem nothing_missed (steps : List Step) (waiting : (runLoop steps).pc = .waiting) : NothingMissed (runLoop steps) := by
  have inv : Inv (runLoop steps) := Lib.run_inv (I := Inv) (fun _ step inv => inv.exec step) .init steps
  exact inv.nothingMissed waiting

/-- A thread has pushed and not called `Wakeup` yet when the loop goes to sleep. -/
theorem nothing_missed_pushed : NothingMissed (runLoop [.push 0 (.closeHandle 1), .advance]) :=
  nothing_missed _ rfl

end Netter.Wakeup
