import Mathlib.Data.List.Pairwise
import Netter.Conn.Receive

/-!
# Packets that are created by `_ParsePkt`

`_ParsePkt` deletes each packet behind the call of `HandlePkt`. When `HandlePkt` throws, the exception goes past
that line, and the `catch` block closes the connection and leaves the packet where it is.
-/

namespace Netter.BaseConn

open Lib PktBase

/-- The packets created after `past` are deleted once, and no others. -/
def FreedOnce (past events : List ConnEvent) : Prop :=
  ∀ k, events.count (.deleted k) = if (packets past).length ≤ k ∧ k < (packets (past ++ events)).length then 1 else 0

/-- The second event is no packet when the first one is a close or an exception. -/
def NotBehind (event later : ConnEvent) : Prop :=
  (event = .closed ∨ ∃ ex, event = .thrown ex) → ∀ pkt, later ≠ .handled pkt

/-- What a `_ParsePkt` that starts after `past` has done when it returns with this handle. -/
structure Tidy (handlePkt : HandlePkt) (past events : List ConnEvent) (handle : NetHandle) : Prop where
  freed : FreedOnce past events
  /-- An exception closes the connection. -/
  thrown : ∀ ex, .thrown ex ∈ events → handle = invalidHandle
  /-- One of `HandlePkt` ends the parsing, too: its packet is the last one. -/
  throws : ∀ k, (packets past).length ≤ k → k < (packets (past ++ events)).length →
    (handlePkt ((packets (past ++ events)).take (k + 1))).throws ≠ none →
    handle = invalidHandle ∧ (packets (past ++ events)).length = k + 1
  /-- No packet is handled after a close or an exception. -/
  last : events.Pairwise NotBehind

def Released (handlePkt : HandlePkt) (s t : ConnState) : Prop :=
  ∃ events, t.trace = s.trace ++ events ∧ Tidy handlePkt s.trace events t.conn.handle

/-- `HandlePkt` throws for none of the packets that it is called with: those at the front of `data`, up to one that is
malformed or incomplete or that it closes the connection with. -/
inductive Returns (handlePkt : HandlePkt) (handle : NetHandle) : List Received → List UInt8 → Prop where
  | incomplete {seen : List Received} {data : List UInt8} (frame : frameAt data = .incomplete) :
      Returns handlePkt handle seen data
  | malformed {seen : List Received} {data : List UInt8} {ex : PktException} (frame : frameAt data = .malformed ex) :
      Returns handlePkt handle seen data
  | last {seen : List Received} {data : List UInt8} {len : UInt32} (frame : frameAt data = .packet len)
      (returns : (handlePkt (seen ++ [receivedAt data len])).throws = none)
      (closed : handle = invalidHandle ∨ closes (handlePkt (seen ++ [receivedAt data len])).acts = true) :
      Returns handlePkt handle seen data
  | next {seen : List Received} {data : List UInt8} {len : UInt32} (frame : frameAt data = .packet len)
      (returns : (handlePkt (seen ++ [receivedAt data len])).throws = none)
      (more : Returns handlePkt handle (seen ++ [receivedAt data len]) (data.drop len.toNat)) :
      Returns handlePkt handle seen data

variable {handlePkt : HandlePkt} {s t : ConnState} {data : List UInt8} {len : UInt32}

/-! ## One packet -/

/-- Only closes are recorded while a `HandlePkt` runs. -/
theorem runActs_trace (acts : List HandlerAct) (pkt : PktBase) :
    wp (runActs acts pkt) (fun _ t => ∃ n, t.trace = s.trace ++ List.replicate n .closed ∧
      (closes acts = false → n = 0)) (fun _ _ => True) s := by
  induction acts generalizing pkt s with
  | nil => exact ⟨0, (List.append_nil _).symm, fun _ => rfl⟩
  | cons act acts ih =>
    cases act with
    | header op =>
      unfold runActs orUndefined
      rw [wp_bind, wp_get, wp_bind]
      cases op.exec pkt s.conn.inBuf.buffer with
      | none => exact trivial
      | some result => exact ih result.1
    | close =>
      unfold runActs
      rw [wp_bind]
      by_cases closed : s.conn.handle = invalidHandle
      · refine (close_wp_closed closed).call fun _ t is => ?_
        subst is
        refine (ih pkt).mono (fun _ u ends => ?_) fun _ _ h => h
        obtain ⟨n, trace, -⟩ := ends
        exact ⟨n, trace, fun none => by cases none⟩
      · refine (close_wp closed).call fun _ t closes => ?_
        refine (ih pkt).mono (fun _ u ends => ?_) fun _ _ h => h
        obtain ⟨n, trace, -⟩ := ends
        refine ⟨n + 1, ?_, fun none => by cases none⟩
        rw [trace, closes.2.2, List.append_assoc, List.replicate_succ]
        rfl

/-- A call of `HandlePkt` with the packet in front has come to its end, in one way or the other. -/
structure Handled (handlePkt : HandlePkt) (data : List UInt8) (len : UInt32) (s t : ConnState) : Prop where
  wf : t.conn.inBuf.WF
  tail : t.conn.inBuf.content.drop len.toNat = data.drop len.toNat
  size : t.conn.inBuf.content.length = data.length
  handle : t.conn.handle = if closes (handlePkt (packets s.trace ++ [receivedAt data len])).acts then invalidHandle
    else s.conn.handle
  trace : ∃ n, t.trace = s.trace ++ .handled (receivedAt data len) :: List.replicate n .closed ∧
    (closes (handlePkt (packets s.trace ++ [receivedAt data len])).acts = false → n = 0)

theorem callHandlePkt_ends (wf : s.conn.inBuf.WF) (queue : s.conn.inBuf.content = data)
    (frame : frameAt data = .packet len) :
    wp (callHandlePkt handlePkt ⟨.init, some ⟨s.conn.inBuf.readOffset, len⟩, headerAt (data.take len.toNat)⟩)
      (fun _ t => Handled handlePkt data len s t ∧
        (handlePkt (packets s.trace ++ [receivedAt data len])).throws = none)
      (fun stop t => Handled handlePkt data len s t ∧ ∃ ex, stop = .throws ex ∧
        (handlePkt (packets s.trace ++ [receivedAt data len])).throws = some ex) s := by
  obtain ⟨header, short, -⟩ := le_of_frameAt frame
  have header' : 16 ≤ s.conn.inBuf.content.length := by
    rw [queue]
    exact Nat.le_trans header short
  refine callHandlePkt_acts wf queue frame fun pkt here => ?_
  refine (wp.and (runActs_wp (by exact here) (by exact wf) (by exact header')) (runActs_trace _ pkt)).mono ?_ fun _ _ h => h.1
  rintro - t ⟨acted, n, trace, quiet⟩
  refine ⟨acted.wf, (acted.drop header).trans (by rw [← queue]), ?_, acted.handle, n, ?_, quiet⟩
  · exact acted.size.trans (congrArg List.length queue)
  · rw [trace, List.append_assoc]
    rfl

/-! ## The traces -/

theorem packets_append_all (past events : List ConnEvent) : packets (past ++ events) = packets past ++ packets events :=
  List.filterMap_append

theorem packets_replicate_closed (n : Nat) : packets (List.replicate n .closed) = [] := by
  refine List.filterMap_eq_nil_iff.mpr fun event member => ?_
  rw [List.eq_of_mem_replicate member]

theorem count_deleted_replicate (n k : Nat) : (List.replicate n ConnEvent.closed).count (.deleted k) = 0 :=
  List.count_eq_zero.mpr fun member => nomatch List.eq_of_mem_replicate member

/-- What the loop has recorded when it goes on, or ends without an exception of `HandlePkt`. -/
structure Rounds (handlePkt : HandlePkt) (past events : List ConnEvent) : Prop where
  freed : FreedOnce past events
  quiet : ∀ ex, .thrown ex ∉ events
  returned : ∀ k, (packets past).length ≤ k → k < (packets (past ++ events)).length →
    (handlePkt ((packets (past ++ events)).take (k + 1))).throws = none
  last : events.Pairwise NotBehind

theorem Rounds.nil (past : List ConnEvent) : Rounds handlePkt past [] := by
  refine ⟨fun k => ?_, nofun, fun k after before => ?_, .nil⟩
  · rw [List.append_nil]
    exact (if_neg (by omega)).symm
  · rw [List.append_nil] at before
    omega

/-- The records of one round with a `HandlePkt` that has returned. -/
def roundEvents (past : List ConnEvent) (pkt : Received) (n : Nat) : List ConnEvent :=
  .handled pkt :: (List.replicate n .closed ++ [.deleted (packets past).length])

variable {past events : List ConnEvent} {pkt : Received} {n : Nat}

theorem mem_roundEvents {event : ConnEvent} (member : event ∈ roundEvents past pkt n) :
    event = .handled pkt ∨ n ≠ 0 ∧ event = .closed ∨ event = .deleted (packets past).length := by
  rcases List.mem_cons.mp member with handled | behind
  · exact .inl handled
  rcases List.mem_append.mp behind with closed | deleted
  · exact .inr (.inl (List.mem_replicate.mp closed))
  · exact .inr (.inr (List.mem_singleton.mp deleted))

theorem packets_roundEvents (past : List ConnEvent) (pkt : Received) (n : Nat) :
    packets (roundEvents past pkt n) = [pkt] := by
  have one : packets (roundEvents past pkt n) =
      pkt :: packets (List.replicate n .closed ++ [.deleted (packets past).length]) := rfl
  rw [one, packets_append_all, packets_replicate_closed]
  rfl

theorem count_roundEvents (past : List ConnEvent) (pkt : Received) (n k : Nat) :
    (roundEvents past pkt n).count (.deleted k) = if k = (packets past).length then 1 else 0 := by
  have none := count_deleted_replicate n k
  unfold roundEvents
  rw [List.count_cons_of_ne (by nofun), List.count_append, none, List.count_singleton, Nat.zero_add]
  by_cases same : k = (packets past).length
  · rw [if_pos same, if_pos (beq_iff_eq.mpr (by rw [same]))]
  · rw [if_neg same, if_neg fun equal => same (ConnEvent.deleted.inj (beq_iff_eq.mp equal)).symm]

theorem pairwise_roundEvents (past : List ConnEvent) (pkt : Received) (n : Nat) :
    (roundEvents past pkt n).Pairwise NotBehind := by
  refine List.pairwise_cons.mpr ⟨fun later _ ends => ?_, ?_⟩
  · rcases ends with ends | ⟨ex, ends⟩ <;> cases ends
  · refine List.pairwise_of_forall_mem_list fun event _ later member _ other => ?_
    rcases List.mem_append.mp member with closed | deleted
    · rw [List.eq_of_mem_replicate closed]
      nofun
    · rw [List.mem_singleton.mp deleted]
      nofun

/-- A round and then others, which there are only when it has not closed the connection. -/
theorem Rounds.cons (returns : (handlePkt (packets past ++ [pkt])).throws = none)
    (rest : Rounds handlePkt (past ++ roundEvents past pkt n) events) (ends : n = 0 ∨ events = []) :
    Rounds handlePkt past (roundEvents past pkt n ++ events) := by
  have one := packets_roundEvents past pkt n
  constructor
  · intro k
    have freed := rest.freed k
    simp only [packets_append_all, one, List.length_append, List.length_singleton] at freed
    simp only [List.count_append, count_roundEvents, freed, packets_append_all, one, List.length_append,
      List.length_singleton]
    split <;> split <;> split <;> omega
  · intro ex member
    rcases List.mem_append.mp member with here | later
    · rcases mem_roundEvents here with is | ⟨-, is⟩ | is <;> cases is
    · exact rest.quiet ex later
  · intro k after before
    have later := rest.returned k
    simp only [packets_append_all, one, List.length_append, List.length_singleton] at later before
    simp only [packets_append_all, one]
    by_cases here : k = (packets past).length
    · have front : (packets past ++ ([pkt] ++ packets events)).take (k + 1) = packets past ++ [pkt] := by
        rw [← List.append_assoc]
        exact List.take_left' (by rw [List.length_append, here]; rfl)
      rw [front]
      exact returns
    · rw [List.append_assoc] at later
      exact later (by omega) (by omega)
  · refine List.pairwise_append.mpr ⟨pairwise_roundEvents past pkt n, rest.last, fun event here later member stops => ?_⟩
    rcases mem_roundEvents here with is | ⟨some, -⟩ | is
    · subst is
      rcases stops with stops | ⟨ex, stops⟩ <;> cases stops
    · rw [ends.resolve_left some] at member
      cases member
    · subst is
      rcases stops with stops | ⟨ex, stops⟩ <;> cases stops

/-- A packet that has been handled and not deleted. -/
def Leaks (past events : List ConnEvent) : Prop :=
  ∃ k, (packets past).length ≤ k ∧ k < (packets (past ++ events)).length ∧ .deleted k ∉ events

theorem Leaks.cons (leaks : Leaks (past ++ roundEvents past pkt n) events) :
    Leaks past (roundEvents past pkt n ++ events) := by
  obtain ⟨k, after, before, alive⟩ := leaks
  rw [packets_append_all, packets_roundEvents, List.length_append, List.length_singleton] at after
  refine ⟨k, by omega, by rw [← List.append_assoc]; exact before, fun deleted => ?_⟩
  rcases List.mem_append.mp deleted with here | later
  · rcases mem_roundEvents here with is | ⟨-, is⟩ | is
    · cases is
    · cases is
    · have same := ConnEvent.deleted.inj is
      omega
  · exact alive later

theorem Leaks.not_freed (leaks : Leaks past events) : ¬ FreedOnce past events := by
  intro freed
  obtain ⟨k, after, before, alive⟩ := leaks
  have once := freed k
  rw [if_pos ⟨after, before⟩, List.count_eq_zero.mpr alive] at once
  cases once

/-! ## The loop -/

theorem returns_packet {handle : NetHandle} {seen : List Received} (frame : frameAt data = .packet len) :
    Returns handlePkt handle seen data ↔ (handlePkt (seen ++ [receivedAt data len])).throws = none ∧
      ((handle = invalidHandle ∨ closes (handlePkt (seen ++ [receivedAt data len])).acts = true) ∨
        Returns handlePkt handle (seen ++ [receivedAt data len]) (data.drop len.toNat)) := by
  constructor
  · intro all
    cases all with
    | incomplete other => cases frame.symm.trans other
    | malformed other => cases frame.symm.trans other
    | last other returns closed =>
      cases frame.symm.trans other
      exact ⟨returns, .inl closed⟩
    | next other returns more =>
      cases frame.symm.trans other
      exact ⟨returns, .inr more⟩
  · rintro ⟨returns, closed | more⟩
    · exact .last frame returns closed
    · exact .next frame returns more

/-- The loop has ended without an exception. -/
structure Finished (handlePkt : HandlePkt) (data : List UInt8) (s t : ConnState) : Prop where
  returns : Returns handlePkt s.conn.handle (packets s.trace) data
  wf : t.conn.inBuf.WF
  trace : ∃ events, t.trace = s.trace ++ events ∧ Rounds handlePkt s.trace events

/-- It has ended with an exception, either of `ReadPacket` or of `HandlePkt`, and a header is there. -/
structure Threw (handlePkt : HandlePkt) (data : List UInt8) (s t : ConnState) : Prop where
  wf : t.conn.inBuf.WF
  header : 16 ≤ t.conn.inBuf.content.length
  trace : ∃ events, t.trace = s.trace ++ events ∧
    (Returns handlePkt s.conn.handle (packets s.trace) data ∧ Rounds handlePkt s.trace events ∨
      ¬ Returns handlePkt s.conn.handle (packets s.trace) data ∧ Leaks s.trace events)

section Cons

variable {m u : ConnState} (frame : frameAt data = .packet len)
  (returns : (handlePkt (packets s.trace ++ [receivedAt data len])).throws = none) (handle : m.conn.handle = s.conn.handle)
  (trace : m.trace = s.trace ++ roundEvents s.trace (receivedAt data len) 0)

include frame returns handle trace

theorem Finished.cons (rest : Finished handlePkt (data.drop len.toNat) m u) : Finished handlePkt data s u := by
  obtain ⟨more, wf, events, last, rounds⟩ := rest
  rw [trace] at last rounds
  rw [trace, handle, packets_append_all, packets_roundEvents] at more
  refine ⟨.next frame returns more, wf, _, ?_, rounds.cons returns (.inl rfl)⟩
  rw [last, List.append_assoc]

theorem Threw.cons (stays : ¬ (s.conn.handle = invalidHandle ∨
      closes (handlePkt (packets s.trace ++ [receivedAt data len])).acts = true))
    (rest : Threw handlePkt (data.drop len.toNat) m u) : Threw handlePkt data s u := by
  obtain ⟨wf, header, events, last, ends⟩ := rest
  rw [trace] at last ends
  rw [handle, packets_append_all, packets_roundEvents] at ends
  refine ⟨wf, header, _, by rw [last, List.append_assoc], ?_⟩
  rcases ends with ⟨more, rounds⟩ | ⟨fails, leaks⟩
  · exact .inl ⟨.next frame returns more, rounds.cons returns (.inl rfl)⟩
  · refine .inr ⟨fun all => ?_, leaks.cons⟩
    obtain ⟨-, closed | more⟩ := (returns_packet frame).mp all
    · exact stays closed
    · exact fails more

end Cons

theorem Handled.closed (handled : Handled handlePkt data len s t) (closed : t.conn.handle = invalidHandle) :
    s.conn.handle = invalidHandle ∨ closes (handlePkt (packets s.trace ++ [receivedAt data len])).acts = true := by
  by_contra stays
  rw [handled.handle, if_neg fun closing => stays (.inr closing)] at closed
  exact stays (.inl closed)

theorem Handled.stays (handled : Handled handlePkt data len s t) (registered : t.conn.handle ≠ invalidHandle) :
    ¬ closes (handlePkt (packets s.trace ++ [receivedAt data len])).acts = true ∧ t.conn.handle = s.conn.handle := by
  have stays : ¬ closes (handlePkt (packets s.trace ++ [receivedAt data len])).acts = true := by
    intro closing
    rw [handled.handle, if_pos closing] at registered
    exact registered rfl
  exact ⟨stays, by rw [handled.handle, if_neg stays]⟩

/-- An exception of `HandlePkt` goes past the `delete` of its packet. -/
theorem Handled.threw {ex : PktException} (handled : Handled handlePkt data len s t) (frame : frameAt data = .packet len)
    (throws : (handlePkt (packets s.trace ++ [receivedAt data len])).throws = some ex) : Threw handlePkt data s t := by
  obtain ⟨header, short, -⟩ := le_of_frameAt frame
  obtain ⟨n, trace, -⟩ := handled.trace
  have size := handled.size
  refine ⟨handled.wf, by omega, _, trace, .inr ⟨fun all => ?_, ?_⟩⟩
  · have returns := ((returns_packet frame).mp all).1
    rw [throws] at returns
    cases returns
  · refine ⟨(packets s.trace).length, Nat.le_refl _, ?_, fun deleted => ?_⟩
    · have more : packets (.handled (receivedAt data len) :: List.replicate n .closed) = [receivedAt data len] :=
        congrArg (receivedAt data len :: ·) (packets_replicate_closed n)
      rw [packets_append_all, more, List.length_append]
      exact Nat.lt_succ_self _
    · rcases List.mem_cons.mp deleted with is | later
      · cases is
      · cases List.eq_of_mem_replicate later

theorem parseLoop_ends {fuel : Nat} (wf : s.conn.inBuf.WF) (queue : s.conn.inBuf.content = data)
    (enough : data.length < fuel) :
    wp (parseLoop handlePkt fuel) (fun _ t => Finished handlePkt data s t)
      (fun stop t => (∃ ex, stop = .throws ex) ∧ Threw handlePkt data s t) s := by
  induction fuel generalizing s data with
  | zero => omega
  | succ fuel ih =>
    have next := readPacket_inBuf wf
    rw [queue] at next
    simp only [parseLoop, wp_bind, wp_get]
    rw [next]
    cases frame : frameAt data with
    | incomplete => exact ⟨.incomplete frame, wf, [], (List.append_nil _).symm, .nil _⟩
    | malformed ex =>
      refine ⟨⟨ex, rfl⟩, wf, ?_, [], (List.append_nil _).symm, .inl ⟨.malformed frame, .nil _⟩⟩
      rw [queue]
      exact le_of_malformed frame
    | packet len =>
      obtain ⟨header, short, -⟩ := le_of_frameAt frame
      simp only [wp_ofExcept_ok, wp_bind]
      refine (callHandlePkt_ends wf queue frame).mono ?_ ?_
      · rintro - t ⟨handled, returns⟩
        obtain ⟨n, trace, quiet⟩ := handled.trace
        obtain ⟨wf', queue', -⟩ := SimpleBuffer.readNull_spec handled.wf len
        rw [handled.tail] at queue'
        simp only [wp_modify, record, wp_get, getLength, wp_ite, wp_pure]
        have events : t.trace ++ [.deleted (packets s.trace).length] =
            s.trace ++ roundEvents s.trace (receivedAt data len) n := by
          rw [trace, List.append_assoc]
          rfl
        rw [events]
        split
        · next closed =>
          have rounds := (Rounds.nil (s.trace ++ roundEvents s.trace (receivedAt data len) n)).cons returns (.inr rfl)
          have all := (returns_packet frame).mpr ⟨returns, .inl (handled.closed closed)⟩
          exact ⟨all, wf', _, by rw [List.append_nil], rounds⟩
        · next registered =>
          obtain ⟨stays, same⟩ := handled.stays registered
          rw [same] at registered
          obtain rfl := quiet (Bool.eq_false_iff.mpr stays)
          refine (ih wf' queue' (by rw [List.length_drop]; omega)).mono ?_ ?_
          · rintro - u rest
            exact rest.cons frame returns (by exact same) (by rfl)
          · rintro stop u ⟨ex, rest⟩
            exact ⟨ex, rest.cons frame returns (by exact same) (by rfl) fun ends => ends.elim registered stays⟩
      · rintro stop t ⟨handled, ex, is, throws⟩
        exact ⟨⟨ex, is⟩, handled.threw frame throws⟩

/-! ## `_ParsePkt` -/

/-- The records of the `catch` block: the exception, and the close unless there has been one. -/
theorem catchPkt_ends {ex : PktException} (wf : s.conn.inBuf.WF) (header : 16 ≤ s.conn.inBuf.content.length) :
    wp (catchPkt ex) (fun _ t => t.conn.inBuf = s.conn.inBuf ∧ t.conn.handle = invalidHandle ∧ ∃ n,
      t.trace = s.trace ++ .thrown ex :: List.replicate n .closed) Never s := by
  refine catchPkt_onClose wf header (onClose_wp.call ?_)
  rintro - t ⟨same, handle, n, trace⟩
  refine ⟨same, handle, n, ?_⟩
  rw [trace, List.append_assoc]
  rfl

/-- What the `catch` block records behind `events`. -/
def caught (events : List ConnEvent) (ex : PktException) (n : Nat) : List ConnEvent :=
  events ++ .thrown ex :: List.replicate n .closed

theorem mem_catch {ex : PktException} {event : ConnEvent}
    (member : event ∈ ConnEvent.thrown ex :: List.replicate n .closed) : event = .thrown ex ∨ event = .closed :=
  (List.mem_cons.mp member).imp_right List.eq_of_mem_replicate

theorem packets_caught (past events : List ConnEvent) (ex : PktException) (n : Nat) :
    packets (past ++ caught events ex n) = packets (past ++ events) := by
  have none : packets (ConnEvent.thrown ex :: List.replicate n .closed) = [] := packets_replicate_closed n
  rw [caught, ← List.append_assoc, packets_append_all, none, List.append_nil]

theorem Rounds.tidy {handle : NetHandle} (rounds : Rounds handlePkt past events) : Tidy handlePkt past events handle :=
  ⟨rounds.freed, fun ex thrown => absurd thrown (rounds.quiet ex),
    fun k after before throws => absurd (rounds.returned k after before) throws, rounds.last⟩

/-- The exception was one of `ReadPacket`. -/
theorem Rounds.caught {ex : PktException} (rounds : Rounds handlePkt past events) :
    Tidy handlePkt past (caught events ex n) invalidHandle := by
  constructor
  · intro k
    have none := count_deleted_replicate n k
    rw [packets_caught, ← rounds.freed k, BaseConn.caught, List.count_append, List.count_cons_of_ne (by nofun), none]
    rfl
  · exact fun _ _ => rfl
  · intro k after before throws
    rw [packets_caught] at before throws
    exact absurd (rounds.returned k after before) throws
  · refine List.pairwise_append.mpr ⟨rounds.last, ?_, fun event _ later member _ => ?_⟩
    · refine List.pairwise_of_forall_mem_list fun event _ later member _ => ?_
      rcases mem_catch member with is | is
      · rw [is]
        nofun
      · rw [is]
        nofun
    · rcases mem_catch member with is | is
      · rw [is]
        nofun
      · rw [is]
        nofun

theorem Leaks.caught {ex : PktException} (leaks : Leaks past events) : Leaks past (caught events ex n) := by
  obtain ⟨k, after, before, alive⟩ := leaks
  refine ⟨k, after, by rw [packets_caught]; exact before, fun deleted => ?_⟩
  rcases List.mem_append.mp deleted with here | later
  · exact alive here
  · rcases mem_catch later with is | is <;> cases is

/-- What a call of `_ParsePkt` comes to. -/
structure Parsed (handlePkt : HandlePkt) (s t : ConnState) (events : List ConnEvent) : Prop where
  wf : t.conn.inBuf.WF
  trace : t.trace = s.trace ++ events
  ends : Returns handlePkt s.conn.handle (packets s.trace) s.conn.inBuf.content ∧
      Tidy handlePkt s.trace events t.conn.handle ∨
    ¬ Returns handlePkt s.conn.handle (packets s.trace) s.conn.inBuf.content ∧ Leaks s.trace events

theorem parsePkt_ends (handlePkt : HandlePkt) (wf : s.conn.inBuf.WF) :
    wp (parsePkt handlePkt) (fun _ t => ∃ events, Parsed handlePkt s t events) Never s := by
  have enough : s.conn.inBuf.content.length < s.conn.inBuf.getReadableLen.toNat + 1 := by
    rw [wf.toNat_getReadableLen]
    exact Nat.lt_succ_self _
  simp only [parsePkt, wp_tryCatch, wp_bind, wp_get]
  refine (parseLoop_ends wf rfl enough).mono ?_ ?_
  · rintro - t ⟨returns, wf', events, trace, rounds⟩
    obtain ⟨inBuf, reset, wf'', -⟩ := SimpleBuffer.resetOffset_spec wf'
    simp only [reset, orUndefined, Stop.ofOption, wp_ofExcept_ok, wp_set]
    exact ⟨events, wf'', trace, .inl ⟨returns, rounds.tidy⟩⟩
  · rintro stop t ⟨⟨ex, is⟩, wf', header, events, trace, ends⟩
    subst is
    refine (catchPkt_ends wf' header).call fun _ u ⟨same, closed, n, trace'⟩ => ⟨caught events ex n, ?_, ?_, ?_⟩
    · exact same ▸ wf'
    · rw [trace', trace, List.append_assoc]
      rfl
    · rw [closed]
      exact ends.imp (.imp_right Rounds.caught) (.imp_right Leaks.caught)

theorem packets_released_iff (wf : s.conn.inBuf.WF) :
    (∃ t, (parsePkt handlePkt).run s = .ok () t ∧ Released handlePkt s t) ↔
      Returns handlePkt s.conn.handle (packets s.trace) s.conn.inBuf.content := by
  obtain ⟨_, t, run, events, -, trace, ends⟩ := wp_never.mp (parsePkt_ends handlePkt wf)
  constructor
  · rintro ⟨t', run', events', trace', tidy⟩
    obtain rfl : t = t' := by
      rw [run] at run'
      exact EStateM.Result.ok.inj run' |>.2
    obtain rfl : events = events' := List.append_cancel_left (trace.symm.trans trace')
    exact ends.elim And.left fun ⟨_, leaks⟩ => absurd tidy.freed leaks.not_freed
  · intro returns
    obtain ⟨-, tidy⟩ := ends.resolve_right fun fails => fails.1 returns
    exact ⟨t, run, events, trace, tidy⟩

/-- A connection with one heartbeat to parse. -/
def heartbeatRead : ConnState :=
  ⟨⟨1, false, true, ⟨16, ⟨[0, 0, 0, 16, 0, 1, 0, 0, 0, 0, 0, 1, 0, 0, 0, 0], rfl⟩, 16, 0⟩, .init, []⟩,
    ⟨.connected, [], false, [], [], true⟩, []⟩

/-- A `HandlePkt` that closes the connection. -/
theorem packets_released_close : ∃ t, (parsePkt fun _ => ⟨[.close], none⟩).run heartbeatRead = .ok () t ∧
    Released (fun _ => ⟨[.close], none⟩) heartbeatRead t := by
  refine (packets_released_iff ⟨by decide, by decide⟩).mpr ?_
  have frame : frameAt heartbeatRead.conn.inBuf.content = .packet 16 := by decide
  exact .last frame rfl (.inr rfl)

/-- One that throws. -/
def refusing : HandlePkt := fun _ => ⟨[], some ⟨.wrongPktLen, "refused"⟩⟩

theorem not_packets_released :
    ¬ ∃ t, (parsePkt refusing).run heartbeatRead = .ok () t ∧ Released refusing heartbeatRead t := by
  rintro ⟨t, run, events, trace, tidy⟩
  obtain ⟨t', run', trace'⟩ : ∃ t', (parsePkt refusing).run heartbeatRead = .ok () t' ∧ t'.trace =
      [.handled ⟨⟨16, 1, 0, 1, 0⟩, [0, 0, 0, 16, 0, 1, 0, 0, 0, 0, 0, 1, 0, 0, 0, 0]⟩,
        .thrown ⟨.wrongPktLen, "refused"⟩, .closed] := ⟨_, rfl, rfl⟩
  obtain rfl : t' = t := by
    rw [run'] at run
    exact (EStateM.Result.ok.inj run).2
  have recorded := trace.symm.trans trace'
  rw [show heartbeatRead.trace = [] from rfl, List.nil_append] at recorded
  subst recorded
  have once := tidy.freed 0
  revert once
  decide

end Netter.BaseConn
