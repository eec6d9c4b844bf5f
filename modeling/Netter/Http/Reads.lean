import Netter.Http.Feed

/-!
# Reading the head of a message

`Reads e bytes calls Q`: if there is room for these bytes below the limit for a head, they are read without an error, with
these callbacks, and `Q` holds behind them; if not, the parser is left in them. The rules follow the grammar: one
byte, one part after the other, a word byte after byte, any number of parts.
-/

namespace Netter.Http

open Lib

variable {e t : Exec} {ch : UInt8} {bytes behind : List UInt8} {calls more : List Callback} {Q R : Exec → Prop}

/-- Read without an error. -/
structure ReadsTo (e : Exec) (bytes : List UInt8) (calls : List Callback) (t : Exec) : Prop where
  ran : emit Run.step (.going e) bytes = (.going t, calls)
  counted : t.parser.nread.toNat = e.parser.nread.toNat + bytes.length
  goes : .messageComplete ∉ calls

/-- Left on the way. -/
structure Fails (e : Exec) (bytes : List UInt8) : Prop where
  ran : ∃ p, (emit Run.step (.going e) bytes).1 = .left p
  quiet : .messageComplete ∉ (emit Run.step (.going e) bytes).2

/-- There is room for so many bytes more. -/
def Exec.Room (e : Exec) (n : Nat) : Prop := e.parser.nread.toNat + n ≤ httpMaxHeaderSize.toNat

def Reads (e : Exec) (bytes : List UInt8) (calls : List Callback) (Q : Exec → Prop) : Prop :=
  e.Room 0 → (e.Room bytes.length → ∃ t, ReadsTo e bytes calls t ∧ Q t) ∧ (¬ e.Room bytes.length → Fails e bytes)

/-- A byte of a head is counted. -/
def Exec.count (e : Exec) : Exec := { e with parser := { e.parser with nread := e.parser.nread + 1 } }

@[simp] theorem Exec.count_state : e.count.parser.state = e.parser.state := rfl

theorem Exec.count_nread (room : e.Room 0) : e.count.parser.nread.toNat = e.parser.nread.toNat + 1 := by
  have small : httpMaxHeaderSize.toNat = 81920 := rfl
  have room : e.parser.nread.toNat ≤ httpMaxHeaderSize.toNat := room
  show (e.parser.nread + 1).toNat = _
  rw [UInt32.toNat_add]
  exact Nat.mod_eq_of_lt (by show e.parser.nread.toNat + 1 < 2 ^ 32; omega)

theorem Exec.byte_of_room (head : e.parser.state.parsingHeader = true) (room : e.Room 1) (rest : List UInt8) :
    e.byte ch rest = e.count.switch ch rest := by
  have room : e.parser.nread.toNat + 1 ≤ httpMaxHeaderSize.toNat := room
  have inside : ¬ httpMaxHeaderSize < e.count.parser.nread := by
    rw [UInt32.lt_iff_toNat_lt, count_nread (Nat.le_of_succ_le room)]
    omega
  unfold byte
  rw [head, if_pos rfl]
  exact if_neg inside

theorem Exec.byte_of_full (ch : UInt8) (head : e.parser.state.parsingHeader = true) (room : e.Room 0) (full : ¬ e.Room 1)
    (rest : List UInt8) : e.byte ch rest = e.count.fail .headerOverflow := by
  have outside : httpMaxHeaderSize < e.count.parser.nread := by
    rw [UInt32.lt_iff_toNat_lt, count_nread room]
    exact Nat.lt_of_not_le full
  unfold byte
  rw [head, if_pos rfl]
  exact if_pos outside

theorem Fails.byte (head : e.parser.state.parsingHeader = true) (room : e.Room 0) (full : ¬ e.Room 1) : Fails e [ch] := by
  have step := Run.step_leave (Exec.byte_of_full ch head room full [])
  constructor
  · exact ⟨_, by rw [emit_cons, emit_nil, step]⟩
  · rw [emit_cons, emit_nil, step]
    nofun

theorem ReadsTo.nil (e : Exec) : ReadsTo e [] [] e := ⟨rfl, rfl, nofun⟩

theorem ReadsTo.append {u : Exec} (first : ReadsTo e bytes calls t) (rest : ReadsTo t behind more u) :
    ReadsTo e (bytes ++ behind) (calls ++ more) u := by
  refine ⟨?_, ?_, ?_⟩
  · rw [emit_append, first.ran, rest.ran]
  · rw [rest.counted, first.counted, List.length_append, Nat.add_assoc]
  · rw [List.mem_append]
    exact fun done => done.elim first.goes rest.goes

theorem Fails.append (fails : Fails e bytes) (behind : List UInt8) : Fails e (bytes ++ behind) := by
  obtain ⟨⟨p, ran⟩, quiet⟩ := fails
  have still : emit Run.step (.left p) behind = (.left p, []) := emit_of_still (fun _ => rfl) behind
  constructor
  · exact ⟨p, by rw [emit_append, ran, still]⟩
  · rw [emit_append, ran, still, List.append_nil]
    exact quiet

theorem ReadsTo.fails (first : ReadsTo e bytes calls t) (fails : Fails t behind) : Fails e (bytes ++ behind) := by
  obtain ⟨⟨p, ran⟩, quiet⟩ := fails
  constructor
  · exact ⟨p, by rw [emit_append, first.ran]; exact ran⟩
  · rw [emit_append, first.ran, List.mem_append]
    exact fun done => done.elim first.goes quiet

namespace Reads

theorem nil (post : Q e) : Reads e [] [] Q := fun room =>
  ⟨fun _ => ⟨e, .nil e, post⟩, fun full => absurd room full⟩

theorem mono (reads : Reads e bytes calls Q) (weaker : ∀ t, Q t → R t) : Reads e bytes calls R := fun room => by
  obtain ⟨reads, fails⟩ := reads room
  refine ⟨fun fits => ?_, fails⟩
  obtain ⟨t, ran, post⟩ := reads fits
  exact ⟨t, ran, weaker t post⟩

theorem byte {skipped : Nat} (head : e.parser.state.parsingHeader = true)
    (out : e.count.switch ch [] = .next t calls skipped) (counted : t.parser.nread = e.count.parser.nread)
    (goes : .messageComplete ∉ calls) (post : Q (t.advance [ch])) : Reads e [ch] calls Q := by
  refine fun room => ⟨fun fits => ?_, fun full => ?_⟩
  · have step := Run.step_next ((Exec.byte_of_room head fits []).trans out)
    refine ⟨t.advance [ch], ⟨?_, ?_, goes⟩, post⟩
    · rw [emit_cons, emit_nil, step, List.append_nil]
    · show t.parser.nread.toNat = _
      rw [counted, Exec.count_nread room]
      rfl
  · exact .byte head room full

theorem append (first : Reads e bytes calls Q) (rest : ∀ t, Q t → Reads t behind more R) :
    Reads e (bytes ++ behind) (calls ++ more) R := by
  intro room
  obtain ⟨reads, fails⟩ := first room
  by_cases fits : e.Room bytes.length
  · obtain ⟨t, ran, post⟩ := reads fits
    have counted := ran.counted
    have inside : t.Room 0 := by
      rw [Exec.Room, counted]
      exact fits
    obtain ⟨reads', fails'⟩ := rest t post inside
    have same : t.Room behind.length ↔ e.Room (bytes ++ behind).length := by
      rw [Exec.Room, Exec.Room, counted, List.length_append, Nat.add_assoc]
    rw [← same]
    refine ⟨fun fits' => ?_, fun full => ran.fails (fails' full)⟩
    obtain ⟨u, ran', post'⟩ := reads' fits'
    exact ⟨u, ran.append ran', post'⟩
  · have full : ¬ e.Room (bytes ++ behind).length := by
      simp only [Exec.Room, List.length_append] at fits ⊢
      omega
    exact ⟨fun more => absurd more full, fun _ => (fails fits).append behind⟩

/-- Without callbacks at first. -/
theorem seq (first : Reads e bytes [] Q) (rest : ∀ t, Q t → Reads t behind more R) : Reads e (bytes ++ behind) more R :=
  first.append rest

/-- A word is read byte after byte; what is known depends on what of it has been read. -/
theorem word {I : List UInt8 → Exec → Prop} (front : List UInt8) (start : I front e)
    (each : ∀ w, ∀ ch ∈ bytes, w ++ [ch] <+: front ++ bytes → ∀ t, I w t → Reads t [ch] [] (I (w ++ [ch]))) :
    Reads e bytes [] (I (front ++ bytes)) := by
  induction bytes generalizing front e with
  | nil =>
    rw [List.append_nil]
    exact nil start
  | cons ch bytes ih =>
    have inside : front ++ [ch] <+: front ++ ch :: bytes := by simp
    have first := each front ch List.mem_cons_self inside e start
    have same : front ++ ch :: bytes = (front ++ [ch]) ++ bytes := by simp
    rw [same] at each ⊢
    exact first.seq fun t post => ih (front ++ [ch]) post fun w next member => each w next (List.mem_cons_of_mem ch member)

/-- Any number of parts. -/
theorem flatMap {α : Type} {f : α → List UInt8} {xs : List α} {I : Exec → Prop} (start : I e)
    (each : ∀ x ∈ xs, ∀ t, I t → Reads t (f x) [] I) : Reads e (xs.flatMap f) [] I := by
  induction xs generalizing e with
  | nil => exact nil start
  | cons x xs ih =>
    rw [List.flatMap_cons]
    exact (each x List.mem_cons_self e start).seq fun t post =>
      ih post fun next member => each next (List.mem_cons_of_mem x member)

/-- Bytes that are all read in the same way. -/
theorem all {I : Exec → Prop} (start : I e) (each : ∀ ch ∈ bytes, ∀ t, I t → Reads t [ch] [] I) : Reads e bytes [] I := by
  have parts := flatMap start each
  rwa [List.flatMap_singleton'] at parts

end Reads

end Netter.Http
