import Netter.Lib.Emit
import Netter.Http.Early

/-!
# The parser byte after byte

`http_parser_execute` moves `p` over as much of a body as the buffer holds, and calls back at the end of the
buffer for the marks that are left. Between these it is a machine that takes one byte after the
other, and so a longer buffer is parsed like its front and then the rest.
-/

namespace Netter.Http

open Lib

variable {e : Exec} {ch : UInt8} {rest : List UInt8}

/-- In the loop of `http_parser_execute`, or after it has been left early. -/
inductive Run where
  | going (e : Exec)
  | left (p : HttpParser)

/-- A byte, as if the buffer ended behind it. -/
def Run.step : Run → UInt8 → Run × List Callback
  | .going e, ch =>
    match e.byte ch [] with
    | .next e calls _ => (.going (e.advance [ch]), calls)
    | .leave p calls => (.left p, calls)
  | .left p, _ => (.left p, [])

/-- At the end of the buffer. -/
def Run.finish : Run → HttpParser × List Callback
  | .going e => (e.parser, e.leftover)
  | .left p => (p, [])

theorem Run.step_next {t : Exec} {calls : List Callback} {skipped : Nat} (out : e.byte ch [] = .next t calls skipped) :
    Run.step (.going e) ch = (.going (t.advance [ch]), calls) := by
  simp only [Run.step, out]

theorem Run.step_leave {p : HttpParser} {calls : List Callback} (out : e.byte ch [] = .leave p calls) :
    Run.step (.going e) ch = (.left p, calls) := by
  simp only [Run.step, out]

namespace Exec

/-- Only in a body it matters how much is there. -/
theorem switch_rest (same : e.parser.state = .bodyIdentity ∨ e.parser.state = .chunkData → e.toRead rest = e.toRead []) :
    e.switch ch rest = e.switch ch [] := by
  cases at_state : e.parser.state with
  | bodyIdentity =>
    have same := same (.inl at_state)
    have read : e.bodyRead rest = e.bodyRead [] := by rw [bodyRead, same, bodyRead]
    simp only [switch, at_state, bodyIdentity, read, same, toRead_nil, List.take_zero]
  | chunkData =>
    have same := same (.inr at_state)
    have read : e.bodyRead rest = e.bodyRead [] := by rw [bodyRead, same, bodyRead]
    simp only [switch, at_state, chunkData, read, same]
  | _ => simp only [switch, at_state]

theorem byte_rest (same : e.parser.state = .bodyIdentity ∨ e.parser.state = .chunkData → e.toRead rest = e.toRead []) :
    e.byte ch rest = e.byte ch [] := by
  unfold byte
  split
  · dsimp only
    split
    · rfl
    · exact switch_rest (e := { e with parser := _ }) same
  · exact switch_rest same

theorem byte_of_body (body : e.parser.state.parsingHeader = false) : e.byte ch rest = e.switch ch rest := by
  unfold byte
  rw [body]
  rfl

theorem loop_succ (skipped : Nat) : e.loop (skipped + 1) (ch :: rest) = e.loop skipped rest := by
  rw [loop]

theorem loop_next {t : Exec} {calls : List Callback} {skipped : Nat} (is : e.byte ch rest = .next t calls skipped) :
    e.loop 0 (ch :: rest) = (((t.advance (ch :: rest.take skipped)).loop skipped rest).1,
      calls ++ ((t.advance (ch :: rest.take skipped)).loop skipped rest).2) := by
  rw [loop]
  simp only [is]

theorem loop_leave {p : HttpParser} {calls : List Callback} (is : e.byte ch rest = .leave p calls) :
    e.loop 0 (ch :: rest) = (p, calls) := by
  rw [loop]
  simp only [is]

theorem advance_advance (bytes more : List UInt8) : (e.advance bytes).advance more = e.advance (bytes ++ more) := by
  simp only [advance, Option.map_map, Function.comp_def, List.append_assoc]

/-- The rest of a body that is read at once can be read after its first byte. -/
theorem loop_of_jump {next : UInt8} {t u : Exec} {calls : List Callback} {skipped : Nat}
    (first : e.byte ch (next :: rest) = .next u calls (skipped + 1))
    (second : t.byte next rest = .next (u.advance [ch]) calls skipped) :
    e.loop 0 (ch :: next :: rest) = t.loop 0 (next :: rest) := by
  rw [loop_next first, loop_next second, loop_succ, List.take_succ_cons, advance_advance]
  rfl

/-- The parser after the first byte of a body. -/
def readOne (e : Exec) (ch : UInt8) : Exec :=
  advance { e with parser := e.bodyRead [], bodyMark := some (e.bodyMark.getD []) } [ch]

theorem readOne_eq (ch : UInt8) (more : 1 < e.parser.contentLength.toNat) :
    (e.readOne ch).parser.contentLength = e.parser.contentLength - 1 := by
  have one : e.toRead [] = 1 := by
    simp only [toRead, List.length_nil]
    omega
  show e.parser.contentLength - UInt64.ofNat (e.toRead []) = e.parser.contentLength - 1
  rw [one]
  rfl

theorem readOne_contentLength (ch : UInt8) (more : 1 < e.parser.contentLength.toNat) :
    (e.readOne ch).parser.contentLength.toNat + 1 = e.parser.contentLength.toNat := by
  rw [readOne_eq ch more, UInt64.toNat_sub_of_le]
  · exact Nat.sub_add_cancel (Nat.le_of_lt more)
  · rw [UInt64.le_iff_toNat_le]
    exact Nat.le_of_lt more

/-- After a first byte there is one byte less to read, and the same is left to do. -/
theorem bodyRead_tail (ch next : UInt8) (rest : List UInt8) (more : 1 < e.parser.contentLength.toNat) :
    ∃ k, (e.readOne ch).toRead rest = k + 1 ∧ e.toRead (next :: rest) = k + 2 ∧
      (e.readOne ch).bodyRead rest = e.bodyRead (next :: rest) := by
  have less := readOne_contentLength ch more
  have count : (e.readOne ch).toRead rest + 1 = e.toRead (next :: rest) := by
    simp only [toRead, List.length_cons]
    omega
  have some : 0 < (e.readOne ch).toRead rest := by
    simp only [toRead]
    omega
  have left := readOne_eq ch more
  refine ⟨(e.readOne ch).toRead rest - 1, by omega, by omega, ?_⟩
  have same : (e.readOne ch).parser.contentLength - UInt64.ofNat ((e.readOne ch).toRead rest) =
      e.parser.contentLength - UInt64.ofNat (e.toRead (next :: rest)) := by
    rw [← count, left, UInt64.ofNat_add]
    grind
  rw [bodyRead, bodyRead, same]
  rfl

theorem loop_bodyIdentity {next : UInt8} (at_body : e.parser.state = .bodyIdentity)
    (more : 1 < e.parser.contentLength.toNat) :
    e.loop 0 (ch :: next :: rest) = (e.readOne ch).loop 0 (next :: rest) := by
  obtain ⟨k, left, total, read⟩ := bodyRead_tail ch next rest more
  have state : (e.readOne ch).parser.state = .bodyIdentity := at_body
  have first : e.byte ch (next :: rest) = e.bodyIdentity ch (next :: rest) := by
    rw [byte_of_body (by rw [at_body]; rfl), switch, at_body]
  have second : (e.readOne ch).byte next rest = (e.readOne ch).bodyIdentity next rest := by
    rw [byte_of_body (by rw [state]; rfl), switch, state]
  rw [bodyIdentity, ← read, total] at first
  rw [bodyIdentity, left] at second
  by_cases done : ((e.readOne ch).bodyRead rest).contentLength = 0
  · simp only [done, if_true] at first second
    apply loop_of_jump first
    rw [second]
    simp [readOne, advance, messageDone, Outcome.after]
  · simp only [done, if_false] at first second
    apply loop_of_jump first
    rw [second]
    simp [readOne, advance]

theorem loop_chunkData {next : UInt8} (at_body : e.parser.state = .chunkData)
    (more : 1 < e.parser.contentLength.toNat) :
    e.loop 0 (ch :: next :: rest) = (e.readOne ch).loop 0 (next :: rest) := by
  obtain ⟨k, left, total, read⟩ := bodyRead_tail ch next rest more
  have state : (e.readOne ch).parser.state = .chunkData := at_body
  have first : e.byte ch (next :: rest) = e.chunkData (next :: rest) := by
    rw [byte_of_body (by rw [at_body]; rfl), switch, at_body]
  have second : (e.readOne ch).byte next rest = (e.readOne ch).chunkData rest := by
    rw [byte_of_body (by rw [state]; rfl), switch, state]
  rw [chunkData, ← read, total] at first
  rw [chunkData, left] at second
  apply loop_of_jump first
  rw [second]
  simp [readOne, advance]

/-- The first byte of a body of which more is to come. -/
theorem step_body (ch : UInt8) (at_body : e.parser.state = .bodyIdentity ∨ e.parser.state = .chunkData)
    (more : 1 < e.parser.contentLength.toNat) : Run.step (.going e) ch = (.going (e.readOne ch), []) := by
  have less := readOne_contentLength ch more
  have some : (e.bodyRead []).contentLength ≠ 0 := by
    intro none
    have zero : (e.readOne ch).parser.contentLength.toNat = 0 := congrArg UInt64.toNat none
    omega
  rcases at_body with at_body | at_body
  · have byte : e.byte ch [] = e.bodyIdentity ch [] := by
      rw [byte_of_body (by rw [at_body]; rfl), switch, at_body]
    simp only [Run.step, byte, bodyIdentity, some, if_false]
    rfl
  · have byte : e.byte ch [] = e.chunkData [] := by
      rw [byte_of_body (by rw [at_body]; rfl), switch, at_body]
    simp only [Run.step, byte, chunkData, some, if_false]
    rfl

end Exec

/-! ## The marks -/

/-- In the loop the marks are as they have to be. -/
def Run.Marked : Run → Prop
  | .going e => Marks e
  | .left _ => True

variable {r : Run}

/-- Where a message has ended, the parser is at the start of the next one or has been left. -/
def Run.Rested : Run → Prop
  | .going e => Bare e ∧ e.parser.state.atStart = true
  | .left p => p.upgrade = true

theorem Run.Marked.step (marked : r.Marked) (ch : UInt8) :
    (r.step ch).1.Marked ∧ ∀ call ∈ (r.step ch).2, call.Clean := by
  cases r with
  | left p => exact ⟨trivial, nofun⟩
  | going e =>
    have fits := Marks.fits_byte marked ch
    cases out : e.byte ch [] with
    | next t calls skipped =>
      rw [out] at fits
      rw [Run.step_next out]
      exact ⟨fits.2.1, fits.2.2.1⟩
    | leave p calls =>
      rw [out] at fits
      rw [Run.step_leave out]
      exact ⟨trivial, fits.1⟩

theorem inBody_of_atStart {state : ParserState} (start : state.atStart = true) : state.inBody = false := by
  cases state <;> first | rfl | cases start

theorem Run.Marked.rested (marked : r.Marked) (done : .messageComplete ∈ (r.step ch).2) : (r.step ch).1.Rested := by
  have still := (marked.step ch).1
  cases r with
  | left p => cases done
  | going e =>
    have fits := Marks.fits_byte marked ch
    cases out : e.byte ch [] with
    | next t calls skipped =>
      rw [out] at fits
      rw [Run.step_next out] at still done ⊢
      have start := fits.2.2.2 done
      exact ⟨Marks.bare still (Exec.inUrl_of_atStart start) (inBody_of_atStart start), start⟩
    | leave p calls =>
      rw [out] at fits
      rw [Run.step_leave out] at done ⊢
      exact fits.2 done

/-- **A buffer is parsed byte after byte.** -/
theorem Marks.loop_eq_emit (marks : Marks e) (data : List UInt8) :
    e.loop 0 data = ((emit Run.step (.going e) data).1.finish.1,
      (emit Run.step (.going e) data).2 ++ (emit Run.step (.going e) data).1.finish.2) := by
  induction data generalizing e with
  | nil => rw [Exec.loop]; rfl
  | cons ch rest ih =>
    by_cases jump : (e.parser.state = .bodyIdentity ∨ e.parser.state = .chunkData) ∧
        1 < e.parser.contentLength.toNat ∧ rest ≠ []
    · obtain ⟨at_body, more, some⟩ := jump
      obtain ⟨next, tail, rfl⟩ := List.exists_cons_of_ne_nil some
      have first := Exec.step_body ch at_body more
      have still : Marks (e.readOne ch) := by
        have marked := Run.Marked.step (r := .going e) marks ch
        rw [first] at marked
        exact marked.1
      rw [emit_cons, first, List.nil_append, ← ih still]
      rcases at_body with at_body | at_body
      · exact Exec.loop_bodyIdentity at_body more
      · exact Exec.loop_chunkData at_body more
    · have same : e.byte ch rest = e.byte ch [] := by
        apply Exec.byte_rest
        intro at_body
        simp only [Exec.toRead, List.length_nil]
        by_cases none : rest = []
        · rw [none, List.length_nil]
        · have few : ¬ 1 < e.parser.contentLength.toNat := fun more => jump ⟨at_body, more, none⟩
          omega
      have fits := marks.fits_byte ch
      rw [emit_cons]
      cases out : e.byte ch [] with
      | next t calls skipped =>
        rw [out] at fits
        obtain ⟨rfl, still, -, -⟩ := fits
        rw [Exec.loop_next (same.trans out), Run.step_next out, List.take_zero, ih still, List.append_assoc]
      | leave p calls =>
        rw [Exec.loop_leave (same.trans out), Run.step_leave out, emit_of_still fun _ => rfl]
        simp [Run.finish]

/-! ## A call of `http_parser_execute` -/

variable {p : HttpParser} {data more : List UInt8}

/-- What the loop has called back before the end of the buffer. -/
def HttpParser.feed (p : HttpParser) (data : List UInt8) : Run × List Callback :=
  emit Run.step (.going ⟨p, none, none⟩) data

/-- Between messages, or at the beginning. -/
structure HttpParser.Ready (p : HttpParser) : Prop where
  running : p.Running
  start : p.state.atStart = true

theorem HttpParser.ready_init : HttpParser.init.Ready := ⟨⟨rfl, rfl⟩, rfl⟩

theorem HttpParser.Ready.marks (ready : p.Ready) : Marks ⟨p, none, none⟩ :=
  Bare.marks ⟨rfl, rfl, ready.running⟩ (Exec.inUrl_of_atStart ready.start)

theorem HttpParser.Ready.execute_eq (ready : p.Ready) (data : List UInt8) :
    p.execute data = ((p.feed data).1.finish.1, (p.feed data).2 ++ (p.feed data).1.finish.2) := by
  have marks := ready.marks
  obtain ⟨⟨ok, -⟩, start⟩ := ready
  have fine : ¬ p.errno ≠ .ok := not_not.mpr ok
  rw [execute, if_neg fine]
  split
  next none =>
    rw [none]
    cases state : p.state <;> rw [state] at start <;> first | rfl | cases start
  next =>
    have off : p.state.inUrl = false := Exec.inUrl_of_atStart start
    rw [off]
    exact marks.loop_eq_emit data

theorem HttpParser.Ready.feed_marked (ready : p.Ready) (data : List UInt8) :
    (p.feed data).1.Marked ∧ ∀ call ∈ (p.feed data).2, call.Clean := by
  have start : Run.Marked (.going ⟨p, none, none⟩) := ready.marks
  exact emit_inv (fun _ ch marked => marked.step ch) start data

theorem finish_clean (marked : r.Marked) : ∀ call ∈ r.finish.2, call.Clean ∧ call ≠ .messageComplete := by
  cases r with
  | left p => exact nofun
  | going e =>
    intro call member
    rcases List.mem_append.mp member with url | body
    · obtain ⟨bytes, mark, rfl⟩ := Option.map_eq_some_iff.mp (Option.mem_toList.mp url)
      exact ⟨marked.clean bytes mark, nofun⟩
    · obtain ⟨bytes, -, rfl⟩ := Option.map_eq_some_iff.mp (Option.mem_toList.mp body)
      exact ⟨trivial, nofun⟩

/-- **What is called back for a URL** is not empty and has no NUL. -/
theorem HttpParser.Ready.execute_clean (ready : p.Ready) (data : List UInt8) : ∀ call ∈ (p.execute data).2, call.Clean := by
  obtain ⟨marked, clean⟩ := ready.feed_marked data
  rw [ready.execute_eq]
  intro call member
  rcases List.mem_append.mp member with before | last
  · exact clean call before
  · exact (finish_clean marked call last).1

/-- A message ends in the loop, not at the end of the buffer. -/
theorem HttpParser.Ready.complete_iff (ready : p.Ready) :
    .messageComplete ∈ (p.execute data).2 ↔ .messageComplete ∈ (p.feed data).2 := by
  rw [ready.execute_eq]
  constructor
  · intro member
    refine (List.mem_append.mp member).resolve_right fun last => ?_
    exact (finish_clean (ready.feed_marked data).1 _ last).2 rfl
  · exact List.mem_append_left _

/-- A message that has ended has ended, whatever follows. -/
theorem HttpParser.Ready.complete_append (ready : p.Ready) (done : .messageComplete ∈ (p.execute data).2) :
    .messageComplete ∈ (p.execute (data ++ more)).2 := by
  rw [ready.complete_iff] at done ⊢
  rw [feed, emit_append]
  exact List.mem_append_left _ done

end Netter.Http
