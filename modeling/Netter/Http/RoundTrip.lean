import Netter.Http.Alone
import Netter.Http.Bodies

/-!
# Requests are read as they are written

However a client spells a request, its handler is called when the last byte has come and not before, with the URL and the body
that were sent. The only requests that are never served are those with a head above the limit.
-/

namespace Netter.Http

open Lib Exec

variable {e t : Exec} {bytes : List UInt8} {f : Framing} {method : HttpMethod}
  {request : Request}

/-- What is called back for a body. -/
def Body.calls : Body → List Callback
  | .none => []
  | .counted _ _ bytes _ _ => if bytes = [] then [] else [.body bytes]
  | .chunked _ _ _ pieces _ _ _ => pieces.map fun piece => .body piece.bytes

/-- What the headers say of it. -/
def Body.framing (body : Body) (method : HttpMethod) : Framing :=
  ⟨method, body.length, body matches .chunked .., false, false⟩

namespace Request

variable (request : Request)

/-- The head without its last byte. -/
def front : List UInt8 :=
  request.line ++ (request.headers.flatMap Header.encode ++
    (request.body.header ++ (request.more.flatMap Header.encode ++ [CR])))

/-- The head is not above the limit. -/
def Small : Prop := request.head.length ≤ httpMaxHeaderSize.toNat

instance : Decidable request.Small := inferInstanceAs (Decidable (_ ≤ _))

/-- What is called back for a request. -/
def calls : List Callback :=
  .url request.url :: .headersComplete (UInt32.ofNat request.head.length) request.body.length ::
    (request.body.calls ++ [.messageComplete])

theorem head_eq : request.head = request.front ++ [LF] := by
  simp [head, front, crlf]

end Request

/-! ## The head -/

theorem reads_bodyHeader (body : Body) (starts : Starts f e) (fresh : f.contentLength = ullongMax ∧ f.chunked = false) :
    Reads e body.header [] (Starts { f with contentLength := body.length, chunked := body matches .chunked .. }) := by
  obtain ⟨method, contentLength, chunked, trailing, upgrade⟩ := f
  obtain ⟨rfl, rfl⟩ := fresh
  cases body with
  | none => exact .nil starts
  | counted header length bytes numeral fits => exact reads_contentLength starts header numeral fits
  | chunked header coding spells pieces last trailer small => exact reads_chunked starts header spells

theorem reads_front (request : Request) : Reads ⟨.init, none, none⟩ request.front [.url request.url]
    (At .headersAlmostDone (request.body.framing request.method)) := by
  rw [Request.front, ← List.append_nil [Callback.url request.url]]
  refine reads_line.append fun e here => ?_
  refine (reads_headers (.inl here) request.headers).seq fun e starts => ?_
  refine (reads_bodyHeader request.body starts ⟨rfl, rfl⟩).seq fun e starts => ?_
  exact (reads_headers starts request.more).seq fun e starts => reads_lastLine starts

/-- What comes after the byte that ends the head. -/
structure Follows (f : Framing) (calls : List Callback) (t : Exec) : Prop where
  chunked : f.chunked = true → calls = [] ∧ AtChunk t
  counted : f.chunked = false → f.contentLength ≠ 0 → f.contentLength ≠ ullongMax →
    calls = [] ∧ t.parser.state = .bodyIdentity ∧ t.parser.contentLength = f.contentLength ∧ t.urlMark = none ∧
      t.bodyMark = none
  none : f.chunked = false → f.contentLength = 0 ∨ f.contentLength = ullongMax → calls = [.messageComplete]

/-- The byte that ends the head. -/
theorem step_head (here : At .headersAlmostDone f e) (room : e.Room 1) (first : f.trailing = false)
    (plain : f.upgrade = false) (other : f.method ≠ .connect) : ∃ t calls,
      Run.step (.going e) LF = (.going t, .headersComplete (e.parser.nread + 1) f.contentLength :: calls) ∧
        Follows f calls t := by
  have byte : e.byte LF [] = e.count.headersAlmostDone LF := by
    rw [byte_of_room (by rw [here.state]; rfl) room, switch, count_state, here.state]
  obtain ⟨p, urlMark, bodyMark⟩ := e
  obtain ⟨-, rfl, rfl, rfl⟩ := here
  have first : p.flags.trailing = false := first
  have plain : p.flags.upgrade = false := plain
  have other : (p.method == HttpMethod.connect) = false := by
    rw [beq_eq_false_iff_ne]
    exact other
  simp only [Exec.headersAlmostDone, Exec.headersDone, Exec.count, first, plain, other, ne_eq, not_true_eq_false, Bool.or_false,
    Bool.false_eq_true, if_false] at byte
  by_cases chunked : p.flags.chunked = true
  · rw [if_pos chunked] at byte
    refine ⟨_, _, Run.step_next byte, fun _ => ⟨rfl, rfl, rfl, rfl, rfl⟩, ?_, ?_⟩
    all_goals intro none; exact absurd (chunked.symm.trans none) Bool.noConfusion
  rw [if_neg chunked] at byte
  by_cases zero : p.contentLength = 0
  · rw [if_pos zero] at byte
    exact ⟨_, _, Run.step_next byte, fun is => absurd is chunked, fun _ some => absurd zero some, fun _ _ => rfl⟩
  rw [if_neg zero] at byte
  by_cases unknown : p.contentLength = ullongMax
  · rw [if_neg (not_not.mpr unknown)] at byte
    exact ⟨_, _, Run.step_next byte, fun is => absurd is chunked, fun _ _ some => absurd unknown some, fun _ _ => rfl⟩
  · rw [if_pos unknown] at byte
    refine ⟨_, _, Run.step_next byte, fun is => absurd is chunked, fun _ _ _ => ⟨rfl, rfl, rfl, rfl, rfl⟩, fun _ => ?_⟩
    exact fun either => either.elim (absurd · zero) (absurd · unknown)

/-- **The body**, with the byte in front of it. -/
theorem ends_body (body : Body) (here : At .headersAlmostDone (body.framing method) e) (room : e.Room 1)
    (other : method ≠ .connect) :
    Ends e ([LF] ++ body.encode) (.headersComplete (e.parser.nread + 1) body.length :: (body.calls ++ [.messageComplete])) := by
  obtain ⟨t, calls, ran, chunked, counted, done⟩ := step_head here room rfl rfl other
  have one : emit Run.step (.going e) [LF] = (.going t, .headersComplete (e.parser.nread + 1) body.length :: calls) := by
    rw [emit_cons, emit_nil, ran, List.append_nil]
    rfl
  cases body with
  | none =>
    obtain rfl := done rfl (.inr rfl)
    exact .of_step (by rw [ran]; rfl) (by simp [Body.calls])
  | counted header length bytes numeral fits =>
    have small : bytes.length < 2 ^ 64 := Nat.lt_trans fits (by decide)
    by_cases empty : bytes = []
    · subst empty
      obtain rfl := done rfl (.inl rfl)
      exact .of_step (by rw [ran]; rfl) (by simp [Body.calls])
    · have some : UInt64.ofNat bytes.length ≠ 0 := by
        intro none
        have zero := congrArg UInt64.toNat none
        rw [UInt64.toNat_ofNat_of_lt' small] at zero
        exact empty (List.length_eq_zero_iff.mp zero)
      have less : UInt64.ofNat bytes.length ≠ ullongMax := by
        intro full
        have same := congrArg UInt64.toNat full
        rw [UInt64.toNat_ofNat_of_lt' small] at same
        omega
      obtain ⟨rfl, state, length, url, mark⟩ := counted rfl some less
      have inside : InBody .bodyIdentity [] bytes t := by
        refine ⟨state, ?_, url, by rw [mark]; rfl⟩
        rw [length]
        exact UInt64.toNat_ofNat_of_lt' small
      have ends := Ends.append one (by simp) (ends_counted inside empty)
      simpa [Body.calls, Body.encode, empty] using ends
  | chunked header coding spells pieces last trailer small =>
    obtain ⟨rfl, here⟩ := chunked rfl
    obtain ⟨u, data, here⟩ := emit_pieces here pieces
    have rest := Ends.append data (by simp) (ends_trailer here last trailer small)
    exact .append one (by simp) rest

theorem room_init {n : Nat} (small : n ≤ httpMaxHeaderSize.toNat) : (⟨.init, none, none⟩ : Exec).Room n := by
  show 0 + n ≤ _
  omega

/-- **A request is read to its last byte**, and is called back as it was written. -/
theorem ends_encode (small : request.Small) : Ends ⟨.init, none, none⟩ request.encode request.calls := by
  have length : request.front.length + 1 ≤ httpMaxHeaderSize.toNat := by
    have whole : request.head.length ≤ httpMaxHeaderSize.toNat := small
    rwa [request.head_eq, List.length_append] at whole
  obtain ⟨e, reads, here⟩ := (reads_front request (room_init (Nat.zero_le _))).1 (room_init (Nat.le_of_succ_le length))
  have counted : e.parser.nread.toNat = request.front.length := reads.counted.trans (Nat.zero_add _)
  have room : e.Room 1 := by
    rw [Exec.Room, counted]
    exact length
  have nread : e.parser.nread + 1 = UInt32.ofNat request.head.length := by
    rw [request.head_eq, List.length_append, List.length_singleton, ← counted, ← UInt32.ofNat_toNat (x := e.parser.nread + 1)]
    exact congrArg UInt32.ofNat (count_nread (Nat.le_of_succ_le room))
  have ends := Ends.append reads.ran reads.goes (ends_body request.body here room request.notConnect)
  rw [nread] at ends
  rw [Request.encode, request.head_eq, List.append_assoc]
  exact ends

/-- A head above the limit is not read. -/
theorem fails_encode (large : ¬ request.Small) : Fails ⟨.init, none, none⟩ request.encode := by
  obtain ⟨reads, fails⟩ := reads_front request (room_init (Nat.zero_le _))
  rw [Request.encode, request.head_eq, List.append_assoc]
  by_cases fits : (⟨.init, none, none⟩ : Exec).Room request.front.length
  · obtain ⟨e, ran, here⟩ := reads fits
    have counted : e.parser.nread.toNat = request.front.length := ran.counted.trans (Nat.zero_add _)
    have full : ¬ e.Room 1 := by
      intro room
      apply large
      rw [Exec.Room, counted] at room
      rwa [Request.Small, request.head_eq, List.length_append]
    have room : e.Room 0 := by
      rw [Exec.Room, counted]
      exact (Nat.zero_add _).symm.trans_le fits
    exact ran.fails ((Fails.byte (by rw [here.state]; rfl) room full).append _)
  · exact (fails fits).append _

/-! ## Bytes as they come -/

/-- Before the last byte no message has ended. -/
theorem Ends.take {calls : List Callback} (ends : Ends ⟨.init, none, none⟩ bytes calls) {n : Nat} (missing : n < bytes.length) :
    .messageComplete ∉ (HttpParser.init.execute (bytes.take n)).2 := by
  obtain ⟨-, ⟨front, ch, rfl, before⟩, -⟩ := ends
  rw [HttpParser.ready_init.complete_iff]
  have inside : n ≤ front.length := by
    rw [List.length_append, List.length_singleton] at missing
    omega
  have cut : front = front.take n ++ front.drop n := (List.take_append_drop n front).symm
  rw [List.take_append_of_le_length inside]
  intro done
  apply before
  rw [cut, emit_append]
  exact List.mem_append_left _ done

theorem Ends.complete {calls : List Callback} (ends : Ends ⟨.init, none, none⟩ bytes calls) : Complete bytes := by
  refine .of_take ?_ fun n missing => ends.take missing
  rw [HttpParser.ready_init.complete_iff]
  show _ ∈ (emit _ _ _).2
  rw [ends.ran]
  exact ends.done

theorem Ends.execute {calls : List Callback} (ends : Ends ⟨.init, none, none⟩ bytes calls) :
    (HttpParser.init.execute bytes).2 = calls := by
  have rested := ends.complete.rested
  have none : (HttpParser.init.feed bytes).1.finish.2 = [] := by
    cases stands : (HttpParser.init.feed bytes).1 with
    | left p => rfl
    | going e =>
      rw [stands] at rested
      obtain ⟨⟨url, body, -⟩, -⟩ := rested
      simp [Run.finish, Exec.leftover, url, body]
  rw [HttpParser.ready_init.execute_eq, none, List.append_nil]
  exact ends.ran

theorem Fails.take (fails : Fails ⟨.init, none, none⟩ bytes) (n : Nat) :
    .messageComplete ∉ (HttpParser.init.execute (bytes.take n)).2 := by
  rw [HttpParser.ready_init.complete_iff]
  intro done
  apply fails.quiet
  rw [← List.take_append_drop n bytes, emit_append]
  exact List.mem_append_left _ done

namespace Request

variable (request : Request)

/-- The wrapper when a request has been parsed. -/
def parsed : HttpParserWrapper :=
  ⟨true, UInt32.ofNat request.head.length + request.body.length.toUInt32, request.url, request.body.content⟩

/-- What is done with a request. -/
def served (handlers : HttpHandlerMap) : Served :=
  match handlers.getHandler (handlerUrl request.url) with
  | some handler => .handler handler request.parsed
  | none => .notFound

end Request

theorem foldl_pieces (pieces : List Piece) (w : HttpParserWrapper) :
    (pieces.map fun piece => Callback.body piece.bytes).foldl HttpParserWrapper.call w =
      { w with bodyContent := w.bodyContent ++ pieces.flatMap Piece.bytes } := by
  induction pieces generalizing w with
  | nil => rw [List.flatMap_nil, List.append_nil]; rfl
  | cons piece pieces ih =>
    rw [List.map_cons, List.foldl_cons, ih, List.flatMap_cons, ← List.append_assoc]
    rfl

theorem foldl_body (body : Body) (w : HttpParserWrapper) : body.calls.foldl HttpParserWrapper.call w =
    { w with bodyContent := w.bodyContent ++ body.content } := by
  cases body with
  | none => rw [Body.content, List.append_nil]; rfl
  | counted header length bytes numeral fits =>
    by_cases empty : bytes = []
    · simp [Body.calls, Body.content, empty]
    · simp [Body.calls, Body.content, empty, HttpParserWrapper.call]
  | chunked header coding spells pieces last trailer small => exact foldl_pieces pieces w

theorem parse_encode (small : request.Small) (w : HttpParserWrapper) : w.parseHttpContent request.encode = request.parsed := by
  rw [HttpParserWrapper.parseHttpContent, (ends_encode small).execute, Request.calls, List.foldl_cons, List.foldl_cons,
    List.foldl_append, foldl_body]
  rfl

theorem getUrl_parsed (request : Request) : request.parsed.getUrl = request.url := by
  show cString request.url = _
  rw [cString, List.takeWhile_eq_self_iff]
  intro ch member
  have some : ch ≠ 0 := by
    rcases List.mem_cons.mp member with rfl | member
    · rcases request.absolute with is | is <;> rw [is] <;> decide
    · obtain ⟨low, -⟩ := request.visible ch member
      rintro rfl
      exact absurd low (by decide)
  simpa using some

/-- A request with its body in chunks. -/
example : ∃ request : Request, request.Small ∧
    request.encode = bytesOf "PUT /a?b HTTP/1.1\r\nTransfer-encoding:Chunked \r\nHost: c\r\n\r\n02;d\r\n\r\n\r\n0\r\n\r\n" := by
  let size : SizeLine 2 := ⟨bytesOf "02", bytesOf ";d", ⟨by decide, forall_of_all (by decide), by decide⟩,
    fun _ is => .inl (Option.mem_some_iff.mp is).symm, forall_of_all (by decide), by decide⟩
  let last : SizeLine 0 := ⟨bytesOf "0", [], ⟨by decide, forall_of_all (by decide), by decide⟩, nofun, nofun, by decide⟩
  let host : Header := ⟨bytesOf "Host", bytesOf " c", by decide, forall_of_all (by decide), by decide, forall_of_all (by decide)⟩
  let framing : FramingHeader (bytesOf "transfer-encoding") := ⟨bytesOf "Transfer-encoding", [], bytesOf " ", by decide, nofun,
    forall_of_all (by decide)⟩
  exact ⟨⟨.put, '/'.toUInt8, bytesOf "a?b", '1'.toUInt8, '1'.toUInt8, [],
    .chunked framing (bytesOf "Chunked") (by decide) [⟨crlf, by decide, by decide, size⟩] last [] (by decide), [host],
    by decide, by decide, forall_of_all (by decide), by decide⟩, by decide, by decide⟩

end Netter.Http
