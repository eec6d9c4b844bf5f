import Netter.Http.Headers

/-!
# Bodies

Behind the head a body is read as the headers say: not at all, by its length, or chunk after chunk. `Ends` says that a text is
read to the end of a message and not further, with these callbacks.
-/

namespace Netter.Http

open Lib Exec

variable {e t : Exec} {p q : HttpParser} {ch c : UInt8} {w text bytes behind : List UInt8} {f : Framing}
  {calls more : List Callback}

/-- The last byte, and no other one, ends the message. -/
structure Ends (e : Exec) (bytes : List UInt8) (calls : List Callback) : Prop where
  ran : (emit Run.step (.going e) bytes).2 = calls
  last : ∃ front ch, bytes = front ++ [ch] ∧ .messageComplete ∉ (emit Run.step (.going e) front).2
  done : .messageComplete ∈ calls

namespace Ends

theorem of_step (ran : (Run.step (.going e) ch).2 = calls) (done : .messageComplete ∈ calls) : Ends e [ch] calls := by
  refine ⟨?_, ⟨[], ch, rfl, nofun⟩, done⟩
  rw [emit_cons, emit_nil, List.append_nil]
  exact ran

/-- Behind a text without an end. -/
theorem append (first : emit Run.step (.going e) bytes = (.going t, calls)) (goes : .messageComplete ∉ calls)
    (ends : Ends t behind more) : Ends e (bytes ++ behind) (calls ++ more) := by
  obtain ⟨ran, ⟨front, ch, rfl, before⟩, done⟩ := ends
  refine ⟨?_, ⟨bytes ++ front, ch, (List.append_assoc ..).symm, ?_⟩, List.mem_append_right _ done⟩
  · rw [emit_append, first, ran]
  · rw [emit_append, first, List.mem_append]
    exact fun is => is.elim goes before

end Ends

/-! ## A body by its length -/

/-- In a body of which this much is missing. -/
structure InBody (state : ParserState) (mark missing : List UInt8) (e : Exec) : Prop where
  state : e.parser.state = state
  length : e.parser.contentLength.toNat = missing.length
  url : e.urlMark = none
  mark : e.bodyMark.getD [] = mark

theorem bodyRead_last (length : e.parser.contentLength.toNat = 1) : (e.bodyRead []).contentLength = 0 := by
  have one : e.toRead [] = 1 := by
    simp only [toRead, List.length_nil]
    omega
  have same : e.parser.contentLength = 1 := UInt64.toNat_inj.mp length
  show e.parser.contentLength - UInt64.ofNat (e.toRead []) = 0
  rw [one, same]
  rfl

/-- The first byte of a body of which more is missing. -/
theorem InBody.next {state : ParserState} {mark rest : List UInt8} (inside : InBody state mark (ch :: c :: rest) e)
    (body : state = .bodyIdentity ∨ state = .chunkData) : Run.step (.going e) ch = (.going (e.readOne ch), []) ∧
      InBody state (mark ++ [ch]) (c :: rest) (e.readOne ch) := by
  obtain ⟨state, length, url, mark⟩ := inside
  have more : 1 < e.parser.contentLength.toNat := by
    rw [length, List.length_cons, List.length_cons]
    omega
  have less := readOne_contentLength ch more
  subst state
  refine ⟨step_body ch body more, rfl, ?_, ?_, ?_⟩
  · rw [length, List.length_cons] at less
    exact Nat.succ_injective less
  · show e.urlMark.map _ = none
    rw [url]
    rfl
  · show e.bodyMark.getD [] ++ [ch] = _
    rw [mark]

theorem ends_counted {mark : List UInt8} (inside : InBody .bodyIdentity mark bytes e) (filled : bytes ≠ []) :
    Ends e bytes [.body (mark ++ bytes), .messageComplete] := by
  obtain ⟨first, rest, rfl⟩ := List.exists_cons_of_ne_nil filled
  induction rest generalizing first mark e with
  | nil =>
    obtain ⟨state, length, url, rfl⟩ := inside
    have read := bodyRead_last (length.trans (List.length_singleton))
    have out : e.byte first [] = .next
        { e with parser := { e.bodyRead [] with state := ({ e.bodyRead [] with state := .messageDone } : HttpParser).newMessage },
                 bodyMark := none } [.body (e.bodyMark.getD [] ++ [first]), .messageComplete] 0 := by
      rw [byte_of_body (by rw [state]; rfl), switch, state]
      show Exec.bodyIdentity _ first [] = _
      simp [Exec.bodyIdentity, read, toRead_nil, Exec.messageDone, Outcome.after]
    refine .of_step ?_ (by simp)
    rw [Run.step_next out]
  | cons c rest ih =>
    obtain ⟨step, inside⟩ := inside.next (.inl rfl)
    have ends := ih c inside (List.cons_ne_nil c rest)
    have one : emit Run.step (.going e) [first] = (.going (e.readOne first), []) := by rw [emit_cons, emit_nil, step]; rfl
    rw [List.append_assoc] at ends
    exact .append one List.not_mem_nil ends

/-! ## Chunks -/

/-- The bytes of a chunk. -/
theorem emit_chunkData {mark : List UInt8} (inside : InBody .chunkData mark bytes e) (filled : bytes ≠ []) :
    ∃ t, emit Run.step (.going e) bytes = (.going t, []) ∧ t.parser.state = .chunkDataAlmostDone ∧ t.urlMark = none ∧
      t.bodyMark = some (mark ++ bytes) := by
  obtain ⟨first, rest, rfl⟩ := List.exists_cons_of_ne_nil filled
  induction rest generalizing first mark e with
  | nil =>
    obtain ⟨state, length, url, rfl⟩ := inside
    have read := bodyRead_last (length.trans (List.length_singleton))
    have out : e.byte first [] = .next
        { e with parser := { e.bodyRead [] with state := .chunkDataAlmostDone }, bodyMark := some (e.bodyMark.getD []) } [] 0 := by
      rw [byte_of_body (by rw [state]; rfl), switch, state]
      show Exec.chunkData _ [] = _
      simp [Exec.chunkData, read, toRead_nil]
    refine ⟨_, by rw [emit_cons, emit_nil, Run.step_next out]; rfl, rfl, ?_, rfl⟩
    show e.urlMark.map _ = none
    rw [url]
    rfl
  | cons c rest ih =>
    obtain ⟨step, inside⟩ := inside.next (.inr rfl)
    obtain ⟨t, ran, state, url, body⟩ := ih c inside (List.cons_ne_nil c rest)
    refine ⟨t, by rw [emit_cons, step, ran]; rfl, state, url, ?_⟩
    rw [body, List.append_assoc]
    rfl

/-- Outside of a chunk, at the beginning of a line. -/
structure AtChunk (e : Exec) : Prop where
  state : e.parser.state = .chunkSizeStart
  nread : e.parser.nread = 0
  url : e.urlMark = none
  body : e.bodyMark = none

theorem AtChunk.at (here : AtChunk e) : At .chunkSizeStart e.parser.framing e := ⟨here.state, rfl, here.url, here.body⟩

/-- The line break behind a chunk. -/
theorem emit_chunkEnd {data : List UInt8} (state : e.parser.state = .chunkDataAlmostDone) (url : e.urlMark = none)
    (body : e.bodyMark = some data) : ∃ t, emit Run.step (.going e) crlf = (.going t, [.body data]) ∧ AtChunk t := by
  have first : e.byte CR [] = .next { e with parser := { e.parser with state := .chunkDataDone }, bodyMark := none }
      [.body data] 0 := by
    rw [byte_of_body (by rw [state]; rfl), switch, state]
    simp [Exec.chunkDataAlmostDone, Exec.callBody, body]
  obtain ⟨p, urlMark, bodyMark⟩ := e
  obtain rfl : urlMark = none := url
  have cr : Run.step (.going ⟨p, none, bodyMark⟩) CR = (.going ⟨{ p with state := .chunkDataDone }, none, none⟩, [.body data]) :=
    Run.step_next first
  have lf : Run.step (.going ⟨{ p with state := .chunkDataDone }, none, none⟩) LF =
      (.going ⟨{ p with nread := 0, state := .chunkSizeStart }, none, none⟩, []) := rfl
  refine ⟨⟨{ p with nread := 0, state := .chunkSizeStart }, none, none⟩, ?_, rfl, rfl, rfl, rfl⟩
  simp only [crlf, emit_cons, emit_nil, cr, lf, List.append_nil]

/-! ## The line in front of a chunk -/

theorem ne_of_unhex {d : UInt64} (digit : unhex ch = some d) (other : unhex c = none) : ch ≠ c := by
  rintro rfl
  rw [digit] at other
  cases other

/-- In the size of a chunk. -/
def InSize (f : Framing) (w : List UInt8) (e : Exec) : Prop :=
  At .chunkSize { f with contentLength := UInt64.ofNat (valueOf 16 w) } e

theorem reads_firstXdigit (here : At .chunkSizeStart f e) (xdigit : isXdigit ch = true) : Reads e [ch] [] (InSize f [ch]) := by
  obtain ⟨d, digit, value⟩ := unhex_eq xdigit
  have out : e.count.switch ch [] = e.count.next { e.count.parser with contentLength := d, state := .chunkSize } := by
    rw [Exec.switch, Exec.count_state, here.state]
    show Exec.chunkSizeStart _ ch = _
    rw [Exec.chunkSizeStart, digit]
  refine .move here rfl out rfl ⟨rfl, ?_, rfl, rfl⟩
  have same : d = UInt64.ofNat (valueOf 16 [ch]) := by
    rw [valueOf, List.reverse_singleton, List.map_singleton, Nat.ofDigits_singleton, ← value, UInt64.ofNat_toNat]
  rw [← here.framing, ← same]
  rfl

theorem reads_xdigit {n : Nat} (numeral : Numeral 16 text n) (fits : n < ullongMax.toNat) (front : w ++ [ch] <+: text)
    (xdigit : isXdigit ch = true) (inside : InSize f w e) : Reads e [ch] [] (InSize f (w ++ [ch])) := by
  obtain ⟨d, digit, stands⟩ := unhex_eq xdigit
  have cr : ch ≠ CR := ne_of_unhex digit rfl
  have length : e.count.parser.contentLength = UInt64.ofNat (valueOf 16 w) := congrArg Framing.contentLength inside.framing
  have value : addDigit 16 d e.count.parser.contentLength = some (UInt64.ofNat (valueOf 16 (w ++ [ch]))) :=
    Numeral.addDigit (b := 16) numeral (by decide) fits front length stands
  have out : e.count.switch ch [] = e.count.next
      { e.count.parser with contentLength := UInt64.ofNat (valueOf 16 (w ++ [ch])) } := by
    rw [Exec.switch, Exec.count_state, inside.state]
    show Exec.chunkSize _ ch = _
    rw [Exec.chunkSize, if_neg cr, digit]
    dsimp only
    rw [value]
  refine .move inside rfl out rfl ⟨inside.state, ?_, rfl, rfl⟩
  show ({ e.parser.framing with contentLength := _ } : Framing) = _
  rw [inside.framing]

theorem reads_extension {extension : List UInt8} (here : At .chunkSize f e)
    (starts : ∀ ch ∈ extension.head?, ch = ';'.toUInt8 ∨ ch = ' '.toUInt8) (inLine : ∀ ch ∈ extension, ch ≠ CR) :
    Reads e (extension ++ [CR]) [] (At .chunkSizeAlmostDone f) := by
  cases extension with
  | nil => exact .goTo here rfl fun e state => by rw [Exec.switch, state]; rfl
  | cons first rest =>
    have parameters : Reads e [first] [] (At .chunkParameters f) := by
      refine .goTo here rfl fun e state => ?_
      rw [Exec.switch, state]
      rcases starts first rfl with rfl | rfl <;> rfl
    show Reads e ([first] ++ (rest ++ [CR])) [] _
    refine parameters.seq fun e here => ?_
    have skipped : Reads e rest [] (At .chunkParameters f) := .all here fun ch member t here => by
      have other := inLine ch (List.mem_cons_of_mem first member)
      have out : t.count.switch ch [] = t.count.next t.count.parser := by
        rw [Exec.switch, Exec.count_state, here.state]
        exact if_neg other
      exact .move here rfl out rfl ⟨here.state, here.framing, rfl, rfl⟩
    exact skipped.seq fun e here => .goTo here rfl fun e state => by rw [Exec.switch, state]; rfl

theorem reads_size {n : Nat} (here : At .chunkSizeStart f e) (line : SizeLine n) (fits : n < ullongMax.toNat) :
    Reads e (line.size ++ (line.extension ++ [CR])) []
      (At .chunkSizeAlmostDone { f with contentLength := UInt64.ofNat n }) := by
  obtain ⟨size, extension, numeral, starts, inLine, -⟩ := line
  have digits : Reads e size [] (InSize f size) := by
    obtain ⟨first, rest, rfl⟩ := List.exists_cons_of_ne_nil numeral.filled
    refine (reads_firstXdigit here (numeral.digits first List.mem_cons_self).1).seq fun e inside => ?_
    exact Reads.word [first] inside fun w ch member isPrefix t inside =>
      reads_xdigit numeral fits isPrefix (numeral.digits ch (List.mem_cons_of_mem first member)).1 inside
  refine digits.seq fun e inside => ?_
  rw [InSize, numeral.counts] at inside
  exact reads_extension inside starts inLine

theorem AtChunk.room (here : AtChunk e) {n : Nat} (small : n ≤ httpMaxHeaderSize.toNat) : e.Room n := by
  show e.parser.nread.toNat + n ≤ _
  rw [here.nread]
  show 0 + n ≤ _
  omega

/-- The line in front of a chunk, up to its last byte. -/
theorem AtChunk.size {n : Nat} (here : AtChunk e) (line : SizeLine n) (fits : n < ullongMax.toNat) :
    ∃ t f, emit Run.step (.going e) (line.size ++ (line.extension ++ [CR])) = (.going t, []) ∧
      At .chunkSizeAlmostDone f t ∧ f.contentLength = UInt64.ofNat n ∧ t.Room 1 := by
  have small := line.small
  have length : (line.size ++ (line.extension ++ [CR])).length + 1 ≤ httpMaxHeaderSize.toNat := by
    simp only [List.length_append, List.length_singleton]
    omega
  have room : e.Room (line.size ++ (line.extension ++ [CR])).length := here.room (Nat.le_of_succ_le length)
  obtain ⟨t, reads, done⟩ := (reads_size here.at line fits (here.room (Nat.zero_le _))).1 room
  refine ⟨t, _, reads.ran, done, rfl, ?_⟩
  rw [Exec.Room, reads.counted, here.nread]
  show 0 + _ + 1 ≤ _
  rw [Nat.zero_add]
  exact length

/-- **A chunk.** -/
theorem emit_piece (here : AtChunk e) (piece : Piece) :
    ∃ t, emit Run.step (.going e) piece.encode = (.going t, [.body piece.bytes]) ∧ AtChunk t := by
  obtain ⟨a, f, size, almost, length, room⟩ := here.size piece.line piece.fits
  have some : UInt64.ofNat piece.bytes.length ≠ 0 := by
    intro none
    have zero := congrArg UInt64.toNat none
    rw [UInt64.toNat_ofNat_of_lt' (Nat.lt_trans piece.fits (by decide))] at zero
    exact piece.filled (List.length_eq_zero_iff.mp zero)
  have missing : a.parser.contentLength = UInt64.ofNat piece.bytes.length := by
    rw [← length, ← almost.framing]
    rfl
  have step : Run.step (.going a) LF = (.going ⟨{ a.parser with nread := 0, state := .chunkData }, none, none⟩, []) := by
    have byte : a.byte LF [] = .next { a with parser := { a.parser with nread := 0, state := .chunkData } } [] 0 := by
      have more : ¬ a.count.parser.contentLength = 0 := by
        show ¬ a.parser.contentLength = 0
        rwa [missing]
      rw [byte_of_room (by rw [almost.state]; rfl) room, switch, count_state, almost.state]
      show Exec.chunkSizeAlmostDone _ LF = _
      rw [Exec.chunkSizeAlmostDone, if_neg (not_not.mpr rfl)]
      exact if_neg more
    rw [Run.step_next byte]
    simp only [Exec.advance, almost.url, almost.body]
    rfl
  have inside : InBody .chunkData [] piece.bytes ⟨{ a.parser with nread := 0, state := .chunkData }, none, none⟩ := by
    refine ⟨rfl, ?_, rfl, rfl⟩
    show a.parser.contentLength.toNat = _
    rw [missing, UInt64.toNat_ofNat_of_lt' (Nat.lt_trans piece.fits (by decide))]
  obtain ⟨b, data, state, url, body⟩ := emit_chunkData inside piece.filled
  obtain ⟨t, ends, done⟩ := emit_chunkEnd state url body
  refine ⟨t, ?_, done⟩
  have text : piece.encode =
      (piece.line.size ++ (piece.line.extension ++ [CR])) ++ ([LF] ++ (piece.bytes ++ crlf)) := by
    simp [Piece.encode, SizeLine.encode, crlf]
  rw [text, emit_append, size, List.singleton_append, emit_cons, step, emit_append, data, ends]
  rfl

theorem emit_pieces (here : AtChunk e) (pieces : List Piece) :
    ∃ t, emit Run.step (.going e) (pieces.flatMap Piece.encode) =
      (.going t, pieces.map fun piece => .body piece.bytes) ∧ AtChunk t := by
  induction pieces generalizing e with
  | nil => exact ⟨e, rfl, here⟩
  | cons piece pieces ih =>
    obtain ⟨a, first, here⟩ := emit_piece here piece
    obtain ⟨t, rest, here⟩ := ih here
    refine ⟨t, ?_, here⟩
    rw [List.flatMap_cons, emit_append, first, rest]
    rfl

/-- The end of the head, up to its last byte. -/
theorem reads_lastLine (starts : Starts f e) : Reads e [CR] [] (At .headersAlmostDone f) := by
  rcases starts with here | here
  · exact .goTo here rfl fun e state => by rw [Exec.switch, state]; rfl
  · exact .goTo here rfl fun e state => by rw [Exec.switch, state]; rfl

/-- The last chunk and the trailer. -/
theorem ends_trailer (here : AtChunk e) (last : SizeLine 0) (trailer : List Header)
    (small : (trailer.flatMap Header.encode).length + 2 ≤ httpMaxHeaderSize.toNat) :
    Ends e (last.encode ++ (trailer.flatMap Header.encode ++ crlf)) [.messageComplete] := by
  obtain ⟨a, f, size, almost, length, room⟩ := here.size last (by decide)
  have none : a.parser.contentLength = 0 := by
    have same := congrArg Framing.contentLength almost.framing
    exact same.trans length
  let next : HttpParser :=
    { a.parser with nread := 0, flags := { a.parser.flags with trailing := true }, state := .headerFieldStart }
  have step : Run.step (.going a) LF = (.going ⟨next, .none, .none⟩, []) := by
    have byte : a.byte LF [] = .next { a with parser := next } [] 0 := by
      rw [byte_of_room (by rw [almost.state]; rfl) room, switch, count_state, almost.state]
      show Exec.chunkSizeAlmostDone _ LF = _
      rw [Exec.chunkSizeAlmostDone, if_neg (not_not.mpr rfl)]
      exact if_pos none
    rw [Run.step_next byte]
    simp only [Exec.advance, almost.url, almost.body]
    rfl
  have starts : Starts next.framing ⟨next, .none, .none⟩ := .inl ⟨rfl, rfl, rfl, rfl⟩
  have headers : Reads ⟨next, .none, .none⟩ (trailer.flatMap Header.encode ++ [CR]) []
      (At .headersAlmostDone next.framing) :=
    (reads_headers starts trailer).seq fun t starts => reads_lastLine starts
  have fits : (trailer.flatMap Header.encode ++ [CR]).length + 1 ≤ httpMaxHeaderSize.toNat := by
    simp only [List.length_append, List.length_singleton]
    omega
  have start (n : Nat) (small : n ≤ httpMaxHeaderSize.toNat) : (⟨next, .none, .none⟩ : Exec).Room n := by
    show 0 + n ≤ _
    omega
  obtain ⟨t, reads, done⟩ := (headers (start 0 (Nat.zero_le _))).1 (start _ (Nat.le_of_succ_le fits))
  have room : t.Room 1 := by
    rw [Exec.Room, reads.counted]
    show 0 + _ + 1 ≤ _
    omega
  have ends : Ends t [LF] [.messageComplete] := by
    have byte : t.byte LF [] = t.count.complete := by
      have trailing : t.count.parser.flags.trailing = true := congrArg Framing.trailing done.framing
      rw [byte_of_room (by rw [done.state]; rfl) room, switch, count_state, done.state]
      show Exec.headersAlmostDone _ LF = _
      rw [Exec.headersAlmostDone, if_neg (not_not.mpr rfl), if_pos trailing]
    refine .of_step ?_ (by simp)
    rw [Run.step_next byte]
  have text : last.encode ++ (trailer.flatMap Header.encode ++ crlf) =
      (last.size ++ (last.extension ++ [CR])) ++ ([LF] ++ ((trailer.flatMap Header.encode ++ [CR]) ++ [LF])) := by
    simp [SizeLine.encode, crlf]
  have one : emit Run.step (.going a) [LF] = (.going ⟨next, .none, .none⟩, []) := by rw [emit_cons, emit_nil, step]; rfl
  rw [text]
  exact .append size List.not_mem_nil (.append one List.not_mem_nil (.append reads.ran List.not_mem_nil ends))

end Netter.Http
