import Netter.Http.Lines
import Netter.Http.Names
import Netter.Http.Numbers

/-!
# Header lines

A header that does not frame the body leaves the framing as it was; `Content-Length` and `Transfer-Encoding` put in it what they
say. Behind each line the parser waits for the next one or for the end of the head.
-/

namespace Netter.Http

open Lib Exec

variable {e t : Exec} {p q : HttpParser} {ch c : UInt8} {w word text : List UInt8} {f : Framing} {found : HeaderState}

@[simp] theorem matching_framing : (p.matching word found c).framing = p.framing := by
  unfold HttpParser.matching
  dsimp only
  split
  · rfl
  · split <;> rfl

@[simp] theorem matching_nread : (p.matching word found c).nread = p.nread := by
  unfold HttpParser.matching
  dsimp only
  split
  · rfl
  · split <;> rfl

@[simp] theorem headerFieldToken_framing : (headerFieldToken p c).framing = p.framing := by
  unfold headerFieldToken
  split <;> first | rfl | simp

@[simp] theorem headerFieldToken_nread : (headerFieldToken p c).nread = p.nread := by
  unfold headerFieldToken
  split <;> first | rfl | simp

/-- Behind a line, in front of a header or the end of the head. -/
def Starts (f : Framing) (e : Exec) : Prop := At .headerFieldStart f e ∨ At .headerValueLws f e

/-! ## Names -/

/-- In the name of a header, with these tokens of it. -/
structure InName (f : Framing) (w : List UInt8) (e : Exec) : Prop extends At .headerField f e where
  headerState : e.parser.headerState = (scanName w).headerState
  index : e.parser.index = (scanName w).index

theorem ne_of_token (some : token ch ≠ 0) (none : token c = 0) : ch ≠ c := fun is => some (is ▸ none)

theorem reads_firstToken (starts : Starts f e) (some : token ch ≠ 0) : Reads e [ch] [] (InName f [token ch]) := by
  have cr : ch ≠ CR := ne_of_token some rfl
  have lf : ch ≠ LF := ne_of_token some rfl
  have blank : ¬ (ch = ' '.toUInt8 ∨ ch = 9) := by
    rintro (is | is) <;> exact ne_of_token some (by decide) is
  have start (u : Exec) : u.headerFieldStart ch =
      u.next { u.parser with index := 0, state := .headerField, headerState := firstHeaderState (token ch) } := by
    rw [Exec.headerFieldStart, if_neg cr, if_neg lf, if_neg some]
  rcases starts with here | here
  · have out : e.count.switch ch [] = e.count.next
        { e.count.parser with index := 0, state := .headerField, headerState := firstHeaderState (token ch) } := by
      rw [Exec.switch, Exec.count_state, here.state]
      exact start _
    exact .move here rfl out rfl ⟨⟨rfl, here.framing, rfl, rfl⟩, rfl, rfl⟩
  · have out : e.count.switch ch [] = e.count.next
        { e.count.parser with index := 0, state := .headerField, headerState := firstHeaderState (token ch) } := by
      rw [Exec.switch, Exec.count_state, here.state]
      show Exec.headerValueLws _ ch = _
      rw [Exec.headerValueLws, if_neg blank, start]
      rfl
    exact .move here rfl out rfl ⟨⟨rfl, here.framing, rfl, rfl⟩, rfl, rfl⟩

theorem reads_token (inside : InName f w e) (filled : w ≠ []) (some : token ch ≠ 0) :
    Reads e [ch] [] (InName f (w ++ [token ch])) := by
  have out : e.count.switch ch [] = e.count.next (headerFieldToken e.count.parser (token ch)) := by
    rw [Exec.switch, Exec.count_state, inside.state]
    exact if_pos some
  obtain ⟨state, index⟩ := headerFieldToken_congr (p := e.count.parser) (q := scanName w) inside.headerState inside.index
    (token ch)
  rw [← scanName_snoc filled] at state index
  refine .move inside.toAt rfl out (by simp) ⟨⟨?_, ?_, rfl, rfl⟩, state, index⟩
  · show (headerFieldToken _ _).state = _
    rw [headerFieldToken_state]
    exact inside.state
  · show (headerFieldToken _ _).framing = _
    rw [headerFieldToken_framing]
    exact inside.framing

/-- A name and the colon. -/
theorem reads_name {name : List UInt8} (starts : Starts f e) (filled : name ≠ []) (tokens : ∀ ch ∈ name, token ch ≠ 0) :
    Reads e (name ++ bytesOf ":") [] fun t =>
      At .headerValueStart f t ∧ t.parser.headerState = (scanName (name.map token)).headerState := by
  obtain ⟨first, rest, rfl⟩ := List.exists_cons_of_ne_nil filled
  have whole : Reads e (first :: rest) [] (InName f ((first :: rest).map token)) := by
    refine (reads_firstToken starts (tokens first List.mem_cons_self)).seq fun e inside => ?_
    have words : Reads e rest [] fun t => [first] ++ rest ≠ [] ∧ InName f (([first] ++ rest).map token) t := by
      refine Reads.word (I := fun w e => w ≠ [] ∧ InName f (w.map token) e) [first] ⟨by simp, inside⟩
        fun w ch member _ t known => ?_
      obtain ⟨some, inside⟩ := known
      have more := reads_token inside (by simpa using some) (tokens ch (List.mem_cons_of_mem _ member))
      refine more.mono fun t inside => ⟨by simp, ?_⟩
      rwa [List.map_append]
    exact words.mono fun t known => known.2
  refine whole.seq fun e inside => ?_
  have out : e.count.switch ':'.toUInt8 [] = e.count.next { e.count.parser with state := .headerValueStart } := by
    rw [Exec.switch, Exec.count_state, inside.state]
    rfl
  exact .move inside.toAt rfl out rfl ⟨⟨rfl, inside.framing, rfl, rfl⟩, inside.headerState⟩

/-! ## Values that frame nothing -/

/-- In a value, or in front of it, that frames nothing. -/
structure InValue (f : Framing) (e : Exec) : Prop where
  state : e.parser.state = .headerValueStart ∨ e.parser.state = .headerValue
  plain : e.parser.headerState.plain = true
  framing : e.parser.framing = f
  url : e.urlMark = none
  body : e.bodyMark = none

theorem plain_matching (plain : p.headerState.plain = true) (ends : found.plain = true) :
    (p.matching word found c).headerState.plain = true := by
  rcases matching_headerState (p := p) word found c with is | is | is <;> rw [is] <;> first | rfl | assumption

theorem headerValueStart_plain (cr : ch ≠ CR) (lf : ch ≠ LF) (plain : e.parser.headerState.plain = true)
    (here : e.parser.state = .headerValueStart) :
    ∃ q, e.headerValueStart ch = e.next q ∧ q.nread = e.parser.nread ∧ q.framing = e.parser.framing ∧
      (q.state = .headerValueStart ∨ q.state = .headerValue) ∧ q.headerState.plain = true := by
  unfold Exec.headerValueStart
  by_cases blank : ch = ' '.toUInt8 ∨ ch = 9
  · rw [if_pos blank]
    exact ⟨_, rfl, rfl, rfl, .inl here, plain⟩
  · rw [if_neg blank]
    dsimp only
    rw [if_neg cr, if_neg lf]
    cases at_state : e.parser.headerState <;> rw [at_state] at plain
    case contentLength | transferEncoding | upgrade | matchingTransferEncodingChunked | transferEncodingChunked =>
      cases plain
    case connection =>
      refine ⟨_, rfl, rfl, rfl, .inr rfl, ?_⟩
      dsimp only
      split
      · rfl
      · split <;> rfl
    all_goals exact ⟨_, rfl, rfl, rfl, .inr rfl, rfl⟩

theorem headerValue_plain (cr : ch ≠ CR) (lf : ch ≠ LF) (plain : e.parser.headerState.plain = true) :
    ∃ q, e.headerValue ch = e.next q ∧ q.nread = e.parser.nread ∧ q.framing = e.parser.framing ∧
      q.state = e.parser.state ∧ q.headerState.plain = true := by
  unfold Exec.headerValue
  dsimp only
  rw [if_neg cr, if_neg lf]
  cases at_state : e.parser.headerState <;> rw [at_state] at plain
  case contentLength | transferEncoding | upgrade | matchingTransferEncodingChunked | transferEncodingChunked =>
    cases plain
  case matchingConnectionKeepAlive | matchingConnectionClose =>
    exact ⟨_, rfl, matching_nread, matching_framing, matching_state _ _ _,
      plain_matching (by rw [at_state]; rfl) rfl⟩
  case connectionKeepAlive | connectionClose =>
    dsimp only
    split
    · exact ⟨_, rfl, rfl, rfl, rfl, rfl⟩
    · exact ⟨_, rfl, rfl, rfl, rfl, by rw [at_state]; rfl⟩
  all_goals exact ⟨_, rfl, rfl, rfl, rfl, by first | rfl | (rw [at_state]; rfl)⟩

theorem reads_valueChar (inside : InValue f e) (cr : ch ≠ CR) (lf : ch ≠ LF) : Reads e [ch] [] (InValue f) := by
  obtain ⟨state, plain, framing, url, body⟩ := inside
  rcases state with state | state
  · have here : At .headerValueStart f e := ⟨state, framing, url, body⟩
    obtain ⟨q, out, counted, same, next, still⟩ := headerValueStart_plain (e := e.count) cr lf plain state
    refine .move here rfl ?_ counted ⟨next, still, same.trans framing, rfl, rfl⟩
    rw [Exec.switch, Exec.count_state, state, ← out]
  · have here : At .headerValue f e := ⟨state, framing, url, body⟩
    obtain ⟨q, out, counted, same, next, still⟩ := headerValue_plain (e := e.count) cr lf plain
    refine .move here rfl ?_ counted ⟨.inr (next.trans state), still, same.trans framing, rfl, rfl⟩
    rw [Exec.switch, Exec.count_state, state, ← out]

/-- The end of a line that frames nothing. -/
theorem reads_lineEnd (here : At .headerAlmostDone f e) (other : e.parser.headerState ≠ .transferEncodingChunked) :
    Reads e [LF] [] (Starts f) := by
  have out : ∃ q, e.count.switch LF [] = e.count.next q ∧ q.nread = e.count.parser.nread ∧
      q.framing = e.parser.framing ∧ q.state = .headerValueLws := by
    rw [Exec.switch, Exec.count_state, here.state]
    show ∃ q, Exec.headerAlmostDone _ LF = _ ∧ _
    unfold Exec.headerAlmostDone
    rw [if_neg (not_not.mpr rfl)]
    dsimp only
    split
    · exact ⟨_, rfl, rfl, rfl, rfl⟩
    · exact ⟨_, rfl, rfl, rfl, rfl⟩
    next is => exact absurd is other
    · exact ⟨_, rfl, rfl, rfl, rfl⟩
  obtain ⟨q, out, counted, same, next⟩ := out
  exact .move here rfl out counted (.inr ⟨next, same.trans here.framing, rfl, rfl⟩)

theorem reads_valueEnd (inside : InValue f e) : Reads e crlf [] (Starts f) := by
  obtain ⟨state, plain, framing, url, body⟩ := inside
  have almost : Reads e [CR] [] fun t => At .headerAlmostDone f t ∧ t.parser.headerState ≠ .transferEncodingChunked := by
    rcases state with state | state
    · have here : At .headerValueStart f e := ⟨state, framing, url, body⟩
      have out : e.count.switch CR [] = e.count.next
          { e.count.parser with index := 0, headerState := .general, state := .headerAlmostDone } := by
        rw [Exec.switch, Exec.count_state, state]
        rfl
      exact .move here rfl out rfl ⟨⟨rfl, framing, rfl, rfl⟩, HeaderState.noConfusion⟩
    · have here : At .headerValue f e := ⟨state, framing, url, body⟩
      have out : e.count.switch CR [] = e.count.next { e.count.parser with state := .headerAlmostDone } := by
        rw [Exec.switch, Exec.count_state, state]
        rfl
      refine .move here rfl out rfl ⟨⟨rfl, framing, rfl, rfl⟩, fun is => ?_⟩
      have same : e.parser.headerState = .transferEncodingChunked := is
      rw [same] at plain
      cases plain
  exact almost.seq fun t done => reads_lineEnd done.1 done.2

/-- **A header that frames nothing.** -/
theorem reads_header (starts : Starts f e) (header : Header) : Reads e header.encode [] (Starts f) := by
  rw [Header.encode, ← List.append_assoc]
  refine (reads_name starts header.filled header.tokens).seq fun e done => ?_
  obtain ⟨here, scanned⟩ := done
  have plain : e.parser.headerState.plain = true := by
    rw [scanned]
    exact plain_scanName (by simpa using header.filled) header.plain
  have value : InValue f e := ⟨.inl here.state, plain, here.framing, here.url, here.body⟩
  have whole : Reads e header.value [] (InValue f) := .all value fun ch member t value => by
    obtain ⟨cr, lf⟩ := header.inLine ch member
    exact reads_valueChar value cr lf
  exact whole.seq fun e value => reads_valueEnd value

theorem reads_headers (starts : Starts f e) (headers : List Header) :
    Reads e (headers.flatMap Header.encode) [] (Starts f) :=
  .flatMap starts fun header _ _ starts => reads_header starts header

/-! ## Headers that frame the body -/

/-- In front of a value, behind a name that the parser knows. -/
structure InFront (f : Framing) (known : HeaderState) (e : Exec) : Prop extends At .headerValueStart f e where
  headerState : e.parser.headerState = known

variable {known : HeaderState}

theorem reads_blank (front : InFront f known e) (blank : ch = ' '.toUInt8 ∨ ch = 9) : Reads e [ch] [] (InFront f known) := by
  have out : e.count.switch ch [] = e.count.next e.count.parser := by
    rw [Exec.switch, Exec.count_state, front.state]
    exact if_pos blank
  exact .move front.toAt rfl out rfl ⟨⟨front.state, front.framing, rfl, rfl⟩, front.headerState⟩

/-- The name, the colon and the blanks in front of the value. -/
theorem reads_framingName (starts : Starts f e) (header : FramingHeader word) (filled : word ≠ []) (tokens : ∀ ch ∈ word, ch ≠ 0) :
    Reads e ((header.name ++ bytesOf ":") ++ header.before) [] (InFront f (scanName word).headerState) := by
  have named : header.name ≠ [] := by
    rintro empty
    apply filled
    rw [← header.spells, empty]
    rfl
  have some (ch : UInt8) (member : ch ∈ header.name) : token ch ≠ 0 := by
    apply tokens
    rw [← header.spells]
    exact List.mem_map_of_mem member
  refine (reads_name starts named some).seq fun e done => ?_
  rw [header.spells] at done
  have front : InFront f (scanName word).headerState e := ⟨done.1, done.2⟩
  exact .all front fun ch member t front => reads_blank front (header.blank ch member)

/-- In or behind a value that has been read. -/
structure InKnown (f : Framing) (known : HeaderState) (e : Exec) : Prop extends At .headerValue f e where
  headerState : e.parser.headerState = known

theorem reads_valueSpace (inside : InKnown f known e) (value : known = .contentLength ∨ known = .transferEncodingChunked) :
    Reads e [' '.toUInt8] [] (InKnown f known) := by
  have out : e.count.switch ' '.toUInt8 [] = e.count.next e.count.parser := by
    have state : e.count.parser.headerState = known := inside.headerState
    rw [Exec.switch, Exec.count_state, inside.state]
    show Exec.headerValue _ _ = _
    unfold Exec.headerValue
    dsimp only
    rw [if_neg (by decide), if_neg (by decide), state]
    rcases value with rfl | rfl <;> rfl
  exact .move inside.toAt rfl out rfl ⟨⟨inside.state, inside.framing, rfl, rfl⟩, inside.headerState⟩

/-- The spaces behind a value that has been read, and the end of its line but for the last byte. -/
theorem reads_knownEnd (header : FramingHeader word) (inside : InKnown f known e)
    (value : known = .contentLength ∨ known = .transferEncodingChunked) :
    Reads e (header.after ++ [CR]) [] fun t => At .headerAlmostDone f t ∧ t.parser.headerState = known := by
  have spaces : Reads e header.after [] (InKnown f known) := .all inside fun ch member t inside => by
    rw [header.spaces ch member]
    exact reads_valueSpace inside value
  refine spaces.seq fun e inside => ?_
  have out : e.count.switch CR [] = e.count.next { e.count.parser with state := .headerAlmostDone } := by
    rw [Exec.switch, Exec.count_state, inside.state]
    rfl
  exact .move inside.toAt rfl out rfl ⟨⟨rfl, inside.framing, rfl, rfl⟩, inside.headerState⟩

theorem FramingHeader.encode_eq (header : FramingHeader word) (value : List UInt8) :
    header.encode value = ((header.name ++ bytesOf ":") ++ header.before) ++ (value ++ ((header.after ++ [CR]) ++ [LF])) := by
  simp only [FramingHeader.encode, crlf, List.append_assoc, List.cons_append, List.nil_append]

/-! ## `Content-Length` -/

/-- In the digits of `Content-Length`. -/
structure InLength (f : Framing) (w : List UInt8) (e : Exec) : Prop
    extends At .headerValue { f with contentLength := UInt64.ofNat (valueOf 10 w) } e where
  headerState : e.parser.headerState = .contentLength

theorem ne_of_isNum (number : isNum ch = true) (other : isNum c = false) : ch ≠ c := by
  rintro rfl
  rw [number] at other
  cases other

theorem reads_firstDigit (front : InFront f .contentLength e) (number : isNum ch = true) :
    Reads e [ch] [] (InLength f [ch]) := by
  have blank : ¬ (ch = ' '.toUInt8 ∨ ch = 9) := by
    rintro (is | is) <;> exact ne_of_isNum number (by decide) is
  have cr : ch ≠ CR := ne_of_isNum number rfl
  have lf : ch ≠ LF := ne_of_isNum number rfl
  have out : e.count.switch ch [] = e.count.next { e.count.parser with
      state := .headerValue, index := 0, contentLength := (ch - '0'.toUInt8).toUInt64 } := by
    have known : e.count.parser.headerState = .contentLength := front.headerState
    rw [Exec.switch, Exec.count_state, front.state]
    show Exec.headerValueStart _ ch = _
    unfold Exec.headerValueStart
    rw [if_neg blank]
    dsimp only
    rw [if_neg cr, if_neg lf, known]
    dsimp only
    rw [number]
    rfl
  refine .move front.toAt rfl out rfl ⟨⟨rfl, ?_, rfl, rfl⟩, front.headerState⟩
  have value : (ch - '0'.toUInt8).toUInt64 = UInt64.ofNat (valueOf 10 [ch]) := by
    rw [valueOf, List.reverse_singleton, List.map_singleton, Nat.ofDigits_singleton, ← toNat_isNum number,
      UInt64.ofNat_toNat]
  rw [← front.framing, ← value]
  rfl

theorem reads_digit {n : Nat} (numeral : Numeral 10 text n) (fits : n < ullongMax.toNat) (front : w ++ [ch] <+: text)
    (number : isNum ch = true) (inside : InLength f w e) : Reads e [ch] [] (InLength f (w ++ [ch])) := by
  have blank : ch ≠ ' '.toUInt8 := ne_of_isNum number (by decide)
  have cr : ch ≠ CR := ne_of_isNum number rfl
  have lf : ch ≠ LF := ne_of_isNum number rfl
  have length : e.count.parser.contentLength = UInt64.ofNat (valueOf 10 w) := congrArg Framing.contentLength inside.framing
  have value : addDigit 10 (ch - '0'.toUInt8).toUInt64 e.count.parser.contentLength =
      some (UInt64.ofNat (valueOf 10 (w ++ [ch]))) :=
    Numeral.addDigit (b := 10) numeral (by decide) fits front length (toNat_isNum number)
  have out : e.count.switch ch [] = e.count.next
      { e.count.parser with contentLength := UInt64.ofNat (valueOf 10 (w ++ [ch])) } := by
    have known : e.count.parser.headerState = .contentLength := inside.headerState
    rw [Exec.switch, Exec.count_state, inside.state]
    show Exec.headerValue _ ch = _
    unfold Exec.headerValue
    dsimp only
    rw [if_neg cr, if_neg lf, known]
    dsimp only
    rw [if_neg blank, number, value]
    rfl
  refine .move inside.toAt rfl out rfl ⟨⟨inside.state, ?_, rfl, rfl⟩, inside.headerState⟩
  show ({ e.parser.framing with contentLength := _ } : Framing) = _
  rw [inside.framing]

theorem reads_contentLength {n : Nat} (starts : Starts f e) (header : FramingHeader (bytesOf "content-length"))
    (numeral : Numeral 10 text n) (fits : n < ullongMax.toNat) :
    Reads e (header.encode text) [] (Starts { f with contentLength := UInt64.ofNat n }) := by
  rw [header.encode_eq]
  refine (reads_framingName starts header (by decide) (forall_of_all (by decide))).seq fun e front => ?_
  have front : InFront f .contentLength e := ⟨front.toAt, front.headerState.trans (by decide)⟩
  have digits : Reads e text [] (InLength f text) := by
    obtain ⟨first, rest, rfl⟩ := List.exists_cons_of_ne_nil numeral.filled
    have number (ch : UInt8) (member : ch ∈ first :: rest) : isNum ch = true :=
      isNum_of_digit (numeral.digits ch member).1 (numeral.digits ch member).2
    refine (reads_firstDigit front (number first List.mem_cons_self)).seq fun e inside => ?_
    exact Reads.word [first] inside fun w ch member isPrefix t inside =>
      reads_digit numeral fits isPrefix (number ch (List.mem_cons_of_mem first member)) inside
  refine digits.seq fun e inside => ?_
  have same : UInt64.ofNat (valueOf 10 text) = UInt64.ofNat n := by rw [numeral.counts]
  have here := inside.toAt
  rw [same] at here
  refine (reads_knownEnd header ⟨here, inside.headerState⟩ (.inl rfl)).seq fun e done => ?_
  exact reads_lineEnd done.1 (by rw [done.2]; nofun)

/-! ## `Transfer-Encoding` -/

/-- In the word `chunked`. -/
structure InChunked (f : Framing) (w : List UInt8) (e : Exec) : Prop extends At .headerValue f e where
  matched : Matching (bytesOf "chunked") w e.parser.index
  headerState : e.parser.headerState = .matchingTransferEncodingChunked

/-- In the word, in either case, or behind it. -/
structure InCoding (f : Framing) (w : List UInt8) (e : Exec) : Prop where
  inside : w.length < (bytesOf "chunked").length → InChunked f (w.map lower) e
  whole : w.length = (bytesOf "chunked").length → InKnown f .transferEncodingChunked e

theorem ne_of_lower (is : lower ch = c) {other : UInt8} (differs : lower other ≠ c) : ch ≠ other := by
  rintro rfl
  exact differs is

theorem reads_firstChunked (front : InFront f .transferEncoding e) (is : lower ch = 'c'.toUInt8) :
    Reads e [ch] [] (InCoding f [ch]) := by
  have blank : ¬ (ch = ' '.toUInt8 ∨ ch = 9) := not_or.mpr ⟨ne_of_lower is (by decide), ne_of_lower is (by decide)⟩
  have out : e.count.switch ch [] = e.count.next { e.count.parser with
      state := .headerValue, index := 0, headerState := .matchingTransferEncodingChunked } := by
    have known : e.count.parser.headerState = .transferEncoding := front.headerState
    rw [Exec.switch, Exec.count_state, front.state]
    show Exec.headerValueStart _ _ = _
    unfold Exec.headerValueStart
    rw [if_neg blank]
    dsimp only
    rw [if_neg (ne_of_lower is (by decide)), if_neg (ne_of_lower is (by decide)), known, is]
    rfl
  have matched : Matching (bytesOf "chunked") ([ch].map lower) 0 := by
    rw [List.map_singleton, is]
    exact ⟨by decide, by decide, rfl⟩
  refine .move front.toAt rfl out rfl ⟨fun _ => ⟨⟨rfl, front.framing, rfl, rfl⟩, matched, rfl⟩, fun full => ?_⟩
  exact absurd (show 1 = (bytesOf "chunked").length from full) (by decide)

theorem switch_inChunked (inside : InChunked f w e) (cr : ch ≠ CR) (lf : ch ≠ LF) : e.count.switch ch [] =
    e.count.next (e.count.parser.matching (bytesOf "chunked") .transferEncodingChunked (lower ch)) := by
  have known : e.count.parser.headerState = .matchingTransferEncodingChunked := inside.headerState
  rw [Exec.switch, Exec.count_state, inside.state]
  show Exec.headerValue _ ch = _
  unfold Exec.headerValue
  dsimp only
  rw [if_neg cr, if_neg lf, known]

theorem reads_codingChar {coding : List UInt8} (spells : coding.map lower = bytesOf "chunked") (front : w ++ [ch] <+: coding)
    (inside : InCoding f w e) : Reads e [ch] [] (InCoding f (w ++ [ch])) := by
  have lowered : w.map lower ++ [lower ch] <+: bytesOf "chunked" := by
    rw [← spells, ← List.map_singleton, ← List.map_append]
    exact front.map lower
  have letters : ∀ c ∈ bytesOf "chunked", lower CR ≠ c ∧ lower LF ≠ c := forall_of_all (by decide)
  have letter := letters (lower ch) (lowered.subset (List.mem_append_right _ List.mem_cons_self))
  have length : (w.map lower ++ [lower ch]).length = w.length + 1 := by simp
  have shorter : w.length < (bytesOf "chunked").length := by
    have longer := lowered.length_le
    rwa [length] at longer
  have before := inside.inside shorter
  have matched : Matching (bytesOf "chunked") (w.map lower) e.count.parser.index := before.matched
  have out := switch_inChunked before (ne_of_lower rfl letter.1) (ne_of_lower rfl letter.2)
  rw [matched.next (by decide) lowered] at out
  by_cases whole : (w.map lower ++ [lower ch]).length = (bytesOf "chunked").length
  · rw [if_pos whole] at out
    refine .move before.toAt rfl out rfl ⟨fun less => ?_, fun _ => ⟨⟨before.state, before.framing, rfl, rfl⟩, rfl⟩⟩
    rw [List.length_append, List.length_singleton, ← length] at less
    exact absurd whole (Nat.ne_of_lt less)
  · rw [if_neg whole] at out
    refine .move before.toAt rfl out rfl ⟨fun _ => ⟨⟨before.state, before.framing, rfl, rfl⟩, ?_, before.headerState⟩, fun full => ?_⟩
    · rw [List.map_append, List.map_singleton]
      exact matched.snoc (by decide) lowered whole
    · rw [List.length_append, List.length_singleton, ← length] at full
      exact absurd full whole

theorem reads_chunked {coding : List UInt8} (starts : Starts f e) (header : FramingHeader (bytesOf "transfer-encoding"))
    (spells : coding.map lower = bytesOf "chunked") : Reads e (header.encode coding) [] (Starts { f with chunked := true }) := by
  rw [header.encode_eq]
  refine (reads_framingName starts header (by decide) (forall_of_all (by decide))).seq fun e front => ?_
  have front : InFront f .transferEncoding e := ⟨front.toAt, front.headerState.trans (by decide)⟩
  have word : Reads e coding [] (InCoding f coding) := by
    cases coding with
    | nil => cases spells
    | cons first rest =>
      refine (reads_firstChunked front (List.cons.inj spells).1).seq fun e inside => ?_
      exact Reads.word [first] inside fun w ch _ isPrefix t inside => reads_codingChar spells isPrefix inside
  refine word.seq fun e inside => ?_
  have length : coding.length = (bytesOf "chunked").length := by rw [← spells, List.length_map]
  refine (reads_knownEnd header (inside.whole length) (.inr rfl)).seq fun e done => ?_
  have out : e.count.switch LF [] = e.count.next { e.count.parser with
      state := .headerValueLws, flags := { e.count.parser.flags with chunked := true } } := by
    have known : e.count.parser.headerState = .transferEncodingChunked := done.2
    rw [Exec.switch, Exec.count_state, done.1.state]
    show Exec.headerAlmostDone _ LF = _
    unfold Exec.headerAlmostDone
    rw [if_neg (not_not.mpr rfl)]
    dsimp only
    rw [known]
  refine .move done.1 rfl out rfl (.inr ⟨rfl, ?_, rfl, rfl⟩)
  rw [← done.1.framing]
  rfl

end Netter.Http
