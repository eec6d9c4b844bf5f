import Netter.Http.Request

/-!
# The headers of a request and its body

What the parser has counted and what it has reported while it goes through a request: it counts every byte up to
the end of the headers, reports there how many they are and which length has been declared for the body, and
counts the body down from that.
-/

namespace Netter.Http

open Lib

/-- In the request line, or before it. -/
def ParserState.inLine : ParserState → Bool
  | .dead | .startReq | .reqMethod | .reqSpacesBeforeUrl | .reqHttpStart | .reqHttpH | .reqHttpHT | .reqHttpHTT
  | .reqHttpHTTP | .reqFirstHttpMajor | .reqHttpMajor | .reqFirstHttpMinor | .reqHttpMinor | .reqLineAlmostDone => true
  | state => state.inUrl

def ParserState.inHeaders : ParserState → Bool
  | .headerFieldStart | .headerField | .headerValueStart | .headerValue | .headerValueLws | .headerAlmostDone
  | .headersAlmostDone => true
  | _ => false

def ParserState.inChunks : ParserState → Bool
  | .chunkSizeStart | .chunkSize | .chunkParameters | .chunkSizeAlmostDone | .chunkData | .chunkDataAlmostDone
  | .chunkDataDone => true
  | _ => false

/-- `nread` and `content_length` as `on_headers_complete` finds them, each time. -/
def headersOf (calls : List Callback) : List (UInt32 × UInt64) :=
  calls.filterMap fun
    | .headersComplete nread contentLength => some (nread, contentLength)
    | _ => none

theorem headersOf_append (calls more : List Callback) : headersOf (calls ++ more) = headersOf calls ++ headersOf more :=
  List.filterMap_append

variable {e : Exec} {p q : HttpParser} {ch : UInt8}

/-! ## The request line -/

/-- A byte of the request line, and what it may lead to. -/
def Outcome.Lines (p : HttpParser) : Outcome → Prop
  | .next t calls _ => (headersOf calls = [] ∧ .messageComplete ∉ calls) ∧
      (t.parser.state.inLine = true ∨ t.parser.state.inHeaders = true) ∧ t.parser.nread = p.nread ∧
      (p.flags.trailing = false → t.parser.flags.trailing = false)
  | .leave _ calls => calls = []

namespace Exec

theorem lines_fail (errno : HttpErrno) : (e.fail errno).Lines p := rfl

theorem lines_next (inside : q.state.inLine = true ∨ q.state.inHeaders = true) (nread : q.nread = p.nread)
    (trailing : p.flags.trailing = false → q.flags.trailing = false) : (e.next q).Lines p :=
  ⟨⟨rfl, nofun⟩, inside, nread, trailing⟩

theorem inLine_of_inUrl {state : ParserState} (inside : state.inUrl = true) : state.inLine = true := by
  cases state <;> first | rfl | cases inside

theorem lines_urlChar {s : ParserState} : (e.urlChar s ch).Lines e.parser := by
  unfold urlChar
  dsimp only
  split
  next => exact lines_fail _
  next alive => exact lines_next (.inl (inLine_of_inUrl (parseUrlChar_inUrl s ch alive))) rfl id

theorem lines_callUrl (inside : e.parser.state.inLine = true ∨ e.parser.state.inHeaders = true) :
    e.callUrl.Lines e.parser := by
  unfold callUrl
  split
  · exact ⟨⟨rfl, by simp⟩, inside, rfl, id⟩
  · exact lines_next inside rfl id

theorem lines_strict {expected : UInt8} {state : ParserState} (inside : state.inLine = true) :
    (e.strict expected state ch).Lines e.parser := by
  unfold strict
  split
  · exact lines_fail _
  · exact lines_next (.inl inside) rfl id

theorem lines_reqSchema : (e.reqSchema ch).Lines e.parser := by
  unfold reqSchema
  split
  · exact lines_fail _
  · exact lines_urlChar

theorem lines_reqUrl : (e.reqUrl ch).Lines e.parser := by
  unfold reqUrl
  split
  · exact lines_callUrl (e := { e with parser := { e.parser with state := .reqHttpStart } }) (.inl rfl)
  · split
    · refine lines_callUrl (e := { e with parser := { e.parser with httpMajor := 0, httpMinor := 9, state := _ } }) ?_
      dsimp only
      split
      · exact .inl rfl
      · exact .inr rfl
    · exact lines_urlChar

theorem lines_startReq (inside : e.parser.state.inLine = true) : (e.startReq ch).Lines e.parser := by
  unfold startReq
  split
  · exact lines_next (.inl inside) rfl id
  · split
    · exact lines_fail _
    · split
      · exact lines_fail _
      · exact lines_next (.inl rfl) rfl fun _ => rfl

theorem lines_reqMethod (inside : e.parser.state.inLine = true) : (e.reqMethod ch).Lines e.parser := by
  simp only [reqMethod]
  split
  · exact lines_fail _
  · split
    · exact lines_next (.inl rfl) rfl id
    · split
      · exact lines_next (.inl inside) rfl id
      · split
        · exact lines_next (.inl inside) rfl id
        · exact lines_fail _

theorem lines_reqHttpMajor (inside : e.parser.state.inLine = true) : (e.reqHttpMajor ch).Lines e.parser := by
  simp only [reqHttpMajor]
  split
  · exact lines_next (.inl rfl) rfl id
  · split
    · exact lines_fail _
    · split
      · exact lines_fail _
      · exact lines_next (.inl inside) rfl id

theorem lines_reqHttpMinor (inside : e.parser.state.inLine = true) : (e.reqHttpMinor ch).Lines e.parser := by
  simp only [reqHttpMinor]
  split
  · exact lines_next (.inl rfl) rfl id
  · split
    · exact lines_next (.inr rfl) rfl id
    · split
      · exact lines_fail _
      · split
        · exact lines_fail _
        · exact lines_next (.inl inside) rfl id

theorem lines_switch (inside : e.parser.state.inLine = true) : (e.switch ch []).Lines e.parser := by
  have stay : (e.next e.parser).Lines e.parser := lines_next (.inl inside) rfl id
  unfold switch
  cases at_state : e.parser.state with
  | dead =>
    simp only [dead]
    split
    · exact stay
    · exact lines_fail _
  | startReq => exact lines_startReq inside
  | reqMethod => exact lines_reqMethod inside
  | reqSpacesBeforeUrl =>
    simp only [reqSpacesBeforeUrl]
    split
    · exact stay
    · exact lines_urlChar (e := { e with urlMark := _ })
  | reqSchema => exact lines_reqSchema
  | reqSchemaSlash => exact lines_reqSchema
  | reqSchemaSlashSlash => exact lines_reqSchema
  | reqServerStart => exact lines_reqSchema
  | reqServer => exact lines_reqUrl
  | reqServerWithAt => exact lines_reqUrl
  | reqPath => exact lines_reqUrl
  | reqQueryStringStart => exact lines_reqUrl
  | reqQueryString => exact lines_reqUrl
  | reqFragmentStart => exact lines_reqUrl
  | reqFragment => exact lines_reqUrl
  | reqHttpStart =>
    simp only [reqHttpStart]
    split
    · exact lines_next (.inl rfl) rfl id
    · split
      · exact stay
      · exact lines_fail _
  | reqHttpH => exact lines_strict rfl
  | reqHttpHT => exact lines_strict rfl
  | reqHttpHTT => exact lines_strict rfl
  | reqHttpHTTP => exact lines_strict rfl
  | reqFirstHttpMajor =>
    simp only [reqFirstHttpMajor]
    split
    · exact lines_fail _
    · exact lines_next (.inl rfl) rfl id
  | reqHttpMajor => exact lines_reqHttpMajor inside
  | reqFirstHttpMinor =>
    simp only [reqFirstHttpMinor]
    split
    · exact lines_fail _
    · exact lines_next (.inl rfl) rfl id
  | reqHttpMinor => exact lines_reqHttpMinor inside
  | reqLineAlmostDone =>
    simp only [reqLineAlmostDone]
    split
    · exact lines_fail _
    · exact lines_next (.inr rfl) rfl id
  | _ =>
    rw [at_state] at inside
    cases inside

end Exec

/-! ## The headers -/

/-- What a byte of the headers leaves alone. -/
structure Later (p q : HttpParser) : Prop where
  nread : q.nread = p.nread
  trailing : q.flags.trailing = p.flags.trailing
  chunked : p.flags.chunked = true → q.flags.chunked = true

/-- Another byte of the headers. -/
def Outcome.Headers (p : HttpParser) : Outcome → Prop
  | .next t calls _ => calls = [] ∧ t.parser.state.inHeaders = true ∧ Later p t.parser
  | .leave _ calls => calls = []

/-- The last byte of the headers: what is reported, and what comes then. -/
inductive Outcome.Ends (nread : UInt32) (contentLength : UInt64) : Outcome → Prop where
  | fails {q : HttpParser} : Ends nread contentLength (.leave q [])
  | leaves {q : HttpParser} :
    Ends nread contentLength (.leave q [.headersComplete nread contentLength, .messageComplete])
  | whole {t : Exec} (none : contentLength = 0 ∨ contentLength = ullongMax) :
    Ends nread contentLength (.next t [.headersComplete nread contentLength, .messageComplete] 0)
  | body {t : Exec} (state : t.parser.state = .bodyIdentity) (count : t.parser.contentLength = contentLength)
      (some : contentLength ≠ 0) (known : contentLength ≠ ullongMax) :
    Ends nread contentLength (.next t [.headersComplete nread contentLength] 0)
  | chunks {t : Exec} (state : t.parser.state = .chunkSizeStart) (chunked : t.parser.flags.chunked = true) :
    Ends nread contentLength (.next t [.headersComplete nread contentLength] 0)

/-- The last byte of the headers behind the last chunk. -/
inductive Outcome.Trailer (flags : Flags) : Outcome → Prop where
  | fails {q : HttpParser} : Trailer flags (.leave q [])
  | completes {t : Exec} (same : t.parser.flags = flags) : Trailer flags (.next t [.messageComplete] 0)

/-- A byte of the headers, and what it may lead to. -/
def Outcome.Heads (p : HttpParser) (out : Outcome) : Prop :=
  out.Headers p ∨ (p.flags.trailing = false ∧ out.Ends p.nread p.contentLength) ∨
    (p.flags.trailing = true ∧ out.Trailer p.flags)

/-- The state it comes in does not matter. -/
theorem Outcome.Heads.of_state {state : ParserState} {out : Outcome} (heads : out.Heads { p with state }) : out.Heads p := by
  refine heads.imp_left fun headers => ?_
  cases out with
  | next t calls skipped =>
    obtain ⟨none, inside, nread, trailing, chunked⟩ := headers
    exact ⟨none, inside, nread, trailing, chunked⟩
  | leave q calls => exact headers

theorem later_matching (word : List UInt8) (found : HeaderState) (c : UInt8) : Later p (p.matching word found c) := by
  unfold HttpParser.matching
  dsimp only
  split
  · exact ⟨rfl, rfl, id⟩
  · split <;> exact ⟨rfl, rfl, id⟩

namespace Exec

theorem later_headerFieldToken (c : UInt8) : Later p (headerFieldToken p c) := by
  unfold headerFieldToken
  split <;> first | exact ⟨rfl, rfl, id⟩ | exact later_matching _ _ _

theorem heads_fail (errno : HttpErrno) : (e.fail errno).Heads p := .inl rfl

theorem heads_next (inside : q.state.inHeaders = true) (later : Later p q) : (e.next q).Heads p :=
  .inl ⟨rfl, inside, later⟩

theorem heads_goTo {state : ParserState} (inside : state.inHeaders = true) : (e.goTo state).Heads e.parser :=
  heads_next inside ⟨rfl, rfl, id⟩

theorem heads_headersAlmostDone : (e.headersAlmostDone ch).Heads e.parser := by
  unfold headersAlmostDone
  split
  · exact heads_fail _
  next same =>
  split
  next trailing => exact .inr (.inr ⟨trailing, .completes rfl⟩)
  next plain =>
  refine .inr (.inl ⟨Bool.eq_false_iff.mpr plain, ?_⟩)
  unfold headersDone
  dsimp only
  rw [if_neg same]
  split
  · exact .leaves
  · split
    next chunked => exact .chunks rfl chunked
    next =>
    split
    next zero => exact .whole (.inl zero)
    next some =>
    split
    next known => exact .body rfl rfl some known
    next none => exact .whole (.inr (not_not.mp none))

theorem heads_headerFieldStart : (e.headerFieldStart ch).Heads e.parser := by
  unfold headerFieldStart
  split
  · exact heads_goTo rfl
  · split
    · exact (heads_headersAlmostDone (e := { e with parser := { e.parser with state := .headersAlmostDone } })).of_state
    · split
      · exact heads_fail _
      · exact heads_next rfl ⟨rfl, rfl, id⟩

theorem heads_headerField (inside : e.parser.state.inHeaders = true) : (e.headerField ch).Heads e.parser := by
  unfold headerField
  split
  · apply heads_next _ (later_headerFieldToken _)
    rw [headerFieldToken_state]
    exact inside
  · split
    · exact heads_goTo rfl
    · split
      · exact heads_goTo rfl
      · split
        · exact heads_goTo rfl
        · exact heads_fail _

theorem heads_headerValueStart (inside : e.parser.state.inHeaders = true) : (e.headerValueStart ch).Heads e.parser := by
  unfold headerValueStart
  split
  · exact heads_next inside ⟨rfl, rfl, id⟩
  · dsimp only
    split
    · exact heads_next rfl ⟨rfl, rfl, id⟩
    · split
      · exact heads_next rfl ⟨rfl, rfl, id⟩
      · split
        · exact heads_next rfl ⟨rfl, rfl, id⟩
        · exact heads_next rfl ⟨rfl, rfl, id⟩
        · split
          · exact heads_fail _
          · exact heads_next rfl ⟨rfl, rfl, id⟩
        · exact heads_next rfl ⟨rfl, rfl, id⟩
        · exact heads_next rfl ⟨rfl, rfl, id⟩

theorem heads_headerAlmostDone : (e.headerAlmostDone ch).Heads e.parser := by
  unfold headerAlmostDone
  split
  · exact heads_fail _
  · dsimp only
    split
    · exact heads_next rfl ⟨rfl, rfl, id⟩
    · exact heads_next rfl ⟨rfl, rfl, id⟩
    · exact heads_next rfl ⟨rfl, rfl, fun _ => rfl⟩
    · exact heads_next rfl ⟨rfl, rfl, id⟩

theorem heads_headerValue (inside : e.parser.state.inHeaders = true) : (e.headerValue ch).Heads e.parser := by
  have stay : (e.next e.parser).Heads e.parser := heads_next inside ⟨rfl, rfl, id⟩
  have matched (word : List UInt8) (found : HeaderState) (c : UInt8) :
      (e.next (e.parser.matching word found c)).Heads e.parser := by
    apply heads_next _ (later_matching word found c)
    rw [matching_state]
    exact inside
  unfold headerValue
  dsimp only
  split
  · exact heads_goTo rfl
  · split
    · exact (heads_headerAlmostDone (e := { e with parser := { e.parser with state := .headerAlmostDone } })).of_state
    · split
      · exact stay
      · split
        · exact stay
        · split
          · exact heads_fail _
          · split
            · exact heads_next inside ⟨rfl, rfl, id⟩
            · exact heads_fail _
      · exact matched _ _ _
      · exact matched _ _ _
      · exact matched _ _ _
      all_goals first | exact stay | exact heads_next inside ⟨rfl, rfl, id⟩ | skip
      all_goals split <;> first | exact stay | exact heads_next inside ⟨rfl, rfl, id⟩

theorem heads_headerValueLws : (e.headerValueLws ch).Heads e.parser := by
  unfold headerValueLws
  split
  · exact heads_goTo rfl
  · exact (heads_headerFieldStart (e := { e with parser := { e.parser with state := .headerFieldStart } })).of_state

theorem heads_switch (inside : e.parser.state.inHeaders = true) : (e.switch ch []).Heads e.parser := by
  unfold switch
  cases at_state : e.parser.state with
  | headerFieldStart => exact heads_headerFieldStart
  | headerField => exact heads_headerField inside
  | headerValueStart => exact heads_headerValueStart inside
  | headerValue => exact heads_headerValue inside
  | headerValueLws => exact heads_headerValueLws
  | headerAlmostDone => exact heads_headerAlmostDone
  | headersAlmostDone => exact heads_headersAlmostDone
  | _ =>
    rw [at_state] at inside
    cases inside

end Exec

/-! ## The body -/

/-- In a chunked body, or in the headers behind it. -/
structure Chunked (p : HttpParser) : Prop where
  chunked : p.flags.chunked = true
  inside : p.state.inChunks = true ∨ p.state.inHeaders = true ∧ p.flags.trailing = true

/-- A byte of a chunk. -/
def Outcome.Chunks : Outcome → Prop
  | .next t calls _ => (headersOf calls = [] ∧ .messageComplete ∉ calls) ∧ Chunked t.parser
  | .leave _ calls => calls = []

namespace Exec

theorem chunks_fail (errno : HttpErrno) : (e.fail errno).Chunks := rfl

theorem chunks_next (chunked : Chunked q) : (e.next q).Chunks := ⟨⟨rfl, nofun⟩, chunked⟩

theorem chunks_chunkSize (chunked : e.parser.flags.chunked = true) (inside : e.parser.state.inChunks = true) :
    (e.chunkSize ch).Chunks := by
  simp only [chunkSize]
  split
  · exact chunks_next ⟨chunked, .inl rfl⟩
  · split
    · split
      · exact chunks_next ⟨chunked, .inl rfl⟩
      · exact chunks_fail _
    · split
      · exact chunks_next ⟨chunked, .inl inside⟩
      · exact chunks_fail _

theorem chunks_chunkDataAlmostDone (chunked : e.parser.flags.chunked = true) :
    (e.chunkDataAlmostDone ch).Chunks := by
  unfold chunkDataAlmostDone
  split
  · exact chunks_fail _
  · unfold callBody
    split
    · exact ⟨⟨rfl, by simp⟩, chunked, .inl rfl⟩
    · exact ⟨⟨rfl, by simp⟩, chunked, .inl rfl⟩

theorem chunks_switch (chunked : e.parser.flags.chunked = true) (inside : e.parser.state.inChunks = true) :
    (e.switch ch []).Chunks := by
  unfold switch
  cases at_state : e.parser.state with
  | chunkSizeStart =>
    simp only [chunkSizeStart]
    split
    · exact chunks_fail _
    · exact chunks_next ⟨chunked, .inl rfl⟩
  | chunkSize => exact chunks_chunkSize chunked inside
  | chunkParameters =>
    simp only [chunkParameters]
    split
    · exact chunks_next ⟨chunked, .inl rfl⟩
    · exact chunks_next ⟨chunked, .inl inside⟩
  | chunkSizeAlmostDone =>
    simp only [chunkSizeAlmostDone]
    split
    · exact chunks_fail _
    · split
      · exact chunks_next ⟨chunked, .inr ⟨rfl, rfl⟩⟩
      · exact chunks_next ⟨chunked, .inl rfl⟩
  | chunkData =>
    simp only [chunkData]
    refine ⟨⟨rfl, by simp⟩, chunked, .inl ?_⟩
    dsimp only
    split
    · rfl
    · exact inside
  | chunkDataAlmostDone => exact chunks_chunkDataAlmostDone chunked
  | chunkDataDone =>
    simp only [chunkDataDone]
    split
    · exact chunks_fail _
    · exact chunks_next ⟨chunked, .inl rfl⟩
  | _ =>
    rw [at_state] at inside
    cases inside

/-- A byte of a body of known length. -/
theorem bodyIdentity_cases (missing : e.parser.contentLength ≠ 0) :
    (∃ t, e.bodyIdentity ch [] = .next t [] 0 ∧ t.parser.state = e.parser.state ∧ t.parser.contentLength ≠ 0 ∧
        t.parser.contentLength.toNat + 1 = e.parser.contentLength.toNat) ∨
      ∃ t bytes, e.bodyIdentity ch [] = .next t [.body bytes, .messageComplete] 0 ∧ e.parser.contentLength.toNat = 1 := by
  have some : 0 < e.parser.contentLength.toNat := by
    rw [Nat.pos_iff_ne_zero]
    exact fun zero => missing (UInt64.toNat_inj.mp zero)
  have read : e.toRead [] = 1 := by
    rw [toRead, List.length_nil]
    omega
  have left : (e.bodyRead []).contentLength.toNat = e.parser.contentLength.toNat - 1 := by
    have least : (1 : UInt64) ≤ e.parser.contentLength := UInt64.le_iff_toNat_le.mpr some
    rw [bodyRead, read]
    exact UInt64.toNat_sub_of_le _ _ least
  unfold bodyIdentity
  dsimp only
  rw [read]
  split
  next last =>
    refine .inr ⟨_, _, rfl, ?_⟩
    rw [last] at left
    have zero : (0 : UInt64).toNat = 0 := rfl
    omega
  next more => exact .inl ⟨_, rfl, rfl, more, by dsimp only; omega⟩

end Exec

/-! ## A whole request -/

/-- What has been reported after `k` bytes of a request that is not over. -/
inductive Stage (k : Nat) (heads : List (UInt32 × UInt64)) : Run → Prop where
  | heading {e : Exec} (none : heads = []) (inside : e.parser.state.inLine = true ∨ e.parser.state.inHeaders = true)
      (plain : e.parser.flags.trailing = false) (count : e.parser.nread.toNat = k) (small : k ≤ 80 * 1024) :
    Stage k heads (.going e)
  | body {e : Exec} {nread : UInt32} {contentLength : UInt64} (one : heads = [(nread, contentLength)])
      (state : e.parser.state = .bodyIdentity) (missing : e.parser.contentLength ≠ 0) (known : contentLength ≠ ullongMax)
      (count : k + e.parser.contentLength.toNat = nread.toNat + contentLength.toNat) :
    Stage k heads (.going e)
  | chunks {e : Exec} (chunked : Chunked e.parser) : Stage k heads (.going e)
  | left {p : HttpParser} : Stage k heads (.left p)

/-- What has been reported when it is over with byte `k`. -/
inductive Over (k : Nat) (heads : List (UInt32 × UInt64)) : Run → Prop where
  | left {p : HttpParser} {nread : UInt32} {contentLength : UInt64} (one : heads = [(nread, contentLength)])
      (count : nread.toNat = k) : Over k heads (.left p)
  | bare {e : Exec} {nread : UInt32} (one : heads = [(nread, ullongMax)]) (count : nread.toNat = k) :
    Over k heads (.going e)
  | whole {e : Exec} {nread : UInt32} {contentLength : UInt64} (one : heads = [(nread, contentLength)])
      (known : contentLength ≠ ullongMax) (count : nread.toNat + contentLength.toNat = k) : Over k heads (.going e)
  | chunked {e : Exec} (chunked : e.parser.flags.chunked = true) : Over k heads (.going e)

/-- A step of a request: it goes on, or it is over. -/
def Goes (k : Nat) (heads : List (UInt32 × UInt64)) (out : Run × List Callback) : Prop :=
  .messageComplete ∉ out.2 ∧ Stage k (heads ++ headersOf out.2) out.1 ∨
    .messageComplete ∈ out.2 ∧ Over k (heads ++ headersOf out.2) out.1

variable {k : Nat} {heads : List (UInt32 × UInt64)} {r : Run} {out : Outcome}

/-- A step with this outcome. -/
def Outcome.run (ch : UInt8) : Outcome → Run × List Callback
  | .next t calls _ => (.going (t.advance [ch]), calls)
  | .leave p calls => (.left p, calls)

theorem Run.step_going : Run.step (.going e) ch = (e.byte ch []).run ch := by
  cases out : e.byte ch [] with
  | next t calls skipped => exact Run.step_next out
  | leave p calls => exact Run.step_leave out

/-- The request is over without its last callback. -/
theorem goes_left {p : HttpParser} : Goes k heads (.left p, []) := by
  refine .inl ⟨List.not_mem_nil, ?_⟩
  exact .left

theorem goes_fail (errno : HttpErrno) : Goes k heads ((e.fail errno).run ch) := goes_left

theorem goes_lines (lines : out.Lines p) (plain : p.flags.trailing = false) (count : p.nread.toNat = k)
    (small : k ≤ 80 * 1024) : Goes k [] (out.run ch) := by
  cases out with
  | next t calls skipped =>
    obtain ⟨⟨none, more⟩, inside, nread, trailing⟩ := lines
    exact .inl ⟨more, .heading none inside (trailing plain) (nread ▸ count) small⟩
  | leave q calls =>
    cases lines
    exact goes_left

theorem goes_heads (ends : out.Heads p) (plain : p.flags.trailing = false) (count : p.nread.toNat = k)
    (small : k ≤ 80 * 1024) : Goes k [] (out.run ch) := by
  rcases ends with headers | ⟨-, ends⟩ | ⟨trailing, -⟩
  · cases out with
    | next t calls skipped =>
      obtain ⟨rfl, inside, later⟩ := headers
      exact .inl ⟨nofun, .heading rfl (.inr inside) (later.trailing.trans plain) (later.nread ▸ count) small⟩
    | leave q calls =>
      cases headers
      exact goes_left
  · cases ends with
    | fails => exact goes_left
    | leaves => exact .inr ⟨by simp [Outcome.run], .left rfl count⟩
    | whole none =>
      refine .inr ⟨by simp [Outcome.run], ?_⟩
      have one : headersOf [.headersComplete p.nread p.contentLength, .messageComplete] = [(p.nread, p.contentLength)] := rfl
      rcases none with zero | none
      · rw [zero] at one ⊢
        exact .whole one (by decide) count
      · rw [none] at one ⊢
        exact .bare one count
    | body state same some known =>
      refine .inl ⟨by simp [Outcome.run], .body rfl state ?_ known ?_⟩
      · exact same ▸ some
      · show k + _ = _
        rw [← count]
        exact congrArg _ (congrArg UInt64.toNat same)
    | chunks state chunked =>
      refine .inl ⟨by simp [Outcome.run], .chunks ⟨chunked, .inl ?_⟩⟩
      show _ = _
      rw [Exec.advance, state]
      rfl
  · rw [plain] at trailing
    cases trailing

theorem goes_trailer (ends : out.Heads p) (chunked : p.flags.chunked = true) (trailing : p.flags.trailing = true) :
    Goes k heads (out.run ch) := by
  rcases ends with headers | ⟨plain, -⟩ | ⟨-, ends⟩
  · cases out with
    | next t calls skipped =>
      obtain ⟨rfl, inside, later⟩ := headers
      exact .inl ⟨nofun, .chunks ⟨later.chunked chunked, .inr ⟨inside, later.trailing.trans trailing⟩⟩⟩
    | leave q calls =>
      cases headers
      exact goes_left
  · rw [plain] at trailing
    cases trailing
  · cases ends with
    | fails => exact goes_left
    | completes same => exact .inr ⟨by simp [Outcome.run], .chunked (by rw [Exec.advance, same]; exact chunked)⟩

theorem goes_chunks (chunks : out.Chunks) : Goes k heads (out.run ch) := by
  cases out with
  | next t calls skipped =>
    obtain ⟨⟨-, more⟩, chunked⟩ := chunks
    exact .inl ⟨more, .chunks ⟨chunked.chunked, chunked.inside⟩⟩
  | leave q calls =>
    cases chunks
    exact goes_left

theorem Chunked.goes (chunked : Chunked e.parser) : Goes k heads ((e.switch ch []).run ch) := by
  obtain ⟨chunked, inside | ⟨inside, trailing⟩⟩ := chunked
  · exact goes_chunks (Exec.chunks_switch chunked inside)
  · exact goes_trailer (Exec.heads_switch inside) chunked trailing

theorem parsingHeader_of_inside {state : ParserState} (inside : state.inLine = true ∨ state.inHeaders = true) :
    state.parsingHeader = true := by
  cases state <;> first | rfl | exact absurd inside (by decide)

/-- **A byte of a request.** -/
theorem Stage.step (stage : Stage k heads r) (ch : UInt8) : Goes (k + 1) heads (r.step ch) := by
  cases stage with
  | left => exact goes_left
  | @heading e none inside plain count small =>
    subst none
    rw [Run.step_going, Exec.byte, if_pos (parsingHeader_of_inside inside)]
    dsimp only
    have one : (1 : UInt32).toNat = 1 := rfl
    have counted : (e.parser.nread + 1).toNat = k + 1 := by
      rw [UInt32.toNat_add]
      omega
    split
    · exact goes_fail _
    next fits =>
      have small' : k + 1 ≤ 80 * 1024 := by
        rw [UInt32.lt_iff_toNat_lt, counted] at fits
        exact Nat.le_of_not_lt fits
      rcases inside with inside | inside
      · exact goes_lines (Exec.lines_switch (e := { e with parser := { e.parser with nread := _ } }) inside) plain counted small'
      · exact goes_heads (Exec.heads_switch (e := { e with parser := { e.parser with nread := _ } }) inside) plain counted small'
  | @body e nread contentLength one state missing known count =>
    have off : e.parser.state.parsingHeader = false := by rw [state]; rfl
    have switched : e.switch ch [] = e.bodyIdentity ch [] := by rw [Exec.switch, state]
    rw [Run.step_going, Exec.byte_of_body off, switched]
    rcases Exec.bodyIdentity_cases missing with ⟨t, is, state', missing', counted⟩ | ⟨t, bytes, is, last⟩
    · rw [is]
      refine .inl ⟨List.not_mem_nil, .body (by rw [one]; rfl) (state'.trans state) missing' known ?_⟩
      show k + 1 + t.parser.contentLength.toNat = _
      omega
    · rw [is]
      refine .inr ⟨by simp [Outcome.run], .whole (by rw [one]; rfl) known ?_⟩
      omega
  | @chunks e chunked =>
    rw [Run.step_going, Exec.byte]
    split
    · dsimp only
      split
      · exact goes_fail _
      · exact Chunked.goes (e := { e with parser := { e.parser with nread := _ } }) ⟨chunked.chunked, chunked.inside⟩
    · exact chunked.goes

/-- The bytes of a request that is not over. -/
theorem Stage.feed {data : List UInt8} (stage : Stage k heads r) (more : .messageComplete ∉ (emit Run.step r data).2) :
    Stage (k + data.length) (heads ++ headersOf (emit Run.step r data).2) (emit Run.step r data).1 := by
  induction data generalizing k heads r with
  | nil =>
    rw [emit_nil]
    show Stage k (heads ++ []) r
    rw [List.append_nil]
    exact stage
  | cons ch rest ih =>
    rw [emit_cons] at more ⊢
    have next := ((stage.step ch).resolve_right fun ends => more (List.mem_append_left _ ends.1)).2
    have last := ih next fun member => more (List.mem_append_right _ member)
    rw [headersOf_append, ← List.append_assoc, List.length_cons, Nat.add_comm rest.length 1, ← Nat.add_assoc]
    exact last

theorem headersOf_finish (r : Run) : headersOf r.finish.2 = [] := by
  cases r with
  | left p => rfl
  | going e =>
    obtain ⟨p, urlMark, bodyMark⟩ := e
    cases urlMark <;> cases bodyMark <;> rfl

variable {request : List UInt8}

/-- **What has been reported about a request** when it is over. -/
theorem Complete.ended (complete : Complete request) :
    Over request.length (headersOf (HttpParser.init.execute request).2) (HttpParser.init.feed request).1 := by
  rw [HttpParser.ready_init.execute_eq, headersOf_append, headersOf_finish, List.append_nil]
  obtain ⟨front, last, rfl, before, ends⟩ := complete.last_byte
  have start : Stage 0 [] (.going ⟨HttpParser.init, none, none⟩) := .heading rfl (.inl rfl) rfl rfl (Nat.zero_le _)
  have stage := (start.feed before).step last
  have ended := (stage.resolve_left fun goes => goes.1 ends).2
  rw [HttpParser.feed, emit_append, emit_cons, emit_nil, List.append_nil, headersOf_append, List.length_append,
    List.length_singleton]
  rw [Nat.zero_add, List.nil_append] at ended
  exact ended

end Netter.Http
