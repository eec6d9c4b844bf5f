import Netter.Http.Execute

/-!
# What a byte does to the marks

The mark of a URL is set exactly in the states of a URL, and the one of a body only in a body. So no mark is
left where a message ends, and what is called back for a URL has gone through `parse_url_char`.
-/

namespace Netter.Http

/-- The states in which `body_mark` may be set. -/
def ParserState.inBody : ParserState → Bool
  | .bodyIdentity | .chunkData | .chunkDataAlmostDone => true
  | _ => false

/-- Where a message begins, or none is expected any more. -/
def ParserState.atStart : ParserState → Bool
  | .startReq | .dead => true
  | _ => false

/-- No error, and not left for another protocol. -/
def HttpParser.Running (p : HttpParser) : Prop := p.errno = .ok ∧ p.upgrade = false

structure Marks (e : Exec) : Prop where
  url : e.urlMark.isSome = e.parser.state.inUrl
  clean : ∀ bytes, e.urlMark = some bytes → bytes ≠ [] ∧ 0 ∉ bytes
  body : e.bodyMark.isSome = true → e.parser.state.inBody = true
  ok : e.parser.Running

/-- No mark is set. -/
def Bare (e : Exec) : Prop := e.urlMark = none ∧ e.bodyMark = none ∧ e.parser.Running

theorem Bare.url {e : Exec} (bare : Bare e) : e.urlMark = none := bare.1

theorem Bare.body {e : Exec} (bare : Bare e) : e.bodyMark = none := bare.2.1

theorem Bare.ok {e : Exec} (bare : Bare e) : e.parser.Running := bare.2.2

/-- A URL that is called back is not empty and has no NUL. -/
def Callback.Clean : Callback → Prop
  | .url bytes => bytes ≠ [] ∧ 0 ∉ bytes
  | _ => True

/-- A byte at the end of the buffer leaves the marks as they have to be, and at the end of a message none. -/
def Outcome.Fits (ch : UInt8) : Outcome → Prop
  | .next t calls skipped => skipped = 0 ∧ Marks (t.advance [ch]) ∧ (∀ call ∈ calls, call.Clean) ∧
      (.messageComplete ∈ calls → t.parser.state.atStart = true)
  | .leave parser calls => (∀ call ∈ calls, call.Clean) ∧ (.messageComplete ∈ calls → parser.upgrade = true)

variable {e : Exec} {p : HttpParser} {ch : UInt8}

theorem Marks.bare (marks : Marks e) (noUrl : e.parser.state.inUrl = false) (noBody : e.parser.state.inBody = false) :
    Bare e := by
  refine ⟨?_, ?_, ?_⟩
  · have none := marks.url
    rw [noUrl] at none
    simpa using none
  · by_contra some
    have inside := marks.body (Option.isSome_iff_ne_none.mpr some)
    rw [noBody] at inside
    cases inside
  · exact marks.ok

theorem Bare.marks (bare : Bare e) (off : e.parser.state.inUrl = false) : Marks e := by
  obtain ⟨url, body, ok⟩ := bare
  refine ⟨?_, fun bytes is => ?_, fun is => ?_, ok⟩
  · rw [url, off]
    rfl
  · rw [url] at is
    cases is
  · rw [body] at is
    cases is

theorem Bare.advance (bare : Bare e) (bytes : List UInt8) : e.advance bytes = e := by
  obtain ⟨parser, urlMark, bodyMark⟩ := e
  obtain ⟨rfl, rfl, -⟩ := bare
  rfl

namespace Exec

theorem fits_fail (errno : HttpErrno) : (e.fail errno).Fits ch := by
  simp [fail, Outcome.Fits]

theorem fits_next (bare : Bare e) (off : p.state.inUrl = false) (ok : p.Running) : (e.next p).Fits ch := by
  have still : Bare { e with parser := p } := ⟨bare.url, bare.body, ok⟩
  refine ⟨rfl, ?_, by simp, by simp⟩
  rw [still.advance]
  exact still.marks off

theorem fits_goTo (bare : Bare e) {state : ParserState} (off : state.inUrl = false) : (e.goTo state).Fits ch :=
  fits_next bare off bare.ok

theorem fits_strict (bare : Bare e) {expected : UInt8} {state : ParserState} (off : state.inUrl = false) :
    (e.strict expected state ch).Fits ch := by
  unfold strict
  split
  · exact fits_fail _
  · exact fits_goTo bare off

theorem newMessage_atStart (p : HttpParser) : p.newMessage.atStart = true := by
  unfold HttpParser.newMessage
  split <;> rfl

theorem inUrl_of_atStart {state : ParserState} (start : state.atStart = true) : state.inUrl = false := by
  cases state <;> first | rfl | cases start

theorem inBody_of_inUrl {state : ParserState} (inside : state.inUrl = true) : state.inBody = false := by
  cases state <;> first | rfl | cases inside

theorem fits_complete (bare : Bare e) : e.complete.Fits ch := by
  have start := newMessage_atStart e.parser
  have still : Bare { e with parser := { e.parser with state := e.parser.newMessage } } := ⟨bare.url, bare.body, bare.ok⟩
  refine ⟨rfl, ?_, by simp [Callback.Clean], fun _ => start⟩
  rw [still.advance]
  exact still.marks (inUrl_of_atStart start)

theorem toRead_nil : e.toRead [] - 1 = 0 := by
  simp only [toRead, List.length_nil]
  omega

/-! ## The request line -/

theorem fits_dead (bare : Bare e) (off : e.parser.state.inUrl = false) : (e.dead ch).Fits ch := by
  unfold dead
  split
  · exact fits_next bare off bare.ok
  · exact fits_fail _

theorem fits_startReq (bare : Bare e) (off : e.parser.state.inUrl = false) : (e.startReq ch).Fits ch := by
  unfold startReq
  split
  · exact fits_next bare off bare.ok
  · dsimp only
    split
    · exact fits_fail _
    · split
      · exact fits_fail _
      · exact fits_next bare rfl bare.ok

theorem fits_reqMethod (bare : Bare e) (off : e.parser.state.inUrl = false) : (e.reqMethod ch).Fits ch := by
  unfold reqMethod
  dsimp only
  split
  · exact fits_fail _
  · split
    · exact fits_next bare rfl bare.ok
    · split
      · exact fits_next bare off bare.ok
      · split
        · exact fits_next bare off bare.ok
        · exact fits_fail _

/-- `parse_url_char` lets no NUL through. -/
theorem parseUrlChar_zero (s : ParserState) : parseUrlChar s 0 = .dead := by
  cases s <;> decide

theorem parseServerChar_inUrl (ch : UInt8) (alive : parseServerChar ch ≠ .dead) :
    (parseServerChar ch).inUrl = true := by
  unfold parseServerChar at alive ⊢
  repeat' split
  all_goals first | rfl | simp_all

/-- `parse_url_char` stays in the URL. -/
theorem parseUrlChar_inUrl (s : ParserState) (ch : UInt8) (alive : parseUrlChar s ch ≠ .dead) :
    (parseUrlChar s ch).inUrl = true := by
  unfold parseUrlChar at alive ⊢
  split
  · simp_all
  · cases s <;> simp only at alive ⊢ <;> grind [parseServerChar_inUrl, ParserState.inUrl]

/-- A character of a URL whose mark is set. -/
theorem fits_urlChar {s : ParserState} {bytes : List UInt8} (mark : e.urlMark = some bytes) (clean : 0 ∉ bytes)
    (noBody : e.bodyMark = none) (ok : e.parser.Running) : (e.urlChar s ch).Fits ch := by
  unfold urlChar
  dsimp only
  split
  next => exact fits_fail _
  next alive =>
    have visible : ch ≠ 0 := by
      rintro rfl
      exact alive (parseUrlChar_zero s)
    refine ⟨rfl, ⟨?_, ?_, ?_, ok⟩, by simp, by simp⟩
    · simp [advance, mark, parseUrlChar_inUrl s ch alive]
    · simp [advance, mark, clean, visible.symm]
    · simp [advance, noBody]

theorem fits_reqSpacesBeforeUrl (bare : Bare e) (off : e.parser.state.inUrl = false) :
    (e.reqSpacesBeforeUrl ch).Fits ch := by
  unfold reqSpacesBeforeUrl
  split
  · exact fits_next bare off bare.ok
  · have mark : some (e.urlMark.getD []) = some [] := by rw [bare.url]; rfl
    exact fits_urlChar (e := { e with urlMark := some (e.urlMark.getD []) }) mark List.not_mem_nil bare.body bare.ok

theorem fits_reqSchema {bytes : List UInt8} (mark : e.urlMark = some bytes) (clean : 0 ∉ bytes)
    (noBody : e.bodyMark = none) (ok : e.parser.Running) : (e.reqSchema ch).Fits ch := by
  unfold reqSchema
  split
  · exact fits_fail _
  · exact fits_urlChar mark clean noBody ok

/-- At the end of the URL its mark is taken. -/
theorem fits_callUrl {bytes : List UInt8} (mark : e.urlMark = some bytes) (clean : bytes ≠ [] ∧ 0 ∉ bytes)
    (noBody : e.bodyMark = none) (ok : e.parser.Running) (off : e.parser.state.inUrl = false) : e.callUrl.Fits ch := by
  have bare : Bare { e with urlMark := none } := ⟨rfl, noBody, ok⟩
  rw [callUrl, mark]
  refine ⟨rfl, ?_, by simpa [Callback.Clean] using clean, by simp⟩
  rw [bare.advance]
  exact bare.marks off

theorem fits_reqUrl {bytes : List UInt8} (mark : e.urlMark = some bytes) (clean : bytes ≠ [] ∧ 0 ∉ bytes)
    (noBody : e.bodyMark = none) (ok : e.parser.Running) : (e.reqUrl ch).Fits ch := by
  unfold reqUrl
  split
  · exact fits_callUrl mark clean noBody ok rfl
  · split
    · refine fits_callUrl (e := { e with parser := _ }) mark clean noBody ok ?_
      dsimp only
      split <;> rfl
    · exact fits_urlChar mark clean.2 noBody ok

theorem fits_reqHttpStart (bare : Bare e) (off : e.parser.state.inUrl = false) : (e.reqHttpStart ch).Fits ch := by
  unfold reqHttpStart
  split
  · exact fits_goTo bare rfl
  · split
    · exact fits_next bare off bare.ok
    · exact fits_fail _

theorem fits_reqFirstHttpMajor (bare : Bare e) : (e.reqFirstHttpMajor ch).Fits ch := by
  unfold reqFirstHttpMajor
  split
  · exact fits_fail _
  · exact fits_next bare rfl bare.ok

theorem fits_reqHttpMajor (bare : Bare e) (off : e.parser.state.inUrl = false) : (e.reqHttpMajor ch).Fits ch := by
  unfold reqHttpMajor
  split
  · exact fits_goTo bare rfl
  · split
    · exact fits_fail _
    · dsimp only
      split
      · exact fits_fail _
      · exact fits_next bare off bare.ok

theorem fits_reqFirstHttpMinor (bare : Bare e) : (e.reqFirstHttpMinor ch).Fits ch := by
  unfold reqFirstHttpMinor
  split
  · exact fits_fail _
  · exact fits_next bare rfl bare.ok

theorem fits_reqHttpMinor (bare : Bare e) (off : e.parser.state.inUrl = false) : (e.reqHttpMinor ch).Fits ch := by
  unfold reqHttpMinor
  split
  · exact fits_goTo bare rfl
  · split
    · exact fits_goTo bare rfl
    · split
      · exact fits_fail _
      · dsimp only
        split
        · exact fits_fail _
        · exact fits_next bare off bare.ok

theorem fits_reqLineAlmostDone (bare : Bare e) : (e.reqLineAlmostDone ch).Fits ch := by
  unfold reqLineAlmostDone
  split
  · exact fits_fail _
  · exact fits_goTo bare rfl

/-! ## Headers -/

theorem fits_after {calls : List Callback} {out : Outcome} (fits : out.Fits ch) (clean : ∀ call ∈ calls, call.Clean)
    (going : .messageComplete ∉ calls) : (out.after calls).Fits ch := by
  cases out with
  | next t more skipped =>
    obtain ⟨none, marks, rest, start⟩ := fits
    refine ⟨none, marks, fun call member => ?_, fun member => ?_⟩
    · exact (List.mem_append.mp member).elim (clean call) (rest call)
    · exact start ((List.mem_append.mp member).resolve_left going)
  | leave p more =>
    obtain ⟨rest, upgrade⟩ := fits
    refine ⟨fun call member => ?_, fun member => ?_⟩
    · exact (List.mem_append.mp member).elim (clean call) (rest call)
    · exact upgrade ((List.mem_append.mp member).resolve_left going)

/-- The parser is left for another protocol here, or goes on. -/
theorem fits_headersDone (noUrl : e.urlMark = none) (noBody : e.bodyMark = none) (ok : e.parser.errno = .ok) :
    (e.headersDone ch).Fits ch := by
  unfold headersDone
  split
  next => exact fits_fail _
  next =>
    dsimp only
    split
    next upgrade =>
      refine ⟨by simp [Callback.Clean], fun _ => ?_⟩
      simpa using upgrade
    next same =>
      have bare : Bare { e with parser := { e.parser with nread := 0 } } := ⟨noUrl, noBody, ok, by simpa using same⟩
      split
      next => exact fits_next bare rfl bare.ok
      next =>
        split
        next => exact fits_complete bare
        next =>
          split
          next => exact fits_next bare rfl bare.ok
          next => exact fits_complete bare

theorem fits_headersAlmostDone (bare : Bare e) : (e.headersAlmostDone ch).Fits ch := by
  unfold headersAlmostDone
  split
  · exact fits_fail _
  · split
    · exact fits_complete bare
    · dsimp only
      refine fits_after (fits_headersDone (e := { e with parser := _ }) bare.url bare.body bare.ok.1) ?_ ?_
      · simp [Callback.Clean]
      · simp

theorem fits_headerFieldStart (bare : Bare e) : (e.headerFieldStart ch).Fits ch := by
  unfold headerFieldStart
  split
  · exact fits_goTo bare rfl
  · split
    · exact fits_headersAlmostDone (e := { e with parser := _ }) ⟨bare.url, bare.body, bare.ok⟩
    · split
      · exact fits_fail _
      · exact fits_next bare rfl bare.ok

@[simp] theorem matching_state (word : List UInt8) (found : HeaderState) (c : UInt8) :
    (p.matching word found c).state = p.state := by
  unfold HttpParser.matching
  dsimp only
  split
  · rfl
  · split <;> rfl

theorem running_matching (running : p.Running) (word : List UInt8) (found : HeaderState) (c : UInt8) :
    (p.matching word found c).Running := by
  unfold HttpParser.matching
  dsimp only
  split
  · exact running
  · split <;> exact running

theorem running_headerFieldToken (running : p.Running) (c : UInt8) : (headerFieldToken p c).Running := by
  unfold headerFieldToken
  split <;> first | exact running | exact running_matching running _ _ _

@[simp] theorem headerFieldToken_state (c : UInt8) : (headerFieldToken p c).state = p.state := by
  unfold headerFieldToken
  split <;> simp

theorem fits_headerField (bare : Bare e) (off : e.parser.state.inUrl = false) : (e.headerField ch).Fits ch := by
  unfold headerField
  split
  · apply fits_next bare _ (running_headerFieldToken bare.ok _)
    simpa using off
  · split
    · exact fits_goTo bare rfl
    · split
      · exact fits_goTo bare rfl
      · split
        · exact fits_goTo bare rfl
        · exact fits_fail _

theorem fits_headerValueStart (bare : Bare e) (off : e.parser.state.inUrl = false) : (e.headerValueStart ch).Fits ch := by
  unfold headerValueStart
  split
  · exact fits_next bare off bare.ok
  · dsimp only
    split
    · exact fits_next bare rfl bare.ok
    · split
      · exact fits_next bare rfl bare.ok
      · split
        · exact fits_next bare rfl bare.ok
        · exact fits_next bare rfl bare.ok
        · split
          · exact fits_fail _
          · exact fits_next bare rfl bare.ok
        · exact fits_next bare rfl bare.ok
        · exact fits_next bare rfl bare.ok

theorem fits_headerAlmostDone (bare : Bare e) : (e.headerAlmostDone ch).Fits ch := by
  unfold headerAlmostDone
  split
  · exact fits_fail _
  · dsimp only
    split <;> exact fits_next bare rfl bare.ok

theorem fits_headerValue (bare : Bare e) (off : e.parser.state.inUrl = false) : (e.headerValue ch).Fits ch := by
  have matched (word : List UInt8) (found : HeaderState) (c : UInt8) : (e.next (e.parser.matching word found c)).Fits ch := by
    apply fits_next bare _ (running_matching bare.ok word found c)
    simpa using off
  unfold headerValue
  dsimp only
  split
  · exact fits_goTo bare rfl
  · split
    · exact fits_headerAlmostDone (e := { e with parser := _ }) ⟨bare.url, bare.body, bare.ok⟩
    · split
      · exact fits_next bare off bare.ok
      · split
        · exact fits_next bare off bare.ok
        · split
          · exact fits_fail _
          · split
            · exact fits_next bare off bare.ok
            · exact fits_fail _
      · exact matched _ _ _
      · exact matched _ _ _
      · exact matched _ _ _
      all_goals first | exact fits_next bare off bare.ok | (split <;> exact fits_next bare off bare.ok)

theorem fits_headerValueLws (bare : Bare e) : (e.headerValueLws ch).Fits ch := by
  unfold headerValueLws
  split
  · exact fits_goTo bare rfl
  · exact fits_headerFieldStart (e := { e with parser := _ }) ⟨bare.url, bare.body, bare.ok⟩

/-! ## Bodies -/

/-- In a body. -/
theorem fits_inBody {mark : Option (List UInt8)} (noUrl : e.urlMark = none) (ok : p.Running)
    (inside : p.state.inBody = true) :
    (Outcome.next { e with parser := p, bodyMark := mark } [] 0).Fits ch := by
  refine ⟨rfl, ⟨?_, ?_, fun _ => inside, ok⟩, by simp, by simp⟩
  · have off : p.state.inUrl = false := by
      cases state : p.state <;> rw [state] at inside <;> first | rfl | cases inside
    simp [advance, noUrl, off]
  · simp [advance, noUrl]

theorem fits_bodyIdentity (noUrl : e.urlMark = none) (ok : e.parser.Running)
    (at_body : e.parser.state = .bodyIdentity) :
    (e.bodyIdentity ch []).Fits ch := by
  unfold bodyIdentity
  dsimp only
  rw [toRead_nil]
  split
  · apply fits_after
    · exact fits_complete (e := { e with parser := { e.bodyRead [] with state := .messageDone }, bodyMark := none })
        ⟨noUrl, rfl, ok⟩
    · simp [Callback.Clean]
    · simp
  · apply fits_inBody noUrl
    · exact ok
    · show e.parser.state.inBody = true
      rw [at_body]
      rfl

theorem fits_chunkData (noUrl : e.urlMark = none) (ok : e.parser.Running)
    (at_body : e.parser.state = .chunkData) : (e.chunkData []).Fits ch := by
  unfold chunkData
  dsimp only
  rw [toRead_nil]
  apply fits_inBody noUrl
  · exact ok
  · dsimp only
    split
    · rfl
    · show e.parser.state.inBody = true
      rw [at_body]
      rfl

/-- At the end of a chunk its mark is taken. -/
theorem fits_chunkDataAlmostDone (noUrl : e.urlMark = none) (ok : e.parser.Running) :
    (e.chunkDataAlmostDone ch).Fits ch := by
  unfold chunkDataAlmostDone
  split
  · exact fits_fail _
  · unfold callBody
    split
    next bytes mark =>
      have bare : Bare { e with bodyMark := none } := ⟨noUrl, rfl, ok⟩
      have off : ParserState.chunkDataDone.inUrl = false := rfl
      have called : ∀ call ∈ [Callback.body bytes], call.Clean := by simp [Callback.Clean]
      exact fits_after (fits_goTo bare off) called (by simp)
    next none =>
      have bare : Bare e := ⟨noUrl, none, ok⟩
      have off : ParserState.chunkDataDone.inUrl = false := rfl
      exact fits_goTo bare off

theorem fits_chunkSizeStart (bare : Bare e) : (e.chunkSizeStart ch).Fits ch := by
  unfold chunkSizeStart
  split
  · exact fits_fail _
  · exact fits_next bare rfl bare.ok

theorem fits_chunkSize (bare : Bare e) (off : e.parser.state.inUrl = false) : (e.chunkSize ch).Fits ch := by
  unfold chunkSize
  split
  · exact fits_goTo bare rfl
  · split
    · split
      · exact fits_goTo bare rfl
      · exact fits_fail _
    · split
      · exact fits_next bare off bare.ok
      · exact fits_fail _

theorem fits_chunkParameters (bare : Bare e) (off : e.parser.state.inUrl = false) : (e.chunkParameters ch).Fits ch := by
  unfold chunkParameters
  split
  · exact fits_goTo bare rfl
  · exact fits_next bare off bare.ok

theorem fits_chunkSizeAlmostDone (bare : Bare e) : (e.chunkSizeAlmostDone ch).Fits ch := by
  unfold chunkSizeAlmostDone
  split
  · exact fits_fail _
  · dsimp only
    split <;> exact fits_next bare rfl bare.ok

theorem fits_chunkDataDone (bare : Bare e) : (e.chunkDataDone ch).Fits ch := by
  unfold chunkDataDone
  split
  · exact fits_fail _
  · exact fits_next bare rfl bare.ok

end Exec

/-! ## The loop -/

open Exec

theorem Marks.noUrl (marks : Marks e) (off : e.parser.state.inUrl = false) : e.urlMark = none := by
  have none := marks.url
  rw [off] at none
  simpa using none

/-- In the URL its bytes are marked, and no body is. -/
theorem Marks.urlMark (marks : Marks e) (inside : e.parser.state.inUrl = true) :
    ∃ bytes, e.urlMark = some bytes ∧ (bytes ≠ [] ∧ 0 ∉ bytes) ∧ e.bodyMark = none := by
  have some := marks.url
  rw [inside] at some
  obtain ⟨bytes, mark⟩ := Option.isSome_iff_exists.mp some
  refine ⟨bytes, mark, marks.clean bytes mark, ?_⟩
  by_contra body
  have other := marks.body (Option.isSome_iff_ne_none.mpr body)
  rw [inBody_of_inUrl inside] at other
  cases other

theorem Marks.fits_reqSchema (marks : Marks e) (inside : e.parser.state.inUrl = true) : (e.reqSchema ch).Fits ch := by
  obtain ⟨bytes, mark, clean, noBody⟩ := marks.urlMark inside
  exact Exec.fits_reqSchema mark clean.2 noBody marks.ok

theorem Marks.fits_reqUrl (marks : Marks e) (inside : e.parser.state.inUrl = true) : (e.reqUrl ch).Fits ch := by
  obtain ⟨bytes, mark, clean, noBody⟩ := marks.urlMark inside
  exact Exec.fits_reqUrl mark clean noBody marks.ok

theorem Marks.fits_switch (marks : Marks e) : (e.switch ch []).Fits ch := by
  have off {s : ParserState} (is : e.parser.state = s) (out : s.inUrl = false) : e.parser.state.inUrl = false := is ▸ out
  have url {s : ParserState} (is : e.parser.state = s) (inside : s.inUrl = true) : e.parser.state.inUrl = true :=
    is ▸ inside
  have bare {s : ParserState} (is : e.parser.state = s) (out : s.inUrl = false) (outside : s.inBody = false) : Bare e :=
    marks.bare (is ▸ out) (is ▸ outside)
  have ok := marks.ok
  unfold Exec.switch
  cases at_state : e.parser.state with
  | dead => exact fits_dead (bare at_state rfl rfl) (off at_state rfl)
  | startReq => exact fits_startReq (bare at_state rfl rfl) (off at_state rfl)
  | reqMethod => exact fits_reqMethod (bare at_state rfl rfl) (off at_state rfl)
  | reqSpacesBeforeUrl => exact fits_reqSpacesBeforeUrl (bare at_state rfl rfl) (off at_state rfl)
  | reqSchema => exact marks.fits_reqSchema (url at_state rfl)
  | reqSchemaSlash => exact marks.fits_reqSchema (url at_state rfl)
  | reqSchemaSlashSlash => exact marks.fits_reqSchema (url at_state rfl)
  | reqServerStart => exact marks.fits_reqSchema (url at_state rfl)
  | reqServer => exact marks.fits_reqUrl (url at_state rfl)
  | reqServerWithAt => exact marks.fits_reqUrl (url at_state rfl)
  | reqPath => exact marks.fits_reqUrl (url at_state rfl)
  | reqQueryStringStart => exact marks.fits_reqUrl (url at_state rfl)
  | reqQueryString => exact marks.fits_reqUrl (url at_state rfl)
  | reqFragmentStart => exact marks.fits_reqUrl (url at_state rfl)
  | reqFragment => exact marks.fits_reqUrl (url at_state rfl)
  | reqHttpStart => exact fits_reqHttpStart (bare at_state rfl rfl) (off at_state rfl)
  | reqHttpH => exact fits_strict (bare at_state rfl rfl) rfl
  | reqHttpHT => exact fits_strict (bare at_state rfl rfl) rfl
  | reqHttpHTT => exact fits_strict (bare at_state rfl rfl) rfl
  | reqHttpHTTP => exact fits_strict (bare at_state rfl rfl) rfl
  | reqFirstHttpMajor => exact fits_reqFirstHttpMajor (bare at_state rfl rfl)
  | reqHttpMajor => exact fits_reqHttpMajor (bare at_state rfl rfl) (off at_state rfl)
  | reqFirstHttpMinor => exact fits_reqFirstHttpMinor (bare at_state rfl rfl)
  | reqHttpMinor => exact fits_reqHttpMinor (bare at_state rfl rfl) (off at_state rfl)
  | reqLineAlmostDone => exact fits_reqLineAlmostDone (bare at_state rfl rfl)
  | headerFieldStart => exact fits_headerFieldStart (bare at_state rfl rfl)
  | headerField => exact fits_headerField (bare at_state rfl rfl) (off at_state rfl)
  | headerValueStart => exact fits_headerValueStart (bare at_state rfl rfl) (off at_state rfl)
  | headerValue => exact fits_headerValue (bare at_state rfl rfl) (off at_state rfl)
  | headerValueLws => exact fits_headerValueLws (bare at_state rfl rfl)
  | headerAlmostDone => exact fits_headerAlmostDone (bare at_state rfl rfl)
  | chunkSizeStart => exact fits_chunkSizeStart (bare at_state rfl rfl)
  | chunkSize => exact fits_chunkSize (bare at_state rfl rfl) (off at_state rfl)
  | chunkParameters => exact fits_chunkParameters (bare at_state rfl rfl) (off at_state rfl)
  | chunkSizeAlmostDone => exact fits_chunkSizeAlmostDone (bare at_state rfl rfl)
  | headersAlmostDone => exact fits_headersAlmostDone (bare at_state rfl rfl)
  | headersDone => exact fits_headersDone (marks.noUrl (off at_state rfl)) (bare at_state rfl rfl).body ok.1
  | chunkData => exact fits_chunkData (marks.noUrl (off at_state rfl)) ok at_state
  | chunkDataAlmostDone => exact fits_chunkDataAlmostDone (marks.noUrl (off at_state rfl)) ok
  | chunkDataDone => exact fits_chunkDataDone (bare at_state rfl rfl)
  | bodyIdentity => exact fits_bodyIdentity (marks.noUrl (off at_state rfl)) ok at_state
  | messageDone => exact fits_complete (bare at_state rfl rfl)

/-- What is counted for the size of the headers does not matter. -/
theorem Marks.nread {nread : UInt32} (marks : Marks e) : Marks { e with parser := { e.parser with nread } } :=
  ⟨marks.url, marks.clean, marks.body, marks.ok⟩

/-- **A byte fits.** -/
theorem Marks.fits_byte (marks : Marks e) (ch : UInt8) : (e.byte ch []).Fits ch := by
  unfold Exec.byte
  split
  · dsimp only
    split
    · exact fits_fail _
    · exact marks.nread.fits_switch
  · exact marks.fits_switch

end Netter.Http
