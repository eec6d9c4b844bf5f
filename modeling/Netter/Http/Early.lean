import Netter.Http.Marks

/-!
# Before the first URL

Until a URL has been called back, nothing has: what comes before it is blanks and the method.
-/

namespace Netter.Http

variable {e : Exec} {p : HttpParser} {ch : UInt8}

/-- The states up to the end of a URL. -/
def ParserState.early : ParserState → Bool
  | .dead | .startReq | .reqMethod | .reqSpacesBeforeUrl => true
  | state => state.inUrl

/-- Nothing has been called back, unless a URL has. -/
def Outcome.Early : Outcome → Prop
  | .next t calls _ => (∃ bytes, .url bytes ∈ calls) ∨ calls = [] ∧ t.parser.state.early = true ∧ t.bodyMark = none
  | .leave _ calls => calls = []

namespace Exec

theorem early_fail (errno : HttpErrno) : (e.fail errno).Early := rfl

theorem early_next (noBody : e.bodyMark = none) (early : p.state.early = true) : (e.next p).Early :=
  .inr ⟨rfl, early, noBody⟩

theorem early_of_inUrl {state : ParserState} (inside : state.inUrl = true) : state.early = true := by
  cases state <;> first | rfl | cases inside

theorem early_urlChar {s : ParserState} (noBody : e.bodyMark = none) : (e.urlChar s ch).Early := by
  unfold urlChar
  dsimp only
  split
  next => exact early_fail _
  next alive => exact early_next noBody (early_of_inUrl (parseUrlChar_inUrl s ch alive))

theorem early_reqSchema (noBody : e.bodyMark = none) : (e.reqSchema ch).Early := by
  unfold reqSchema
  split
  · exact early_fail _
  · exact early_urlChar noBody

theorem early_callUrl (mark : e.urlMark.isSome = true) : e.callUrl.Early := by
  obtain ⟨bytes, is⟩ := Option.isSome_iff_exists.mp mark
  rw [callUrl, is]
  exact .inl ⟨bytes, List.mem_singleton_self _⟩

theorem early_reqUrl (mark : e.urlMark.isSome = true) (noBody : e.bodyMark = none) : (e.reqUrl ch).Early := by
  unfold reqUrl
  split
  · exact early_callUrl mark
  · split
    · exact early_callUrl (e := { e with parser := _ }) mark
    · exact early_urlChar noBody

theorem early_switch (marks : Marks e) (noBody : e.bodyMark = none) (early : e.parser.state.early = true) :
    (e.switch ch []).Early := by
  have mark {s : ParserState} (is : e.parser.state = s) (inside : s.inUrl = true) : e.urlMark.isSome = true := by
    rw [marks.url, is, inside]
  unfold switch
  cases at_state : e.parser.state with
  | dead =>
    simp only [dead]
    split
    · exact early_next noBody (by rw [at_state]; rfl)
    · exact early_fail _
  | startReq =>
    simp only [startReq]
    split
    · exact early_next noBody (by rw [at_state]; rfl)
    · split
      · exact early_fail _
      · split
        · exact early_fail _
        · exact early_next noBody rfl
  | reqMethod =>
    simp only [reqMethod]
    split
    · exact early_fail _
    · split
      · exact early_next noBody rfl
      · split
        · exact early_next noBody (by dsimp only; rw [at_state]; rfl)
        · split
          · exact early_next noBody (by dsimp only; rw [at_state]; rfl)
          · exact early_fail _
  | reqSpacesBeforeUrl =>
    simp only [reqSpacesBeforeUrl]
    split
    · exact early_next noBody (by rw [at_state]; rfl)
    · exact early_urlChar (e := { e with urlMark := _ }) noBody
  | reqSchema => exact early_reqSchema noBody
  | reqSchemaSlash => exact early_reqSchema noBody
  | reqSchemaSlashSlash => exact early_reqSchema noBody
  | reqServerStart => exact early_reqSchema noBody
  | reqServer => exact early_reqUrl (mark at_state rfl) noBody
  | reqServerWithAt => exact early_reqUrl (mark at_state rfl) noBody
  | reqPath => exact early_reqUrl (mark at_state rfl) noBody
  | reqQueryStringStart => exact early_reqUrl (mark at_state rfl) noBody
  | reqQueryString => exact early_reqUrl (mark at_state rfl) noBody
  | reqFragmentStart => exact early_reqUrl (mark at_state rfl) noBody
  | reqFragment => exact early_reqUrl (mark at_state rfl) noBody
  | _ =>
    rw [at_state] at early
    cases early

theorem early_byte (ch : UInt8) (marks : Marks e) (noBody : e.bodyMark = none)
    (early : e.parser.state.early = true) :
    (e.byte ch []).Early := by
  unfold byte
  split
  · dsimp only
    split
    · exact early_fail _
    · exact early_switch marks.nread noBody early
  · exact early_switch marks noBody early

end Exec

end Netter.Http
