import Netter.Http.Reads
import Netter.Http.Written

/-!
# The request line and the headers

What is known behind each part of a head: the state of the parser, and what the headers have said of the body so far. The name
of a header is matched against the few names that mean something; for all others the parser ends in
one of the plain states, in which a value changes nothing of the framing.
-/

namespace Netter.Http

open Lib

variable {e t : Exec} {p q : HttpParser} {ch : UInt8} {w word text : List UInt8}

/-- What decides how the body is read. -/
structure Framing where
  method : HttpMethod
  contentLength : UInt64
  chunked : Bool
  trailing : Bool
  upgrade : Bool

def HttpParser.framing (p : HttpParser) : Framing :=
  ⟨p.method, p.contentLength, p.flags.chunked, p.flags.trailing, p.flags.upgrade⟩

/-- In a state, outside of a URL and of a body. -/
structure At (state : ParserState) (f : Framing) (e : Exec) : Prop where
  state : e.parser.state = state
  framing : e.parser.framing = f
  url : e.urlMark = none
  body : e.bodyMark = none

variable {f : Framing} {state next : ParserState}

namespace Reads

/-- A byte that moves the parser, with no callback. -/
theorem move {Q : Exec → Prop} (here : At state f e) (head : state.parsingHeader = true)
    (out : e.count.switch ch [] = e.count.next q) (counted : q.nread = e.count.parser.nread) (post : Q ⟨q, none, none⟩) :
    Reads e [ch] [] Q := by
  obtain ⟨p, urlMark, bodyMark⟩ := e
  obtain ⟨rfl, -, rfl, rfl⟩ := here
  exact byte head out counted nofun post

theorem goTo (here : At state f e) (head : state.parsingHeader = true)
    (out : ∀ e : Exec, e.parser.state = state → e.switch ch [] = e.goTo next) : Reads e [ch] [] (At next f) :=
  move here head (out e.count here.state) rfl ⟨rfl, here.framing, rfl, rfl⟩

end Reads

/-! ## The request line -/

/-- The parser knows every method. -/
theorem reads_method (method : HttpMethod) : Reads ⟨.init, none, none⟩ (method.string ++ bytesOf " ") []
    (At .reqSpacesBeforeUrl ⟨method, ullongMax, false, false, false⟩) := fun _ => by
  constructor
  · intro _
    cases method <;> exact ⟨_, ⟨rfl, rfl, nofun⟩, rfl, rfl, rfl, rfl⟩
  · intro full
    apply absurd _ full
    unfold Exec.Room
    cases method <;> decide

/-- The states behind the first byte of a path. -/
def ParserState.inPath : ParserState → Bool
  | .reqPath | .reqQueryStringStart | .reqQueryString | .reqFragmentStart | .reqFragment => true
  | _ => false

theorem parseUrlChar_inPath (inside : state.inPath = true) (low : 33 ≤ ch) (high : ch ≤ 126) :
    (parseUrlChar state ch).inPath = true := by
  have visible : ¬ (ch = ' '.toUInt8 ∨ ch = CR ∨ ch = LF ∨ ch = 9 ∨ ch = 12) := by
    rintro (rfl | rfl | rfl | rfl | rfl) <;> revert low <;> decide
  have normal : isUrlChar ch = (ch != '#'.toUInt8 && ch != '?'.toUInt8) := by
    simp [isUrlChar, low, high]
  unfold parseUrlChar
  rw [if_neg visible]
  by_cases hash : ch = '#'.toUInt8
  · subst hash
    cases state <;> first | rfl | cases inside
  by_cases query : ch = '?'.toUInt8
  · subst query
    cases state <;> first | rfl | cases inside
  have plain : isUrlChar ch = true := by simp [normal, hash, query]
  cases state <;> first | (simp [plain]; done) | (simp [plain]; rfl) | cases inside

/-- In a URL, with this much of it. -/
structure InUrl (f : Framing) (w : List UInt8) (e : Exec) : Prop where
  state : e.parser.state.inPath = true
  framing : e.parser.framing = f
  url : e.urlMark = some w
  body : e.bodyMark = none

theorem parsingHeader_of_inPath (inside : state.inPath = true) : state.parsingHeader = true := by
  cases state <;> first | rfl | cases inside

theorem reads_path (here : At .reqSpacesBeforeUrl f e) (notConnect : f.method ≠ .connect)
    (absolute : ch = '/'.toUInt8 ∨ ch = '*'.toUInt8) : Reads e [ch] [] (InUrl f [ch]) := by
  obtain ⟨p, urlMark, bodyMark⟩ := e
  obtain ⟨state, rfl, rfl, rfl⟩ := here
  have out : (Exec.count ⟨p, none, none⟩).switch ch [] =
      .next ⟨{ p with nread := p.nread + 1, state := .reqPath }, some [], none⟩ [] 0 := by
    have other : ¬ (Exec.count ⟨p, none, none⟩).parser.method = .connect := notConnect
    rw [Exec.switch, Exec.count_state, state]
    simp only [Exec.reqSpacesBeforeUrl, if_neg other]
    rcases absolute with rfl | rfl <;> rfl
  exact .byte (by rw [state]; rfl) out rfl List.not_mem_nil ⟨rfl, rfl, rfl, rfl⟩

theorem reads_visible (inside : InUrl f w e) (low : 33 ≤ ch) (high : ch ≤ 126) :
    Reads e [ch] [] (InUrl f (w ++ [ch])) := by
  obtain ⟨p, urlMark, bodyMark⟩ := e
  obtain ⟨state, rfl, rfl, rfl⟩ := inside
  have still := parseUrlChar_inPath state low high
  have notSpace : ch ≠ ' '.toUInt8 := by rintro rfl; revert low; decide
  have notBreak : ¬ (ch = CR ∨ ch = LF) := by rintro (rfl | rfl) <;> revert low <;> decide
  have alive : parseUrlChar p.state ch ≠ .dead := by
    intro dead
    rw [dead] at still
    cases still
  have out : (Exec.count ⟨p, some w, none⟩).switch ch [] =
      .next ⟨{ p with nread := p.nread + 1, state := parseUrlChar p.state ch }, some w, none⟩ [] 0 := by
    have reqUrl : (Exec.count ⟨p, some w, none⟩).switch ch [] = (Exec.count ⟨p, some w, none⟩).reqUrl ch := by
      rw [Exec.switch, Exec.count_state]
      cases at_state : p.state <;> rw [at_state] at state <;> first | rfl | cases state
    rw [reqUrl, Exec.reqUrl, if_neg notSpace, if_neg notBreak, Exec.urlChar]
    exact if_neg alive
  exact .byte (parsingHeader_of_inPath state) out rfl List.not_mem_nil ⟨still, rfl, rfl, rfl⟩

theorem reads_space (inside : InUrl f w e) : Reads e (bytesOf " ") [.url w] (At .reqHttpStart f) := by
  obtain ⟨p, urlMark, bodyMark⟩ := e
  obtain ⟨state, rfl, rfl, rfl⟩ := inside
  have out : (Exec.count ⟨p, some w, none⟩).switch ' '.toUInt8 [] =
      .next ⟨{ p with nread := p.nread + 1, state := .reqHttpStart }, none, none⟩ [.url w] 0 := by
    rw [Exec.switch, Exec.count_state]
    cases at_state : p.state <;> rw [at_state] at state <;> first | rfl | cases state
  exact .byte (parsingHeader_of_inPath state) out rfl (by simp) ⟨rfl, rfl, rfl, rfl⟩

theorem reads_http (here : At .reqHttpStart f e) : Reads e (bytesOf "HTTP/") [] (At .reqFirstHttpMajor f) := by
  have text : bytesOf "HTTP/" = ['H'.toUInt8] ++ (['T'.toUInt8] ++ (['T'.toUInt8] ++ (['P'.toUInt8] ++ ['/'.toUInt8]))) := rfl
  rw [text]
  have h : Reads e ['H'.toUInt8] [] (At .reqHttpH f) := .goTo here rfl fun e state => by rw [Exec.switch, state]; rfl
  refine h.seq fun e here => ?_
  have t : Reads e ['T'.toUInt8] [] (At .reqHttpHT f) := .goTo here rfl fun e state => by rw [Exec.switch, state]; rfl
  refine t.seq fun e here => ?_
  have t : Reads e ['T'.toUInt8] [] (At .reqHttpHTT f) := .goTo here rfl fun e state => by rw [Exec.switch, state]; rfl
  refine t.seq fun e here => ?_
  have p : Reads e ['P'.toUInt8] [] (At .reqHttpHTTP f) := .goTo here rfl fun e state => by rw [Exec.switch, state]; rfl
  exact p.seq fun e here => .goTo here rfl fun e state => by rw [Exec.switch, state]; rfl

theorem reads_major (here : At .reqFirstHttpMajor f e) (number : isNum ch = true) (first : ch ≠ '0'.toUInt8) :
    Reads e [ch] [] (At .reqHttpMajor f) := by
  have inside : ¬ (ch < '1'.toUInt8 ∨ '9'.toUInt8 < ch) := by
    simp only [isNum, Bool.and_eq_true, decide_eq_true_eq] at number
    simp only [UInt8.lt_iff_toNat_lt, UInt8.le_iff_toNat_le, ne_eq, ← UInt8.toNat_inj] at number first ⊢
    change ¬ ch.toNat = 48 at first
    change 48 ≤ ch.toNat ∧ ch.toNat ≤ 57 at number
    show ¬ (ch.toNat < 49 ∨ 57 < ch.toNat)
    omega
  have out : e.count.switch ch [] = e.count.next
      { e.count.parser with httpMajor := (ch - '0'.toUInt8).toUInt16, state := .reqHttpMajor } := by
    rw [Exec.switch, Exec.count_state, here.state]
    exact if_neg inside
  exact .move here rfl out rfl ⟨rfl, here.framing, rfl, rfl⟩

theorem reads_minor (here : At .reqFirstHttpMinor f e) (number : isNum ch = true) :
    Reads e [ch] [] (At .reqHttpMinor f) := by
  have out : e.count.switch ch [] = e.count.next
      { e.count.parser with httpMinor := (ch - '0'.toUInt8).toUInt16, state := .reqHttpMinor } := by
    rw [Exec.switch, Exec.count_state, here.state]
    show Exec.reqFirstHttpMinor _ ch = _
    unfold Exec.reqFirstHttpMinor
    rw [number]
    rfl
  exact .move here rfl out rfl ⟨rfl, here.framing, rfl, rfl⟩

variable {request : Request}

/-- **The request line.** -/
theorem reads_line : Reads ⟨.init, none, none⟩ request.line [.url request.url]
    (At .headerFieldStart ⟨request.method, ullongMax, false, false, false⟩) := by
  obtain ⟨number, number', first⟩ := request.version
  rw [Request.line, ← List.append_assoc]
  refine (reads_method request.method).seq fun e here => ?_
  have url : Reads e request.url [] (InUrl ⟨request.method, ullongMax, false, false, false⟩ request.url) := by
    refine (reads_path here request.notConnect request.absolute).seq fun e inside => ?_
    refine Reads.word [request.path] inside fun w ch member _ t inside => ?_
    obtain ⟨low, high⟩ := request.visible ch member
    exact reads_visible inside low high
  refine url.seq fun e inside => ?_
  have text : bytesOf " HTTP/" = bytesOf " " ++ bytesOf "HTTP/" := rfl
  rw [text, List.append_assoc]
  refine (reads_space inside).append fun e here => ?_
  refine (reads_http here).seq fun e here => ?_
  refine (reads_major here number first).seq fun e here => ?_
  have dot : Reads e (bytesOf ".") [] (At .reqFirstHttpMinor _) :=
    .goTo here rfl fun e state => by rw [Exec.switch, state]; rfl
  refine dot.seq fun e here => ?_
  refine (reads_minor here number').seq fun e here => ?_
  have cr : Reads e [CR] [] (At .reqLineAlmostDone _) := .goTo here rfl fun e state => by rw [Exec.switch, state]; rfl
  exact cr.seq fun e here => .goTo here rfl fun e state => by rw [Exec.switch, state]; rfl

end Netter.Http
