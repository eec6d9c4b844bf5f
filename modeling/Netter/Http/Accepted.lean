import Netter.Http.Conn
import Netter.Http.Front

/-!
# What is accepted is well formed

When the parser calls back that a head is complete, all that it has read is a head of the grammar, and what it has called back
before is the URL in it. The other direction, for requests that follow the protocol, is the round trip.
-/

namespace Netter.Http

open Lib Exec

variable {e : Exec} {p : HttpParser} {ch : UInt8} {method : HttpMethod} {text url tail : List UInt8} {calls : List Callback}

/-! ## The whole head -/

/-- What has been read, and called back, before a head is complete. -/
inductive Front (e : Exec) : List UInt8 → List Callback → Prop where
  | start {breaks : List UInt8} (state : e.parser.state = .startReq) (noMark : e.urlMark = none)
      (empty : ∀ ch ∈ breaks, inLine ch = false) : Front e breaks []
  | method {breaks : List UInt8} (state : e.parser.state = .reqMethod) (noMark : e.urlMark = none)
      (first : e.parser.flags.trailing = false) (empty : ∀ ch ∈ breaks, inLine ch = false)
      (inside : e.parser.index.toNat ≤ e.parser.method.string.length) :
    Front e (breaks ++ e.parser.method.string.take e.parser.index.toNat) []
  | spaces {before : List UInt8} (state : e.parser.state = .reqSpacesBeforeUrl) (noMark : e.urlMark = none)
      (first : e.parser.flags.trailing = false) (is : BeforeUrl e.parser.method before) : Front e before []
  | url {before url : List UInt8} (inside : UrlAt e.parser.method e.parser.state url) (mark : e.urlMark = some url)
      (first : e.parser.flags.trailing = false) (is : BeforeUrl e.parser.method before)
      (visible : ∀ ch ∈ url, isVisible ch = true) : Front e (before ++ url) []
  | behind {method : HttpMethod} {before url tail : List UInt8} (is : BeforeUrl method before) (url_is : Url method url)
      (here : Behind tail e) : Front e (before ++ (url ++ tail)) [.url url]

/-- A head has been read and called back. -/
inductive Accepted : List UInt8 → List Callback → Prop where
  | mk {method : HttpMethod} {url head behind : List UInt8} {length : UInt64} {more : List Callback} (is : Head method url head)
      (small : head.length ≤ httpMaxHeaderSize.toNat) :
    Accepted (head ++ behind) (.url url :: .headersComplete (UInt32.ofNat head.length) length :: more)

theorem Accepted.append (accepted : Accepted text calls) (rest : List UInt8) (more : List Callback) :
    Accepted (text ++ rest) (calls ++ more) := by
  obtain ⟨is, small⟩ := accepted
  rw [List.append_assoc, List.cons_append, List.cons_append]
  exact .mk is small

/-- Another character of the head is read, or it is the last one, or it is refused. -/
def Outcome.Goes (e : Exec) (text : List UInt8) (ch : UInt8) (calls : List Callback) : Outcome → Prop
  | .next t more _ => Front (t.advance [ch]) (text ++ [ch]) (calls ++ more) ∧ t.parser.nread = e.parser.nread ∨
      Accepted (text ++ [ch]) (calls ++ more)
  | .leave _ more => more = [] ∨ Accepted (text ++ [ch]) (calls ++ more)

theorem map_noMark {mark : Option (List UInt8)} (noMark : mark = none) (bytes : List UInt8) : mark.map (· ++ bytes) = none := by
  rw [noMark]
  rfl

theorem front_startReq {breaks : List UInt8} (state : e.parser.state = .startReq) (noMark : e.urlMark = none)
    (empty : ∀ ch ∈ breaks, inLine ch = false) : (e.startReq ch).Goes e breaks ch [] := by
  unfold Exec.startReq
  split
  next is =>
    have lineBreak : inLine ch = false := by
      rcases is with rfl | rfl
      · rfl
      · rfl
    exact .inl ⟨.start state (map_noMark noMark _) (forall_snoc empty lineBreak), rfl⟩
  next =>
    dsimp only
    split
    · exact .inl rfl
    · split
      · exact .inl rfl
      next method is =>
        refine .inl ⟨?_, rfl⟩
        rw [← firstMethod_string is]
        have long : 1 ≤ method.string.length := by cases method <;> decide
        exact .method rfl (map_noMark noMark _) rfl empty long

theorem front_reqMethod {breaks : List UInt8} (state : e.parser.state = .reqMethod) (noMark : e.urlMark = none)
    (first : e.parser.flags.trailing = false) (empty : ∀ ch ∈ breaks, inLine ch = false)
    (inside : e.parser.index.toNat ≤ e.parser.method.string.length) :
    (e.reqMethod ch).Goes e (breaks ++ e.parser.method.string.take e.parser.index.toNat) ch [] := by
  have small := length_string_le e.parser.method
  have one : (e.parser.index + 1).toNat = e.parser.index.toNat + 1 := by
    rw [UInt8.toNat_add]
    exact Nat.mod_eq_of_lt (by show e.parser.index.toNat + 1 < 256; omega)
  unfold Exec.reqMethod
  dsimp only
  split
  · exact .inl rfl
  next some =>
    split
    next both =>
      have whole := length_le_of_getD both.2
      rw [List.take_of_length_le whole, both.1]
      have before : BeforeUrl e.parser.method _ := .mk breaks [] empty nofun
      rw [← List.append_assoc] at before
      exact .inl ⟨.spaces rfl (map_noMark noMark _) first before, rfl⟩
    next =>
      split
      next is =>
        obtain ⟨longer, taken⟩ := take_of_getD some is
        refine .inl ⟨?_, rfl⟩
        rw [List.append_assoc, ← taken, ← one]
        exact .method state (map_noMark noMark _) first empty (one ▸ longer)
      next =>
        split
        next method changed =>
          obtain ⟨longer, taken⟩ := otherMethod_string changed
          refine .inl ⟨?_, rfl⟩
          rw [List.append_assoc, ← taken, ← one]
          exact .method state (map_noMark noMark _) first empty (one ▸ longer)
        next => exact .inl rfl

/-- A character of the URL. -/
theorem front_urlChar {before : List UInt8} {s : ParserState} (mark : e.urlMark = some url)
    (first : e.parser.flags.trailing = false) (is : BeforeUrl e.parser.method before)
    (visible : ∀ ch ∈ url, isVisible ch = true)
    (next : parseUrlChar s ch ≠ .dead → UrlAt e.parser.method (parseUrlChar s ch) (url ++ [ch])) :
    (e.urlChar s ch).Goes e (before ++ url) ch [] := by
  unfold Exec.urlChar
  dsimp only
  split
  · exact .inl rfl
  next alive =>
    refine .inl ⟨?_, rfl⟩
    rw [List.append_assoc]
    have longer : e.urlMark.map (· ++ [ch]) = some (url ++ [ch]) := by
      rw [mark]
      rfl
    exact .url (next alive) longer first is (forall_snoc visible (isVisible_of_parseUrlChar alive))

theorem front_reqSpacesBeforeUrl {before : List UInt8} (state : e.parser.state = .reqSpacesBeforeUrl)
    (noMark : e.urlMark = none) (first : e.parser.flags.trailing = false) (is : BeforeUrl e.parser.method before) :
    (e.reqSpacesBeforeUrl ch).Goes e before ch [] := by
  unfold Exec.reqSpacesBeforeUrl
  split
  next space => exact .inl ⟨.spaces state (map_noMark noMark _) first (space ▸ is.snoc), rfl⟩
  next =>
    have start : (if e.parser.method = HttpMethod.connect then ParserState.reqServerStart else .reqSpacesBeforeUrl) =
      urlStart e.parser.method := rfl
    dsimp only
    rw [start]
    have goes : (Exec.urlChar { e with urlMark := some (e.urlMark.getD []) } (urlStart e.parser.method) ch).Goes
        { e with urlMark := some (e.urlMark.getD []) } (before ++ []) ch [] :=
      front_urlChar (by rw [noMark]; rfl) first is nofun UrlAt.first
    rw [List.append_nil] at goes
    exact goes

theorem front_reqSchema {before : List UInt8} (inside : UrlAt e.parser.method e.parser.state url) (mark : e.urlMark = some url)
    (first : e.parser.flags.trailing = false) (is : BeforeUrl e.parser.method before)
    (visible : ∀ ch ∈ url, isVisible ch = true) : (e.reqSchema ch).Goes e (before ++ url) ch [] := by
  unfold Exec.reqSchema
  split
  · exact .inl rfl
  · exact front_urlChar mark first is visible inside.next

theorem UrlAt.form (front : UrlAt method state url) (target : state.inTarget = true) : UrlForm method url := by
  cases front with
  | target inside form => exact form
  | _ => cases target

/-- A URL that has come to its end. -/
theorem front_callUrl {before : List UInt8} (mark : e.urlMark = some url) (first : e.parser.flags.trailing = false)
    (is : BeforeUrl method before) (url_is : Url method url) (tail : Tail p.state [ch])
    (trailing : p.flags.trailing = e.parser.flags.trailing) (nread : p.nread = e.parser.nread) :
    (Exec.callUrl { e with parser := p }).Goes e (before ++ url) ch [] := by
  unfold Exec.callUrl
  dsimp only
  rw [mark]
  refine .inl ⟨?_, nread⟩
  rw [List.append_assoc]
  exact .behind is url_is ⟨tail, rfl, trailing.trans first⟩

theorem front_reqUrl {before : List UInt8} (inside : UrlAt e.parser.method e.parser.state url)
    (target : e.parser.state.inTarget = true) (mark : e.urlMark = some url)
    (first : e.parser.flags.trailing = false) (is : BeforeUrl e.parser.method before)
    (visible : ∀ ch ∈ url, isVisible ch = true) : (e.reqUrl ch).Goes e (before ++ url) ch [] := by
  have whole : Url e.parser.method url := ⟨inside.form target, visible⟩
  unfold Exec.reqUrl
  split
  next space =>
    have word : Tail .reqHttpStart ([ch] ++ []) := .word ⟨by simp, by simpa using space⟩ rfl
    exact front_callUrl mark first is whole word rfl rfl
  next =>
    split
    next ends =>
      refine front_callUrl mark first is whole ?_ rfl rfl
      dsimp only
      split
      next cr => exact cr ▸ .lineEnd .simple
      next cr => exact .start (.request .simple (.inr (by rw [ends.resolve_left cr])))
    next => exact front_urlChar mark first is visible inside.next

/-- From the URL on. -/
theorem front_behind {before : List UInt8} {out : Outcome} (is : BeforeUrl method before) (url_is : Url method url)
    (counted : e.parser.nread.toNat = (before ++ (url ++ tail)).length + 1)
    (small : (before ++ (url ++ tail)).length + 1 ≤ httpMaxHeaderSize.toNat) (reaches : out.Reaches e (tail ++ [ch])) :
    out.Goes e (before ++ (url ++ tail)) ch [.url url] := by
  have whole : (before ++ (url ++ tail)) ++ [ch] = before ++ (url ++ (tail ++ [ch])) := by simp
  have accepted (ended : Ended (tail ++ [ch])) (length : UInt64) (more : List Callback) :
      Accepted ((before ++ (url ++ tail)) ++ [ch]) ([.url url] ++ .headersComplete e.parser.nread length :: more) := by
    have head : Head method url (before ++ (url ++ (tail ++ [ch]))) := by
      generalize tail ++ [ch] = text at ended
      obtain ⟨all, ends⟩ := ended
      exact .mk is url_is all ends
    have count : e.parser.nread = UInt32.ofNat ((before ++ (url ++ (tail ++ [ch]))).length) := by
      rw [← whole, List.length_append, List.length_singleton, ← counted, UInt32.ofNat_toNat]
    have inside : (before ++ (url ++ (tail ++ [ch]))).length ≤ httpMaxHeaderSize.toNat := by
      rwa [← whole, List.length_append, List.length_singleton]
    have done := @Accepted.mk method url _ [] length more head inside
    rwa [List.append_nil, ← count, ← whole] at done
  cases out with
  | next t calls skipped =>
    rcases reaches with ⟨rfl, here, nread⟩ | ⟨ended, length, more, rfl⟩
    · refine .inl ⟨?_, nread⟩
      rw [whole]
      exact .behind is url_is ⟨here.tail, map_noMark here.noMark _, here.first⟩
    · exact .inr (accepted ended length more)
  | leave p calls =>
    rcases reaches with none | ⟨ended, length, more, rfl⟩
    · exact .inl none
    · exact .inr (accepted ended length more)

theorem Front.switch (front : Front e text calls) (counted : e.parser.nread.toNat = text.length + 1)
    (small : text.length + 1 ≤ httpMaxHeaderSize.toNat) : (e.switch ch []).Goes e text ch calls := by
  cases front with
  | start state noMark empty =>
    rw [Exec.switch, state]
    exact front_startReq state noMark empty
  | method state noMark first empty inside =>
    rw [Exec.switch, state]
    exact front_reqMethod state noMark first empty inside
  | spaces state noMark first is =>
    rw [Exec.switch, state]
    exact front_reqSpacesBeforeUrl state noMark first is
  | url inside mark first is visible =>
    have schema : (e.reqSchema ch).Goes e _ ch [] := front_reqSchema inside mark first is visible
    have target (there : e.parser.state.inTarget = true) : (e.reqUrl ch).Goes e _ ch [] :=
      front_reqUrl inside there mark first is visible
    cases at_state : e.parser.state with
    | reqSchema => rwa [Exec.switch, at_state]
    | reqSchemaSlash => rwa [Exec.switch, at_state]
    | reqSchemaSlashSlash => rwa [Exec.switch, at_state]
    | reqServerStart => rwa [Exec.switch, at_state]
    | _ =>
      rw [at_state] at inside target
      cases inside with
      | target there form =>
        rw [Exec.switch, at_state]
        first | exact target rfl | cases there
  | behind is url_is here =>
    refine front_behind is url_is counted small ?_
    cases at_state : e.parser.state with
    | reqHttpStart => rw [Exec.switch, at_state]; exact here.reqHttpStart at_state
    | reqHttpH => rw [Exec.switch, at_state]; exact here.strict (by rw [at_state]; rfl) rfl
    | reqHttpHT => rw [Exec.switch, at_state]; exact here.strict (by rw [at_state]; rfl) rfl
    | reqHttpHTT => rw [Exec.switch, at_state]; exact here.strict (by rw [at_state]; rfl) rfl
    | reqHttpHTTP => rw [Exec.switch, at_state]; exact here.strict (by rw [at_state]; rfl) rfl
    | reqFirstHttpMajor => rw [Exec.switch, at_state]; exact here.reqFirstHttpMajor at_state
    | reqHttpMajor => rw [Exec.switch, at_state]; exact here.reqHttpMajor at_state
    | reqFirstHttpMinor => rw [Exec.switch, at_state]; exact here.reqFirstHttpMinor at_state
    | reqHttpMinor => rw [Exec.switch, at_state]; exact here.reqHttpMinor at_state
    | reqLineAlmostDone => rw [Exec.switch, at_state]; exact here.reqLineAlmostDone at_state
    | headerFieldStart =>
      have lines := here.tail
      rw [at_state] at lines
      rw [Exec.switch, at_state]
      cases lines with
      | word blank is => cases is
      | start all => exact here.headerFieldStart all
    | headerField => rw [Exec.switch, at_state]; exact here.headerField at_state
    | headerValueStart => rw [Exec.switch, at_state]; exact here.headerValueStart at_state
    | headerValue => rw [Exec.switch, at_state]; exact here.headerValue at_state
    | headerValueLws => rw [Exec.switch, at_state]; exact here.headerValueLws at_state
    | headerAlmostDone => rw [Exec.switch, at_state]; exact here.lineEnd at_state
    | headersAlmostDone => rw [Exec.switch, at_state]; exact here.lastLine at_state
    | _ =>
      have lines := here.tail
      rw [at_state] at lines
      cases lines with
      | word blank is => cases is

theorem Front.count (front : Front e text calls) : Front e.count text calls := by
  cases front with
  | start state noMark empty => exact .start state noMark empty
  | method state noMark first empty inside => exact Front.method (e := e.count) state noMark first empty inside
  | spaces state noMark first is => exact .spaces state noMark first is
  | url inside mark first is visible => exact .url inside mark first is visible
  | behind is url_is here => exact .behind is url_is ⟨here.tail, here.noMark, here.first⟩

theorem Front.parsingHeader (front : Front e text calls) : e.parser.state.parsingHeader = true := by
  cases front with
  | start state | method state | spaces state =>
    rw [state]
    rfl
  | url inside mark first is visible =>
    generalize e.parser.state = state at inside
    cases inside with
    | target there form => cases state <;> first | rfl | cases there
    | _ => rfl
  | behind is url_is here =>
    have tail := here.tail
    generalize e.parser.state = state at tail
    cases tail with
    | word blank is => cases state <;> first | rfl | cases is
    | _ => rfl

theorem Front.quiet (front : Front e text calls) : ∀ call ∈ calls, ∃ bytes, call = .url bytes := by
  cases front with
  | behind is url_is here =>
    intro call member
    exact ⟨_, List.mem_singleton.mp member⟩
  | _ => exact nofun

/-- Nothing but a URL has been called back, or all is well. -/
def Run.Goes (r : Run) (text : List UInt8) (calls : List Callback) : Prop :=
  Accepted text calls ∨
    match r with
    | .going e => Front e text calls ∧ e.parser.nread.toNat = text.length ∧ e.Room 0
    | .left _ => ∀ call ∈ calls, ∃ bytes, call = .url bytes

theorem Run.Goes.step {r : Run} (goes : r.Goes text calls) (ch : UInt8) :
    (r.step ch).1.Goes (text ++ [ch]) (calls ++ (r.step ch).2) := by
  rcases goes with accepted | goes
  · exact .inl (accepted.append [ch] _)
  cases r with
  | left p =>
    right
    show ∀ call ∈ calls ++ [], _
    rw [List.append_nil]
    exact goes
  | going e =>
    obtain ⟨front, counted, room⟩ := goes
    by_cases more : e.Room 1
    · have byte : e.byte ch [] = e.count.switch ch [] := Exec.byte_of_room front.parsingHeader more []
      have count : e.count.parser.nread.toNat = text.length + 1 := (Exec.count_nread room).trans (by rw [counted])
      have goes : (e.count.switch ch []).Goes e.count text ch calls := front.count.switch count (counted ▸ more)
      cases out : e.count.switch ch [] with
      | next t calls skipped =>
        rw [out] at goes
        rw [Run.step_next (byte.trans out)]
        rcases goes with ⟨front, nread⟩ | accepted
        · right
          have length : t.parser.nread.toNat = text.length + 1 := by rw [nread, count]
          refine ⟨front, by rw [List.length_append]; exact length, ?_⟩
          show t.parser.nread.toNat + 0 ≤ _
          rw [length, ← counted]
          exact more
        · exact .inl accepted
      | leave p calls =>
        rw [out] at goes
        rw [Run.step_leave (byte.trans out)]
        rcases goes with rfl | accepted
        · right
          show ∀ call ∈ _ ++ [], _
          rw [List.append_nil]
          exact front.quiet
        · exact .inl accepted
    · rw [Run.step_leave (Exec.byte_of_full ch front.parsingHeader room more [])]
      right
      show ∀ call ∈ calls ++ [], _
      rw [List.append_nil]
      exact front.quiet

/-! ## What is accepted -/

/-- **The head of a message that has been read is well formed**, and its URL is what was called back. -/
theorem accepted_of_complete {data : List UInt8} (done : .messageComplete ∈ (HttpParser.init.execute data).2) :
    Accepted data (HttpParser.init.execute data).2 := by
  have start : Run.Goes (.going ⟨.init, none, none⟩) [] [] := .inr ⟨.start rfl rfl nofun, rfl, Nat.zero_le _⟩
  have goes := emit_inv_along (I := Run.Goes) (fun r text calls ch goes => goes.step ch) start data
  rw [HttpParser.ready_init.complete_iff] at done
  rw [HttpParser.ready_init.execute_eq]
  rcases goes with accepted | quiet
  · have longer := accepted.append [] (HttpParser.init.feed data).1.finish.2
    rwa [List.append_nil] at longer
  · have url : ∃ bytes, Callback.messageComplete = .url bytes := by
      cases ran : (emit Run.step (.going ⟨.init, none, none⟩) data).1 with
      | going e =>
        rw [ran] at quiet
        exact quiet.1.quiet _ done
      | left p =>
        rw [ran] at quiet
        exact quiet _ done
    obtain ⟨bytes, is⟩ := url
    cases is

/-- **Only what is well formed is served.** When `OnRead` calls a handler or replies that there is none, what has been received begins
with a head of the grammar that is not too large, and the URL of the request begins with the one in it. -/
theorem onRead_accepted {handlers : HttpHandlerMap} {w : HttpParserWrapper} {buf : List UInt8} {served : Served}
    (is : HttpConn.onRead handlers w buf = some served) : ∃ method url head behind, buf = head ++ behind ∧
      Head method url head ∧ head.length ≤ httpMaxHeaderSize.toNat ∧ ∀ handler v, served = .handler handler v → url <+: v.url := by
  have done : .messageComplete ∈ (HttpParser.init.execute buf).2 := by
    rw [← isSome_onRead handlers w, is]
    rfl
  have accepted := accepted_of_complete done
  have first (handler : HttpHandler) (v : HttpParserWrapper) (calls : served = .handler handler v) :
      v.url = urlOf (HttpParser.init.execute buf).2 := by
    subst calls
    unfold HttpConn.onRead at is
    dsimp only at is
    split at is
    · split at is
      · cases is
        exact parse_url w buf
      · cases is
    · cases is
  generalize (HttpParser.init.execute buf).2 = calls at accepted first
  obtain ⟨head, small⟩ := accepted
  refine ⟨_, _, _, _, rfl, head, small, fun handler v served => ?_⟩
  rw [first handler v served]
  exact List.prefix_append _ _

theorem onRead_accepted_get : ∃ method url head behind, bytesOf "GET /a HTTP/1.1\r\n\r\n" = head ++ behind ∧
    Head method url head ∧ head.length ≤ httpMaxHeaderSize.toNat ∧
      ∀ handler v, Served.handler 7 ⟨true, 18, bytesOf "/a", []⟩ = .handler handler v → url <+: v.url := by
  have is : HttpConn.onRead [(bytesOf "/a", 7)] ⟨false, 0, [], []⟩ (bytesOf "GET /a HTTP/1.1\r\n\r\n") =
      some (.handler 7 ⟨true, 18, bytesOf "/a", []⟩) := by decide +kernel
  exact onRead_accepted is

end Netter.Http
