import Mathlib.Algebra.Group.Int.Defs
import Mathlib.Algebra.GroupWithZero.Nat
import Netter.Http.Conn
import Netter.Http.Stages

/-!
# `GetTotalLength`

`OnHeadersComplete` adds the low 32 bits of `content_length` to the bytes of the headers. Without a
`Content-Length` these are all ones, and the sum is one less than the length of the request.
-/

namespace Netter.Http

/-- What `on_headers_complete` has found last. -/
def lastHeaders (calls : List Callback) : Option (UInt32 × UInt64) := (headersOf calls).getLast?

/-- The callbacks for what is behind a request: none, when the parser has been left for another protocol. -/
def callsBehind (request behind : List UInt8) : List Callback :=
  let p := (HttpParser.init.execute request).1
  if p.upgrade then [] else (p.execute behind).2

/-- The request's `Content-Length`, or none at all if there is no body in another protocol, says how much comes behind
the headers. -/
def Declared (request : List UInt8) : Prop :=
  ∃ nread contentLength, lastHeaders (HttpParser.init.execute request).2 = some (nread, contentLength) ∧
    if (HttpParser.init.execute request).1.upgrade then contentLength.toUInt32 = 0 else contentLength ≠ ullongMax

/-- The length of the request is known, and no other request in the buffer has its headers complete; or one has, and
is as long by chance. -/
def LengthKnown (request behind : List UInt8) : Prop :=
  match lastHeaders (callsBehind request behind) with
  | none => Declared request
  | some (nread, contentLength) => nread + contentLength.toUInt32 = UInt32.ofNat request.length

variable {request behind : List UInt8} {calls more : List Callback}

theorem lastHeaders_append : lastHeaders (calls ++ more) = (lastHeaders more).or (lastHeaders calls) := by
  rw [lastHeaders, headersOf_append, List.getLast?_append]
  rfl

theorem foldl_totalLength (w : HttpParserWrapper) (calls : List Callback) :
    (calls.foldl HttpParserWrapper.call w).totalLength = match lastHeaders calls with
      | none => w.totalLength
      | some (nread, contentLength) => nread + contentLength.toUInt32 := by
  induction calls generalizing w with
  | nil => rfl
  | cons call calls ih =>
    rw [List.foldl_cons, ih, ← List.singleton_append, lastHeaders_append]
    cases lastHeaders calls with
    | some last => rfl
    | none => cases call <;> rfl

theorem parse_totalLength (w : HttpParserWrapper) (buf : List UInt8) :
    (w.parseHttpContent buf).totalLength = match lastHeaders (HttpParser.init.execute buf).2 with
      | none => 0
      | some (nread, contentLength) => nread + contentLength.toUInt32 :=
  foldl_totalLength _ _

theorem Complete.calls_append (complete : Complete request) (behind : List UInt8) :
    (HttpParser.init.execute (request ++ behind)).2 =
      (HttpParser.init.execute request).2 ++ callsBehind request behind := by
  unfold callsBehind
  dsimp only
  rcases complete.execute_append behind with ⟨upgrade, same⟩ | ⟨going, -, joined⟩
  · rw [same, upgrade]
    exact (List.append_nil _).symm
  · rw [joined, going]
    rfl

theorem declared_iff {nread : UInt32} {contentLength : UInt64}
    (last : lastHeaders (HttpParser.init.execute request).2 = some (nread, contentLength)) :
    Declared request ↔
      if (HttpParser.init.execute request).1.upgrade then contentLength.toUInt32 = 0 else contentLength ≠ ullongMax := by
  constructor
  · rintro ⟨nread', contentLength', is, declared⟩
    cases last.symm.trans is
    exact declared
  · exact fun declared => ⟨nread, contentLength, last, declared⟩

/-- The sum that is reported, in numbers. -/
theorem toNat_total (nread : UInt32) (contentLength : UInt64) :
    (nread + contentLength.toUInt32).toNat = (nread.toNat + contentLength.toNat) % 2 ^ 32 := by
  rw [UInt32.toNat_add, UInt64.toNat_toUInt32, Nat.add_mod_mod]

/-- The length of a request by what has been reported about it alone. -/
theorem Complete.total_iff (complete : Complete request)
    (plain : (HttpParser.init.execute request).1.flags.chunked = false) (size : request.length < 2 ^ 32) :
    ∃ nread contentLength, lastHeaders (HttpParser.init.execute request).2 = some (nread, contentLength) ∧
      ((nread + contentLength.toUInt32).toNat = request.length ↔ Declared request) := by
  have ended := complete.ended
  have rested := complete.rested
  have ran : (HttpParser.init.execute request).1 = (HttpParser.init.feed request).1.finish.1 := by
    rw [HttpParser.ready_init.execute_eq]
  have reported {nread : UInt32} {contentLength : UInt64}
      (one : headersOf (HttpParser.init.execute request).2 = [(nread, contentLength)]) :
      lastHeaders (HttpParser.init.execute request).2 = some (nread, contentLength) := by
    rw [lastHeaders, one]
    rfl
  generalize (HttpParser.init.feed request).1 = r at ended rested ran
  cases ended with
  | @left p nread contentLength one count =>
    have upgrade : (HttpParser.init.execute request).1.upgrade = true := by
      rw [ran]
      exact rested
    refine ⟨nread, contentLength, reported one, ?_⟩
    rw [declared_iff (reported one), if_pos upgrade, ← UInt32.toNat_inj, UInt32.toNat_add]
    have bound := contentLength.toUInt32.toNat_lt
    have zero : (0 : UInt32).toNat = 0 := rfl
    omega
  | @bare e nread one count =>
    have going : ¬ (HttpParser.init.execute request).1.upgrade = true := by
      rw [ran]
      exact Bool.eq_false_iff.mp rested.1.ok.2
    refine ⟨nread, ullongMax, reported one, ?_⟩
    rw [declared_iff (reported one), if_neg going, toNat_total]
    have ones : ullongMax.toNat = 2 ^ 64 - 1 := rfl
    refine iff_of_false ?_ (not_not.mpr rfl)
    omega
  | @whole e nread contentLength one known count =>
    have going : ¬ (HttpParser.init.execute request).1.upgrade = true := by
      rw [ran]
      exact Bool.eq_false_iff.mp rested.1.ok.2
    refine ⟨nread, contentLength, reported one, ?_⟩
    rw [declared_iff (reported one), if_neg going, toNat_total, count, Nat.mod_eq_of_lt size]
    exact iff_of_true rfl known
  | @chunked e chunked =>
    rw [ran] at plain
    have plain : e.parser.flags.chunked = false := plain
    rw [chunked] at plain
    cases plain

/-- **The reported length is the real one** if and only if the length of the request is known. -/
theorem total_length_iff (complete : Complete request)
    (plain : (HttpParser.init.execute request).1.flags.chunked = false) (size : request.length < 2 ^ 32)
    (w : HttpParserWrapper) (behind : List UInt8) :
    (w.parseHttpContent (request ++ behind)).totalLength.toNat = request.length ↔ LengthKnown request behind := by
  obtain ⟨nread, contentLength, alone, known⟩ := complete.total_iff plain size
  rw [parse_totalLength, complete.calls_append, lastHeaders_append, alone]
  unfold LengthKnown
  cases lastHeaders (callsBehind request behind) with
  | none => exact known
  | some last =>
    show (last.1 + last.2.toUInt32).toNat = request.length ↔ last.1 + last.2.toUInt32 = UInt32.ofNat request.length
    rw [← UInt32.toNat_inj, UInt32.toNat_ofNat_of_lt' size]

/-- A body of two bytes, and a blank line behind it. -/
theorem total_length_post :
    ((⟨false, 0, [], []⟩ : HttpParserWrapper).parseHttpContent
      (bytesOf "POST / HTTP/1.1\r\nContent-Length:2\r\n\r\nhi" ++ bytesOf "\r\n")).totalLength.toNat =
        (bytesOf "POST / HTTP/1.1\r\nContent-Length:2\r\n\r\nhi").length := by
  have complete : Complete (bytesOf "POST / HTTP/1.1\r\nContent-Length:2\r\n\r\nhi") :=
    .of_take (by decide +kernel) (by decide +kernel)
  refine (total_length_iff complete (by decide +kernel) (by decide +kernel) _ (bytesOf "\r\n")).mpr ?_
  have nothing :
      lastHeaders (callsBehind (bytesOf "POST / HTTP/1.1\r\nContent-Length:2\r\n\r\nhi") (bytesOf "\r\n")) = none := by
    decide +kernel
  unfold LengthKnown
  rw [nothing]
  exact ⟨37, 2, by decide +kernel, by decide +kernel⟩

/-- A request without a body and without its length. -/
theorem not_total_length : Complete (bytesOf "GET /a HTTP/1.1\r\n\r\n") ∧
    (HttpParser.init.execute (bytesOf "GET /a HTTP/1.1\r\n\r\n")).1.flags.chunked = false ∧
    (bytesOf "GET /a HTTP/1.1\r\n\r\n").length = 19 ∧
    ((⟨false, 0, [], []⟩ : HttpParserWrapper).parseHttpContent (bytesOf "GET /a HTTP/1.1\r\n\r\n")).totalLength = 18 :=
  ⟨.of_take (by decide +kernel) (by decide +kernel), by decide +kernel, by decide +kernel, by decide +kernel⟩

end Netter.Http
