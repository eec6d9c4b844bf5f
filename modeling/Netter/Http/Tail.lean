import Netter.Http.Grammar
import Netter.Http.Headers

/-!
# From the URL to the end of a head

What has been read of a head behind its URL, for each state of the parser, and that each character leads from one of these to
another, ends the head or is refused.
-/

namespace Netter.Http

open Lib Exec

variable {e : Exec} {p : HttpParser} {ch : UInt8} {state later : ParserState} {text tail line lines word : List UInt8}

/-! ## Parts, one character longer -/

theorem forall_snoc {P : UInt8 → Prop} (all : ∀ c ∈ text, P c) (here : P ch) : ∀ c ∈ text ++ [ch], P c := by
  intro c member
  rcases List.mem_append.mp member with before | last
  · exact all c before
  · exact List.mem_singleton.mp last ▸ here

theorem Digits.snoc (digits : Digits text) (number : isNum ch = true) : Digits (text ++ [ch]) :=
  ⟨by simp, forall_snoc digits.digits number⟩

theorem Digits.single (number : isNum ch = true) : Digits [ch] := ⟨by simp, by simpa using number⟩

theorem Name.snoc (name : Name text) (some : token ch ≠ 0) : Name (text ++ [ch]) := ⟨by simp, forall_snoc name.tokens some⟩

theorem Valued.snoc (valued : Valued line) (inside : inLine ch = true) : Valued (line ++ [ch]) := by
  cases valued with
  | named name value is all =>
    have longer := Valued.named name (value ++ [ch]) is (forall_snoc all inside)
    simpa using longer
  | folded blank value is all => exact .folded blank (value ++ [ch]) is (forall_snoc all inside)

/-! ## States -/

/-- What has been read of the word before the version. -/
def versionWord : ParserState → Option (List UInt8)
  | .reqHttpStart => some []
  | .reqHttpH => some (bytesOf "H")
  | .reqHttpHT => some (bytesOf "HT")
  | .reqHttpHTT => some (bytesOf "HTT")
  | .reqHttpHTTP => some (bytesOf "HTTP")
  | .reqFirstHttpMajor => some (bytesOf "HTTP/")
  | _ => none

/-- Spaces, at least one. -/
structure Spaces (text : List UInt8) : Prop where
  some : text ≠ []
  blank : ∀ ch ∈ text, ch = ' '.toUInt8

/-- What has been read from the URL on in a state. -/
inductive Tail : ParserState → List UInt8 → Prop where
  | word {state : ParserState} {spaces word : List UInt8} (blank : Spaces spaces) (is : versionWord state = some word) :
    Tail state (spaces ++ word)
  | major {spaces major : List UInt8} (blank : Spaces spaces) (first : Digits major) :
    Tail .reqHttpMajor (spaces ++ (bytesOf "HTTP/" ++ major))
  | point {spaces major : List UInt8} (blank : Spaces spaces) (first : Digits major) :
    Tail .reqFirstHttpMinor (spaces ++ (bytesOf "HTTP/" ++ (major ++ bytesOf ".")))
  | minor {spaces major minor : List UInt8} (blank : Spaces spaces) (first : Digits major) (second : Digits minor) :
    Tail .reqHttpMinor (spaces ++ (bytesOf "HTTP/" ++ (major ++ (bytesOf "." ++ minor))))
  | lineEnd {version : List UInt8} (is : Version version) : Tail .reqLineAlmostDone (version ++ [CR])
  | start {lines : List UInt8} (before : FieldLines lines) : Tail .headerFieldStart lines
  | lws {lines : List UInt8} (before : FieldLines lines) : Tail .headerValueLws lines
  | name {lines name : List UInt8} (before : FieldLines lines) (is : Name name) : Tail .headerField (lines ++ name)
  | valueStart {lines line : List UInt8} (before : FieldLines lines) (is : Valued line) : Tail .headerValueStart (lines ++ line)
  | value {lines line : List UInt8} (before : FieldLines lines) (is : Valued line) : Tail .headerValue (lines ++ line)
  | fieldEnd {lines line : List UInt8} (before : FieldLines lines) (is : Field line) :
    Tail .headerAlmostDone (lines ++ (line ++ [CR]))
  | last {lines : List UInt8} (before : FieldLines lines) : Tail .headersAlmostDone (lines ++ [CR])

/-- All lines and the empty one. -/
inductive Ended : List UInt8 → Prop where
  | mk {lines last : List UInt8} (all : FieldLines lines) (ends : Eol last) : Ended (lines ++ last)

/-- Behind the URL, in a message of which no head is complete. -/
structure Behind (tail : List UInt8) (e : Exec) : Prop where
  tail : Tail e.parser.state tail
  noMark : e.urlMark = none
  first : e.parser.flags.trailing = false

/-- Another character of the head is read, or it is the last one, or it is refused. -/
def Outcome.Reaches (e : Exec) (text : List UInt8) : Outcome → Prop
  | .next t calls _ => calls = [] ∧ Behind text t ∧ t.parser.nread = e.parser.nread ∨
      Ended text ∧ ∃ length more, calls = .headersComplete e.parser.nread length :: more
  | .leave _ calls => calls = [] ∨ Ended text ∧ ∃ length more, calls = .headersComplete e.parser.nread length :: more

theorem reaches_fail (errno : HttpErrno) : (e.fail errno).Reaches e text := .inl rfl

theorem Behind.next {old : List UInt8} (behind : Behind old e) (tail : Tail p.state text)
    (trailing : p.flags.trailing = e.parser.flags.trailing) (nread : p.nread = e.parser.nread) : (e.next p).Reaches e text :=
  .inl ⟨rfl, ⟨tail, behind.noMark, trailing.trans behind.first⟩, nread⟩

theorem Behind.goTo {old : List UInt8} (behind : Behind old e) (tail : Tail later text) : (e.goTo later).Reaches e text :=
  behind.next tail rfl rfl

/-! ## The version -/

theorem Tail.of_word (tail : Tail state text) (is : versionWord state = some word) :
    ∃ spaces, Spaces spaces ∧ text = spaces ++ word := by
  cases tail with
  | word blank same =>
    rw [same] at is
    cases is
    exact ⟨_, blank, rfl⟩
  | _ => cases is

theorem Behind.strict {expected : UInt8} (behind : Behind tail e) (is : versionWord e.parser.state = some word)
    (after : versionWord later = some (word ++ [expected])) : (e.strict expected later ch).Reaches e (tail ++ [ch]) := by
  unfold Exec.strict
  split
  · exact reaches_fail _
  next same =>
    obtain ⟨spaces, blank, rfl⟩ := behind.tail.of_word is
    obtain rfl := not_not.mp same
    rw [List.append_assoc]
    exact behind.goTo (.word blank after)

theorem Behind.reqHttpStart (behind : Behind tail e) (at_state : e.parser.state = .reqHttpStart) :
    (e.reqHttpStart ch).Reaches e (tail ++ [ch]) := by
  obtain ⟨spaces, blank, rfl⟩ := behind.tail.of_word (by rw [at_state]; rfl)
  rw [List.append_nil]
  unfold Exec.reqHttpStart
  split
  next is => exact behind.goTo (is ▸ .word blank rfl)
  next =>
    split
    next is =>
      have longer : Spaces (spaces ++ [ch]) := ⟨by simp, forall_snoc blank.blank is⟩
      have word : Tail .reqHttpStart ((spaces ++ [ch]) ++ []) := .word longer rfl
      rw [List.append_nil, ← at_state] at word
      exact behind.next word rfl rfl
    next => exact reaches_fail _

theorem isNum_of_nonzero (inside : ¬ (ch < '1'.toUInt8 ∨ '9'.toUInt8 < ch)) : isNum ch = true := by
  rw [not_or, UInt8.not_lt, UInt8.not_lt] at inside
  obtain ⟨low, high⟩ := inside
  unfold isNum
  rw [Bool.and_eq_true, decide_eq_true_eq, decide_eq_true_eq]
  exact ⟨UInt8.le_trans (by decide) low, high⟩

theorem Behind.reqFirstHttpMajor (behind : Behind tail e) (at_state : e.parser.state = .reqFirstHttpMajor) :
    (e.reqFirstHttpMajor ch).Reaches e (tail ++ [ch]) := by
  obtain ⟨spaces, blank, rfl⟩ := behind.tail.of_word (by rw [at_state]; rfl)
  rw [List.append_assoc]
  unfold Exec.reqFirstHttpMajor
  split
  · exact reaches_fail _
  next inside => exact behind.next (.major blank (.single (isNum_of_nonzero inside))) rfl rfl

theorem Behind.reqHttpMajor (behind : Behind tail e) (at_state : e.parser.state = .reqHttpMajor) :
    (e.reqHttpMajor ch).Reaches e (tail ++ [ch]) := by
  have front := behind.tail
  rw [at_state] at front
  cases front with
  | word blank is => cases is
  | major blank first =>
    rw [List.append_assoc, List.append_assoc]
    unfold Exec.reqHttpMajor
    split
    next is => exact behind.goTo (is ▸ .point blank first)
    next =>
      split
      · exact reaches_fail _
      next number =>
        dsimp only
        split
        · exact .inl rfl
        · have number : isNum ch = true := by simpa using number
          have longer := Tail.major blank (first.snoc number)
          rw [← at_state] at longer
          exact behind.next longer rfl rfl

theorem Behind.reqFirstHttpMinor (behind : Behind tail e) (at_state : e.parser.state = .reqFirstHttpMinor) :
    (e.reqFirstHttpMinor ch).Reaches e (tail ++ [ch]) := by
  have front := behind.tail
  rw [at_state] at front
  cases front with
  | word blank is => cases is
  | point blank first =>
    rw [List.append_assoc, List.append_assoc, List.append_assoc]
    unfold Exec.reqFirstHttpMinor
    split
    · exact reaches_fail _
    next number => exact behind.next (.minor blank first (.single (by simpa using number))) rfl rfl

theorem Behind.reqHttpMinor (behind : Behind tail e) (at_state : e.parser.state = .reqHttpMinor) :
    (e.reqHttpMinor ch).Reaches e (tail ++ [ch]) := by
  have front := behind.tail
  rw [at_state] at front
  cases front with
  | word blank is => cases is
  | @minor spaces major minor blank first second =>
    have version := Version.numbered spaces major minor blank.some blank.blank first second
    unfold Exec.reqHttpMinor
    split
    next is => exact behind.goTo (is ▸ .lineEnd version)
    next =>
      split
      next is => exact behind.goTo (is ▸ .start (.request version (.inr rfl)))
      next =>
        split
        · exact reaches_fail _
        next number =>
          dsimp only
          split
          · exact .inl rfl
          · have number : isNum ch = true := by simpa using number
            have longer := Tail.minor blank first (second.snoc number)
            rw [← at_state] at longer
            simp only [List.append_assoc] at longer ⊢
            exact behind.next longer rfl rfl

theorem Behind.reqLineAlmostDone (behind : Behind tail e) (at_state : e.parser.state = .reqLineAlmostDone) :
    (e.reqLineAlmostDone ch).Reaches e (tail ++ [ch]) := by
  have front := behind.tail
  rw [at_state] at front
  cases front with
  | word blank is => cases is
  | lineEnd version =>
    rw [List.append_assoc]
    unfold Exec.reqLineAlmostDone
    split
    · exact reaches_fail _
    next is =>
      obtain rfl := not_not.mp is
      exact behind.goTo (.start (.request version (.inl rfl)))

/-! ## Headers -/

/-- Whatever follows the callback for the head. -/
theorem reaches_after {length : UInt64} (ended : Ended text) (out : Outcome) :
    (out.after [.headersComplete e.parser.nread length]).Reaches e text := by
  cases out with
  | next t calls skipped => exact .inr ⟨ended, _, _, rfl⟩
  | leave p calls => exact .inr ⟨ended, _, _, rfl⟩

/-- The end of the head, unless this is a trailer. -/
theorem Behind.headersAlmostDone (behind : Behind tail e) (all : FieldLines lines) (front : List UInt8)
    (ends : front ++ [LF] = [CR, LF] ∨ front ++ [LF] = [LF]) :
    (e.headersAlmostDone ch).Reaches e (lines ++ (front ++ [ch])) := by
  unfold Exec.headersAlmostDone
  split
  · exact reaches_fail _
  next is =>
    obtain rfl := not_not.mp is
    have ended : Ended (lines ++ (front ++ [LF])) := .mk all ends
    rw [if_neg (by rw [behind.first]; nofun)]
    exact reaches_after ended _

theorem Behind.lastLine (behind : Behind tail e) (at_state : e.parser.state = .headersAlmostDone) :
    (e.headersAlmostDone ch).Reaches e (tail ++ [ch]) := by
  have front := behind.tail
  rw [at_state] at front
  cases front with
  | word blank is => cases is
  | last all =>
    rw [List.append_assoc]
    exact behind.headersAlmostDone all [CR] (.inl rfl)

/-- A line begins, or the empty one. -/
theorem Behind.headerFieldStart (behind : Behind tail e) (all : FieldLines tail) :
    (e.headerFieldStart ch).Reaches e (tail ++ [ch]) := by
  unfold Exec.headerFieldStart
  split
  next is => exact behind.goTo (is ▸ .last all)
  next =>
    split
    next is =>
      have here : Behind (tail ++ [CR]) { e with parser := { e.parser with state := .headersAlmostDone } } :=
        ⟨.last all, behind.noMark, behind.first⟩
      exact here.headersAlmostDone all [] (.inr rfl)
    next =>
      split
      · exact reaches_fail _
      next some => exact behind.next (.name all ⟨by simp, by simpa using some⟩) rfl rfl

theorem Behind.headerField (behind : Behind tail e) (at_state : e.parser.state = .headerField) :
    (e.headerField ch).Reaches e (tail ++ [ch]) := by
  have front := behind.tail
  rw [at_state] at front
  cases front with
  | word blank is => cases is
  | @name lines name all is =>
    rw [List.append_assoc]
    unfold Exec.headerField
    split
    next some =>
      have same : (headerFieldToken e.parser (token ch)).state = .headerField := (headerFieldToken_state _).trans at_state
      refine behind.next (same ▸ .name all (is.snoc some)) ?_ headerFieldToken_nread
      exact congrArg Framing.trailing headerFieldToken_framing
    next =>
      split
      next colon => exact behind.goTo (.valueStart all (colon ▸ .named name [] is nofun))
      next =>
        split
        next ends => exact behind.goTo (ends ▸ .fieldEnd all (.inl is))
        next =>
          split
          next ends => exact behind.goTo (ends ▸ .start (.field all (.inl is) (.inr rfl)))
          next => exact reaches_fail _

theorem inLine_of_ne (cr : ch ≠ CR) (lf : ch ≠ LF) : inLine ch = true := by simp [inLine, cr, lf]

/-- In a value, whatever it is the value of. -/
theorem Behind.inValue (behind : Behind tail e) (all : FieldLines lines) (is : Valued line) (state : p.state = .headerValue)
    (framing : p.flags.trailing = e.parser.flags.trailing) (nread : p.nread = e.parser.nread) :
    (e.next p).Reaches e (lines ++ line) :=
  behind.next (state ▸ .value all is) framing nread

theorem Behind.headerValueStart (behind : Behind tail e) (at_state : e.parser.state = .headerValueStart) :
    (e.headerValueStart ch).Reaches e (tail ++ [ch]) := by
  have front := behind.tail
  rw [at_state] at front
  cases front with
  | word blank is => cases is
  | @valueStart lines line all is =>
    rw [List.append_assoc]
    unfold Exec.headerValueStart
    split
    next blank =>
      have inside : inLine ch = true := by
        rcases blank with rfl | rfl
        · rfl
        · rfl
      have longer := Tail.valueStart all (is.snoc inside)
      rw [← at_state] at longer
      exact behind.next longer rfl rfl
    next =>
      dsimp only
      split
      next ends => exact behind.next (ends ▸ .fieldEnd all (.inr is)) rfl rfl
      next cr =>
        split
        next ends => exact behind.next (ends ▸ .start (.field all (.inr is) (.inr rfl))) rfl rfl
        next lf =>
          have longer := is.snoc (inLine_of_ne cr lf)
          split
          · exact behind.inValue all longer rfl rfl rfl
          · exact behind.inValue all longer rfl rfl rfl
          · split
            · exact .inl rfl
            · exact behind.inValue all longer rfl rfl rfl
          · exact behind.inValue all longer rfl rfl rfl
          · exact behind.inValue all longer rfl rfl rfl

theorem Behind.headerAlmostDone (behind : Behind tail e) (all : FieldLines lines) (is : Field line) (front : List UInt8)
    (ends : front ++ [LF] = [CR, LF] ∨ front ++ [LF] = [LF]) :
    (e.headerAlmostDone ch).Reaches e (lines ++ (line ++ (front ++ [ch]))) := by
  unfold Exec.headerAlmostDone
  split
  · exact reaches_fail _
  next same =>
    obtain rfl := not_not.mp same
    have ended : Tail .headerValueLws (lines ++ (line ++ (front ++ [LF]))) := .lws (.field all is ends)
    dsimp only
    split
    · exact behind.next ended rfl rfl
    · exact behind.next ended rfl rfl
    · exact behind.next ended rfl rfl
    · exact behind.next ended rfl rfl

theorem Behind.lineEnd (behind : Behind tail e) (at_state : e.parser.state = .headerAlmostDone) :
    (e.headerAlmostDone ch).Reaches e (tail ++ [ch]) := by
  have front := behind.tail
  rw [at_state] at front
  cases front with
  | word blank is => cases is
  | fieldEnd all is =>
    rw [List.append_assoc, List.append_assoc]
    exact behind.headerAlmostDone all is [CR] (.inl rfl)

theorem Behind.headerValue (behind : Behind tail e) (at_state : e.parser.state = .headerValue) :
    (e.headerValue ch).Reaches e (tail ++ [ch]) := by
  have front := behind.tail
  rw [at_state] at front
  cases front with
  | word blank is => cases is
  | @value lines line all is =>
    rw [List.append_assoc]
    unfold Exec.headerValue
    dsimp only
    split
    next ends => exact behind.goTo (ends ▸ .fieldEnd all (.inr is))
    next cr =>
      split
      next ends =>
        have here : Behind (lines ++ (line ++ [CR])) { e with parser := { e.parser with state := .headerAlmostDone } } :=
          ⟨.fieldEnd all (.inr is), behind.noMark, behind.first⟩
        exact here.headerAlmostDone all (.inr is) [] (.inr rfl)
      next lf =>
        have longer := is.snoc (inLine_of_ne cr lf)
        have stays {q : HttpParser} (framing : q.framing = e.parser.framing) (state : q.state = e.parser.state)
            (nread : q.nread = e.parser.nread) : (e.next q).Reaches e (lines ++ (line ++ [ch])) :=
          behind.inValue all longer (state.trans at_state) (congrArg Framing.trailing framing) nread
        split
        · exact stays rfl rfl rfl
        · split
          · exact stays rfl rfl rfl
          · split
            · exact reaches_fail _
            · split
              · exact behind.inValue all longer at_state rfl rfl
              · exact reaches_fail _
        · exact stays matching_framing (matching_state ..) matching_nread
        · exact stays matching_framing (matching_state ..) matching_nread
        · exact stays matching_framing (matching_state ..) matching_nread
        · split
          · exact stays rfl rfl rfl
          · exact stays rfl rfl rfl
        · split
          · exact stays rfl rfl rfl
          · exact stays rfl rfl rfl
        · split
          · exact stays rfl rfl rfl
          · exact stays rfl rfl rfl
        · exact stays rfl rfl rfl
        · exact stays rfl rfl rfl
        · exact stays rfl rfl rfl

/-- Another line, or the last one goes on. -/
theorem Behind.headerValueLws (behind : Behind tail e) (at_state : e.parser.state = .headerValueLws) :
    (e.headerValueLws ch).Reaches e (tail ++ [ch]) := by
  have front := behind.tail
  rw [at_state] at front
  cases front with
  | word blank is => cases is
  | lws all =>
    unfold Exec.headerValueLws
    split
    next blank =>
      have is : isBlank ch = true := by
        rcases blank with rfl | rfl
        · rfl
        · rfl
      exact behind.goTo (.valueStart all (.folded ch [] is nofun))
    next =>
      have here : Behind tail { e with parser := { e.parser with state := .headerFieldStart } } :=
        ⟨.start all, behind.noMark, behind.first⟩
      exact here.headerFieldStart all

end Netter.Http
