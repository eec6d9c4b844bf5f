import Netter.Http.Tail

/-!
# The front of a request

The method and the URL, for each state of the parser, as far as they have been read. Methods that begin alike share their states,
and a URL is a path or begins with a schema.
-/

namespace Netter.Http

open Lib Exec

variable {ch : UInt8} {method other : HttpMethod} {state : ParserState} {text url : List UInt8}

/-! ## The method -/

theorem string_ne_zero (method : HttpMethod) : ∀ ch ∈ method.string, ch ≠ 0 := by
  cases method <;> exact forall_of_all (by decide)

theorem length_string_le (method : HttpMethod) : method.string.length ≤ 11 := by
  cases method <;> decide

/-- The character at an index, which is not 0 inside the name. -/
theorem take_of_getD {n : Nat} (some : ch ≠ 0) (is : ch = method.string.getD n 0) :
    n + 1 ≤ method.string.length ∧ method.string.take (n + 1) = method.string.take n ++ [ch] := by
  rw [List.getD_eq_getElem?_getD] at is
  by_cases inside : n < method.string.length
  · rw [List.getElem?_eq_getElem inside] at is
    exact ⟨inside, by rw [List.take_succ_eq_append_getElem inside, is]; rfl⟩
  · rw [List.getElem?_eq_none (Nat.le_of_not_lt inside)] at is
    exact absurd is some

theorem length_le_of_getD {n : Nat} (none : method.string.getD n 0 = 0) : method.string.length ≤ n := by
  by_contra inside
  have inside : n < method.string.length := Nat.lt_of_not_le inside
  rw [List.getD_eq_getElem?_getD, List.getElem?_eq_getElem inside] at none
  exact string_ne_zero method _ (List.getElem_mem inside) none

theorem of_ite {P : Prop} [Decidable P] {m : HttpMethod} {rest : Option HttpMethod}
    (is : (if P then some m else rest) = some method) : P ∧ m = method ∨ rest = some method := by
  by_cases here : P
  · rw [if_pos here] at is
    exact .inl ⟨here, Option.some.inj is⟩
  · rw [if_neg here] at is
    exact .inr is

theorem firstMethod_string (first : firstMethod ch = some method) : method.string.take 1 = [ch] := by
  unfold firstMethod at first
  iterate 13
    obtain ⟨rfl, rfl⟩ | first := of_ite first
    · rfl
  cases first

/-- Methods that begin alike are told apart where they differ. -/
theorem otherMethod_string {index : UInt8} (changed : otherMethod method index ch = some other) :
    index.toNat + 1 ≤ other.string.length ∧ other.string.take (index.toNat + 1) = method.string.take index.toNat ++ [ch] := by
  unfold otherMethod at changed
  repeat' split at changed
  all_goals try cases changed
  all_goals try obtain ⟨rfl, rfl, rfl⟩ := ‹_ ∧ _ ∧ _›
  all_goals try obtain ⟨rfl, rfl⟩ := ‹_ ∧ _›
  all_goals subst_vars
  all_goals decide

/-! ## The URL -/

theorem BeforeUrl.snoc (before : BeforeUrl method text) : BeforeUrl method (text ++ [' '.toUInt8]) := by
  obtain ⟨breaks, spaces, empty, blank⟩ := before
  have longer : BeforeUrl method _ := .mk breaks (spaces ++ [' '.toUInt8]) empty (forall_snoc blank rfl)
  simpa using longer

theorem UrlForm.snoc (form : UrlForm method url) (ch : UInt8) : UrlForm method (url ++ [ch]) := by
  cases form with
  | path first rest other is => exact .path first (rest ++ [ch]) other is
  | server schema rest other filled letters some =>
    have longer : UrlForm method _ := .server schema (rest ++ [ch]) other filled letters (by simp)
    simpa using longer
  | connect first rest is => exact .connect first (rest ++ [ch]) is

theorem isVisible_of_isUserinfoChar (is : isUserinfoChar ch = true) : isVisible ch = true := by
  have all : ∀ n < 256, isUserinfoChar (UInt8.ofNat n) = true → isVisible (UInt8.ofNat n) = true := by decide +kernel
  have here := all ch.toNat ch.toNat_lt
  rw [UInt8.ofNat_toNat] at here
  exact here is

theorem isVisible_of_isUrlChar (is : isUrlChar ch = true) : isVisible ch = true := by
  unfold isUrlChar at is
  rw [Bool.and_assoc, Bool.and_eq_true] at is
  exact is.1

theorem isVisible_of_isAlpha (is : isAlpha ch = true) : isVisible ch = true :=
  isVisible_of_isUserinfoChar (by simp [isUserinfoChar, is])

theorem isVisible_of_parseServerChar (alive : parseServerChar ch ≠ .dead) : isVisible ch = true := by
  unfold parseServerChar at alive
  split at alive
  next is => exact is ▸ rfl
  next =>
    split at alive
    next is => exact is ▸ rfl
    next =>
      split at alive
      next is => exact is ▸ rfl
      next =>
        split at alive
        next is =>
          simp only [Bool.or_eq_true, beq_iff_eq] at is
          rcases is with (is | rfl) | rfl
          · exact isVisible_of_isUserinfoChar is
          · rfl
          · rfl
        next => exact absurd rfl alive

/-- A URL has no other characters. -/
theorem isVisible_of_parseUrlChar (alive : parseUrlChar state ch ≠ .dead) : isVisible ch = true := by
  by_contra hidden
  have url : isUrlChar ch = false := by
    rw [Bool.eq_false_iff]
    exact fun is => hidden (isVisible_of_isUrlChar is)
  have alpha : isAlpha ch = false := by
    rw [Bool.eq_false_iff]
    exact fun is => hidden (isVisible_of_isAlpha is)
  have server : parseServerChar ch = .dead := by
    by_contra alive
    exact hidden (isVisible_of_parseServerChar alive)
  have away {c : UInt8} (visible : isVisible c = true) : ch ≠ c := fun is => hidden (is ▸ visible)
  apply alive
  unfold parseUrlChar
  cases state <;> simp [url, alpha, server, away (c := '/'.toUInt8) rfl, away (c := '*'.toUInt8) rfl,
    away (c := ':'.toUInt8) rfl, away (c := '?'.toUInt8) rfl, away (c := '#'.toUInt8) rfl]

/-- The states of a URL that has come to a path or a server. -/
def ParserState.inTarget : ParserState → Bool
  | .reqServer | .reqServerWithAt | .reqPath | .reqQueryStringStart | .reqQueryString | .reqFragmentStart | .reqFragment => true
  | _ => false

theorem parseServerChar_inTarget (alive : parseServerChar ch ≠ .dead) : (parseServerChar ch).inTarget = true := by
  unfold parseServerChar at alive ⊢
  repeat' split
  all_goals first | rfl | simp_all

theorem parseUrlChar_inTarget (inside : state.inTarget = true) (alive : parseUrlChar state ch ≠ .dead) :
    (parseUrlChar state ch).inTarget = true := by
  unfold parseUrlChar at alive ⊢
  split
  · simp_all
  · cases state <;> simp only at alive ⊢ <;> grind [parseServerChar_inTarget, ParserState.inTarget]

/-- A schema. -/
structure Letters (text : List UInt8) : Prop where
  filled : text ≠ []
  letters : ∀ ch ∈ text, isAlpha ch = true

/-- What has been read of a URL in a state. -/
inductive UrlAt (method : HttpMethod) : ParserState → List UInt8 → Prop where
  | schema {schema : List UInt8} (other : method ≠ .connect) (is : Letters schema) : UrlAt method .reqSchema schema
  | slash {schema : List UInt8} (other : method ≠ .connect) (is : Letters schema) :
    UrlAt method .reqSchemaSlash (schema ++ bytesOf ":")
  | slashSlash {schema : List UInt8} (other : method ≠ .connect) (is : Letters schema) :
    UrlAt method .reqSchemaSlashSlash (schema ++ bytesOf ":/")
  | server {schema : List UInt8} (other : method ≠ .connect) (is : Letters schema) :
    UrlAt method .reqServerStart (schema ++ bytesOf "://")
  | target {state : ParserState} {url : List UInt8} (inside : state.inTarget = true) (form : UrlForm method url) :
    UrlAt method state url

theorem not_blank (alive : parseUrlChar state ch ≠ .dead) :
    ¬ (ch = ' '.toUInt8 ∨ ch = CR ∨ ch = LF ∨ ch = 9 ∨ ch = 12) := by
  intro blank
  apply alive
  unfold parseUrlChar
  exact if_pos blank

/-- Where `parse_url_char` begins. -/
def urlStart (method : HttpMethod) : ParserState := if method = .connect then .reqServerStart else .reqSpacesBeforeUrl

theorem UrlAt.first (alive : parseUrlChar (urlStart method) ch ≠ .dead) :
    UrlAt method (parseUrlChar (urlStart method) ch) [ch] := by
  have inside := not_blank alive
  by_cases connect : method = .connect
  · have start : urlStart method = .reqServerStart := if_pos connect
    rw [start] at alive ⊢
    have is : parseUrlChar .reqServerStart ch = parseServerChar ch := if_neg inside
    rw [is] at alive ⊢
    exact .target (parseServerChar_inTarget alive) (.connect ch [] connect)
  · have start : urlStart method = .reqSpacesBeforeUrl := if_neg connect
    rw [start] at alive ⊢
    unfold parseUrlChar at alive ⊢
    rw [if_neg inside] at alive ⊢
    dsimp only at alive ⊢
    split
    next absolute => exact .target rfl (.path ch [] connect absolute)
    next relative =>
      rw [if_neg relative] at alive
      split
      next letter => exact .schema connect ⟨by simp, by simpa using letter⟩
      next bad =>
        rw [if_neg bad] at alive
        exact absurd rfl alive

theorem UrlAt.next (front : UrlAt method state url) (alive : parseUrlChar state ch ≠ .dead) :
    UrlAt method (parseUrlChar state ch) (url ++ [ch]) := by
  cases front with
  | target inside form => exact .target (parseUrlChar_inTarget inside alive) (form.snoc ch)
  | server other letters =>
    have is : parseUrlChar .reqServerStart ch = parseServerChar ch := if_neg (not_blank alive)
    rw [is] at alive ⊢
    rw [List.append_assoc]
    exact .target (parseServerChar_inTarget alive) (.server _ [ch] other letters.filled letters.letters (by simp))
  | schema other letters =>
    have inside := not_blank alive
    unfold parseUrlChar at alive ⊢
    rw [if_neg inside] at alive ⊢
    dsimp only at alive ⊢
    split
    next letter => exact .schema other ⟨by simp, forall_snoc letters.letters letter⟩
    next bad =>
      rw [if_neg bad] at alive
      split
      next colon => exact colon ▸ .slash other letters
      next bad =>
        rw [if_neg bad] at alive
        exact absurd rfl alive
  | slash other letters =>
    have inside := not_blank alive
    unfold parseUrlChar at alive ⊢
    rw [if_neg inside] at alive ⊢
    dsimp only at alive ⊢
    split
    next slash =>
      rw [slash, List.append_assoc]
      exact .slashSlash other letters
    next bad =>
      rw [if_neg bad] at alive
      exact absurd rfl alive
  | slashSlash other letters =>
    have inside := not_blank alive
    unfold parseUrlChar at alive ⊢
    rw [if_neg inside] at alive ⊢
    dsimp only at alive ⊢
    split
    next slash =>
      rw [slash, List.append_assoc]
      exact .server other letters
    next bad =>
      rw [if_neg bad] at alive
      exact absurd rfl alive

end Netter.Http
