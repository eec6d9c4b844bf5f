import Mathlib.Data.List.Induction
import Netter.Http.Marks
import Netter.Http.Written

/-!
# The names of headers

The parser matches the name of a header against the few names that mean something, byte after byte, and gives up where it
differs. So it ends in one of their states only with that name, and in a plain state with every
other one.
-/

namespace Netter.Http

open Exec

variable {p q : HttpParser} {c : UInt8} {w word : List UInt8} {found : HeaderState}

/-- The states in which a value changes nothing of the framing. -/
def HeaderState.plain : HeaderState → Bool
  | .contentLength | .transferEncoding | .upgrade | .matchingTransferEncodingChunked | .transferEncodingChunked => false
  | _ => true

/-- As much of the word has been matched, except for its last byte. -/
structure Matching (word w : List UInt8) (index : UInt8) : Prop where
  front : w <+: word
  shorter : w.length < word.length
  index : index.toNat + 1 = w.length

theorem Matching.count (matched : Matching word w p.index) (small : word.length < 256) : (p.index + 1).toNat = w.length := by
  have shorter := matched.shorter
  have index := matched.index
  rw [UInt8.toNat_add, ← index]
  exact Nat.mod_eq_of_lt (by show p.index.toNat + 1 < 2 ^ 8; omega)

/-- The next byte of a word. -/
theorem Matching.next (matched : Matching word w p.index) (small : word.length < 256) (inside : w ++ [c] <+: word) :
    p.matching word found c =
      if (w ++ [c]).length = word.length then { p with index := p.index + 1, headerState := found }
      else { p with index := p.index + 1 } := by
  have count := matched.count small
  have shorter := matched.shorter
  have same : word.getD w.length 0 = c := by
    obtain ⟨rest, rfl⟩ := inside
    simp
  have goes : ¬ (word.length < (p.index + 1).toNat ∨ c ≠ word.getD (p.index + 1).toNat 0) := by
    rw [count, same]
    rintro (long | other)
    · omega
    · exact other rfl
  have last : ((p.index + 1).toNat = word.length - 1) = ((w ++ [c]).length = word.length) := by
    rw [count, List.length_append, List.length_singleton]
    apply propext
    omega
  unfold HttpParser.matching
  simp only [goes, last, if_false]

theorem Matching.snoc (matched : Matching word w p.index) (small : word.length < 256) (inside : w ++ [c] <+: word)
    (more : (w ++ [c]).length ≠ word.length) : Matching word (w ++ [c]) (p.index + 1) := by
  refine ⟨inside, Nat.lt_of_le_of_ne inside.length_le more, ?_⟩
  show (p.index + 1).toNat + 1 = _
  rw [matched.count small, List.length_append, List.length_singleton]

/-- A byte is the next one of the word, and maybe its last, or it is matched no more. -/
theorem Matching.step (matched : Matching word w p.index) (small : word.length < 256) (found : HeaderState) (c : UInt8) :
    (p.matching word found c).headerState = .general ∨
      (p.matching word found c).headerState = found ∧ w ++ [c] = word ∨
        (p.matching word found c).headerState = p.headerState ∧ Matching word (w ++ [c]) (p.matching word found c).index := by
  by_cases inside : w ++ [c] <+: word
  · rw [matched.next small inside]
    by_cases last : (w ++ [c]).length = word.length
    · rw [if_pos last]
      exact .inr (.inl ⟨rfl, inside.eq_of_length last⟩)
    · rw [if_neg last]
      exact .inr (.inr ⟨rfl, matched.snoc small inside last⟩)
  · left
    have other : c ≠ word.getD w.length 0 := by
      rintro rfl
      have shorter := matched.shorter
      obtain ⟨rest, rfl⟩ := matched.front
      cases rest with
      | nil => simp at shorter
      | cons next rest => exact inside (by simp)
    have gone : word.length < (p.index + 1).toNat ∨ c ≠ word.getD (p.index + 1).toNat 0 :=
      .inr (matched.count small ▸ other)
    unfold HttpParser.matching
    dsimp only
    rw [if_pos gone]

theorem matching_headerState (word : List UInt8) (found : HeaderState) (c : UInt8) :
    (p.matching word found c).headerState = .general ∨ (p.matching word found c).headerState = found ∨
      (p.matching word found c).headerState = p.headerState := by
  unfold HttpParser.matching
  dsimp only
  split
  · exact .inl rfl
  · split
    · exact .inr (.inl rfl)
    · exact .inr (.inr rfl)

/-! ## A whole name -/

/-- A parser that has read a name, by the tokens. -/
def scanName : List UInt8 → HttpParser
  | [] => .init
  | c :: name => name.foldl headerFieldToken { HttpParser.init with headerState := firstHeaderState c }

theorem scanName_snoc (filled : w ≠ []) (c : UInt8) : scanName (w ++ [c]) = headerFieldToken (scanName w) c := by
  obtain ⟨first, rest, rfl⟩ := List.exists_cons_of_ne_nil filled
  rw [List.cons_append, scanName, List.foldl_append]
  rfl

/-- What is known of a name by the state it leaves the parser in. -/
def Known (w : List UInt8) (p : HttpParser) : Prop :=
  match p.headerState with
  | .c => w = bytesOf "c" ∧ p.index = 0
  | .co => w = bytesOf "co" ∧ p.index = 1
  | .con => w = bytesOf "con" ∧ p.index = 2
  | .matchingContentLength => Matching (bytesOf "content-length") w p.index
  | .matchingTransferEncoding => Matching (bytesOf "transfer-encoding") w p.index
  | .matchingUpgrade => Matching (bytesOf "upgrade") w p.index
  | .contentLength => w = bytesOf "content-length"
  | .transferEncoding => w = bytesOf "transfer-encoding"
  | .upgrade => w = bytesOf "upgrade"
  | .matchingTransferEncodingChunked | .transferEncodingChunked => False
  | _ => True

theorem Known.of_general (general : p.headerState = .general) : Known w p := by
  unfold Known
  rw [general]
  trivial

theorem Known.first (c : UInt8) : Known [c] { HttpParser.init with headerState := firstHeaderState c } := by
  unfold firstHeaderState
  split
  next is => exact is ▸ ⟨rfl, rfl⟩
  split
  · trivial
  split
  next is => exact is ▸ ⟨by decide, by decide, rfl⟩
  split
  next is => exact is ▸ ⟨by decide, by decide, rfl⟩
  · trivial

theorem Known.matching (matched : Matching word w p.index) (small : word.length < 256)
    (ends : ∀ q : HttpParser, q.headerState = found → Known word q)
    (still : ∀ q : HttpParser, q.headerState = p.headerState → Matching word (w ++ [c]) q.index → Known (w ++ [c]) q) :
    Known (w ++ [c]) (p.matching word found c) := by
  rcases matched.step small found c with gone | ⟨is, rfl⟩ | ⟨same, more⟩
  · exact .of_general gone
  · exact ends _ is
  · exact still _ same more

/-- Connections are closed or kept alive, which does not matter here. -/
theorem Known.matching_connection (word : List UInt8) (c : UInt8)
    (at_state : p.headerState = .matchingConnection ∨ p.headerState = .matchingProxyConnection) :
    Known w (p.matching word .connection c) := by
  unfold Known
  rcases matching_headerState (p := p) word .connection c with is | is | is
  · rw [is]; trivial
  · rw [is]; trivial
  · rcases at_state with at_state | at_state <;> rw [is, at_state] <;> trivial

theorem Known.step (known : Known w p) (c : UInt8) : Known (w ++ [c]) (headerFieldToken p c) := by
  unfold Known at known
  cases at_state : p.headerState <;> simp only [at_state] at known <;> simp only [headerFieldToken, at_state]
  case general => exact .of_general at_state
  case c =>
    obtain ⟨rfl, index⟩ := known
    split
    next is => exact ⟨is ▸ rfl, by simp [index]⟩
    next => trivial
  case co =>
    obtain ⟨rfl, index⟩ := known
    split
    next is => exact ⟨is ▸ rfl, by simp [index]⟩
    next => trivial
  case con =>
    obtain ⟨rfl, index⟩ := known
    split
    · trivial
    split
    next is => exact is ▸ ⟨by decide, by decide, by simp [index]; rfl⟩
    next => trivial
  case matchingConnection => exact .matching_connection _ _ (.inl at_state)
  case matchingProxyConnection => exact .matching_connection _ _ (.inr at_state)
  case matchingContentLength =>
    exact .matching known (by decide) (fun q is => by unfold Known; rw [is])
      fun q is more => by unfold Known; rw [is, at_state]; exact more
  case matchingTransferEncoding =>
    exact .matching known (by decide) (fun q is => by unfold Known; rw [is])
      fun q is more => by unfold Known; rw [is, at_state]; exact more
  case matchingUpgrade =>
    exact .matching known (by decide) (fun q is => by unfold Known; rw [is])
      fun q is more => by unfold Known; rw [is, at_state]; exact more
  case connection | contentLength | transferEncoding | upgrade => trivial
  case matchingConnectionKeepAlive | matchingConnectionClose | connectionKeepAlive | connectionClose =>
    unfold Known
    rw [at_state]
    trivial

theorem known_scanName (filled : w ≠ []) : Known w (scanName w) := by
  induction w using List.reverseRecOn with
  | nil => exact absurd rfl filled
  | append_singleton w c ih =>
    by_cases first : w = []
    · subst first
      exact .first c
    · rw [scanName_snoc first]
      exact (ih first).step c

/-- **A name that does not frame the body** leaves the parser in a plain state. -/
theorem plain_scanName (filled : w ≠ []) (plain : w ∉ framingNames) : (scanName w).headerState.plain = true := by
  have known := known_scanName filled
  unfold Known at known
  cases at_state : (scanName w).headerState <;> simp only [at_state] at known <;>
    first | rfl | exact absurd (by simp [known, framingNames]) plain

/-- Only the state and the index say what has been read of a name. -/
theorem headerFieldToken_congr (state : p.headerState = q.headerState) (index : p.index = q.index) (c : UInt8) :
    (headerFieldToken p c).headerState = (headerFieldToken q c).headerState ∧
      (headerFieldToken p c).index = (headerFieldToken q c).index := by
  have same (word : List UInt8) (found : HeaderState) :
      (p.matching word found c).headerState = (q.matching word found c).headerState ∧
        (p.matching word found c).index = (q.matching word found c).index := by
    unfold HttpParser.matching
    rw [index]
    dsimp only
    split
    · exact ⟨rfl, rfl⟩
    · split
      · exact ⟨rfl, rfl⟩
      · exact ⟨state, rfl⟩
  unfold headerFieldToken
  rw [← state]
  split <;> first | exact same _ _ | simp [index, state]

end Netter.Http
