import Mathlib.Data.List.Nodup

/-!
# Walking over a container that changes

A loop saves the iterator of the next element before it calls code for the current one, and that code may
change and erase elements and add new ones. Each element has a tag that no other element ever had. As long as
the element that the saved iterator refers to is not erased, every element that is due gets its call once.
-/

namespace Lib

variable {α : Type} (tag : α → Nat)

/-- An iterator: it refers to an element, to the end, or to nothing any more. -/
inductive Iter where
  | to (tag : Nat)
  | atEnd
  | lost
deriving DecidableEq, Repr

/-- The iterator of the first element. -/
def Iter.first : List α → Iter
  | [] => .atEnd
  | a :: _ => .to (tag a)

/-- The elements from the iterator on. -/
def Iter.ahead (elems : List α) : Iter → List α
  | .to k => elems.dropWhile fun a => tag a != k
  | _ => []

/-- What happens during a walk to the element with a tag. -/
inductive WalkEvent where
  | called (tag : Nat)
  | changed (tag : Nat)
  | erased (tag : Nat)
deriving DecidableEq, Repr

/-- The element is changed or erased. -/
def WalkEvent.Edits (k : Nat) : WalkEvent → Prop
  | .called _ => False
  | .changed j => j = k
  | .erased j => j = k

/-- The element was changed or erased before its call. -/
def Early (trace : List WalkEvent) (k : Nat) : Prop :=
  ∃ before e after, trace = before ++ e :: after ∧ e.Edits k ∧ .called k ∉ before

/-- A walk under way; the tags from `made` on have not been used. -/
structure Walk (α : Type) where
  elems : List α
  it : Iter
  made : Nat
  trace : List WalkEvent

namespace Walk

/-- What is promised for the elements that were there at the start: the saved iterator is good, an element that
is due and was not changed or erased before its turn has been called once unless it is still to come, and an
element that was erased is not called any more. -/
structure Swept (due : α → Bool) (start : List α) (w : Walk α) : Prop where
  valid : w.it ≠ .lost
  exactly : ∀ a ∈ start, due a = true → ¬ Early w.trace (tag a) →
    w.trace.count (.called (tag a)) = if tag a ∈ (w.it.ahead tag w.elems).map tag then 0 else 1
  silent : ∀ before after k, w.trace = before ++ .erased k :: after → .called k ∉ after

/-- The elements that have had their turn and those that are still to come. -/
structure Ordered (due : α → Bool) (start : List α) (w : Walk α) (behind ahead : List α) : Prop where
  split : w.elems = behind ++ ahead
  next : w.it = .first tag ahead
  nodup : (w.elems.map tag).Nodup
  fresh : ∀ a ∈ w.elems, tag a < w.made
  past : ∀ k, .called k ∈ w.trace → k < w.made
  turn : ∀ a ∈ ahead, .called (tag a) ∉ w.trace
  once : ∀ k, w.trace.count (.called k) ≤ 1
  owed : ∀ a ∈ start, due a = true → ¬ Early w.trace (tag a) → a ∈ ahead ∨ .called (tag a) ∈ w.trace
  gone : ∀ k, .erased k ∈ w.trace → k < w.made ∧ ∀ a ∈ w.elems, tag a ≠ k
  silent : ∀ before after k, w.trace = before ++ .erased k :: after → .called k ∉ after

end Walk

variable {tag} {a : α} {k : Nat} {e : WalkEvent} {trace : List WalkEvent} {w : Walk α} {due : α → Bool}
  {start behind ahead : List α}

theorem early_append_singleton : Early (trace ++ [e]) k ↔ Early trace k ∨ e.Edits k ∧ .called k ∉ trace := by
  constructor
  · rintro ⟨before, f, after, same, edits, not⟩
    rcases List.eq_nil_or_concat after with rfl | ⟨init, last, rfl⟩
    · obtain ⟨rfl, one⟩ := List.append_inj' same rfl
      cases one
      exact .inr ⟨edits, not⟩
    · rw [List.concat_eq_append, ← List.cons_append, ← List.append_assoc] at same
      obtain ⟨rfl, -⟩ := List.append_inj' same rfl
      exact .inl ⟨before, f, init, rfl, edits, not⟩
  · rintro (⟨before, f, after, rfl, edits, not⟩ | ⟨edits, not⟩)
    · exact ⟨before, f, after ++ [e], by simp, edits, not⟩
    · exact ⟨trace, e, [], rfl, edits, not⟩

/-- An event behind the erasure of an element is another one's. -/
theorem silent_append_singleton (silent : ∀ before after k, trace = before ++ .erased k :: after → .called k ∉ after)
    (other : ∀ k, .erased k ∈ trace → e ≠ .called k) (before after : List WalkEvent) (k : Nat)
    (same : trace ++ [e] = before ++ .erased k :: after) : .called k ∉ after := by
  rcases List.eq_nil_or_concat after with rfl | ⟨init, last, rfl⟩
  · exact List.not_mem_nil
  · rw [List.concat_eq_append, ← List.cons_append, ← List.append_assoc] at same
    obtain ⟨rfl, one⟩ := List.append_inj' same rfl
    cases one
    rw [List.concat_eq_append, List.mem_append, List.mem_singleton]
    rintro (inside | last)
    · exact silent _ _ _ rfl inside
    · exact other k (by simp) last.symm

theorem dropWhile_tag (nodup : ((behind ++ a :: ahead).map tag).Nodup) :
    ((behind ++ a :: ahead).dropWhile fun x => tag x != tag a) = a :: ahead := by
  induction behind with
  | nil => simp
  | cons b behind ih =>
    rw [List.cons_append, List.map_cons, List.nodup_cons] at nodup
    have other : tag b ≠ tag a := by
      intro same
      apply nodup.1
      simp [same]
    rw [List.cons_append, List.dropWhile_cons_of_pos (by simpa using other)]
    exact ih nodup.2

theorem mem_of_mem_ahead {elems : List α} {it : Iter} (member : a ∈ it.ahead tag elems) : a ∈ elems := by
  rcases it with k | - | -
  · exact (List.dropWhile_sublist _).subset member
  · cases member
  · cases member

theorem Iter.first_ne_lost (elems : List α) : Iter.first tag elems ≠ .lost := by
  cases elems <;> exact Iter.noConfusion

/-- A change in place that keeps the tags. -/
theorem map_tag_map {elems : List α} {g : α → α} (same : ∀ x ∈ elems, tag (g x) = tag x) :
    (elems.map g).map tag = elems.map tag := by
  rw [List.map_map]
  exact List.map_congr_left same

theorem forall_mem_map_tag {elems : List α} {g : α → α} {P : Nat → Prop} (same : ∀ x ∈ elems, tag (g x) = tag x)
    (all : ∀ x ∈ elems, P (tag x)) : ∀ x ∈ elems.map g, P (tag x) := by
  intro x member
  obtain ⟨y, inside, rfl⟩ := List.mem_map.mp member
  rw [same y inside]
  exact all y inside

namespace Walk

/-- The iterator refers to the first of the elements to come. -/
theorem Ordered.ahead_eq (o : w.Ordered tag due start behind ahead) : w.it.ahead tag w.elems = ahead := by
  have nodup := o.nodup
  rw [o.next]
  cases ahead with
  | nil => rfl
  | cons a ahead =>
    rw [o.split] at nodup ⊢
    exact dropWhile_tag nodup

theorem Ordered.valid (o : w.Ordered tag due start behind ahead) : w.it ≠ .lost := by
  rw [o.next]
  exact Iter.first_ne_lost ahead

/-- **The order keeps the promise.** -/
theorem Ordered.swept (o : w.Ordered tag due start behind ahead) : w.Swept tag due start := by
  refine ⟨o.valid, fun a member isDue plain => ?_, o.silent⟩
  rw [o.ahead_eq]
  split
  next coming =>
    obtain ⟨b, isAhead, same⟩ := List.mem_map.mp coming
    rw [List.count_eq_zero, ← same]
    exact o.turn b isAhead
  next not =>
    rcases o.owed a member isDue plain with isAhead | called
    · exact absurd (List.mem_map_of_mem isAhead) not
    · have one := List.count_pos_iff.mpr called
      have once := o.once (tag a)
      omega

/-- A walk starts at the first element. -/
theorem Ordered.init {elems : List α} {made : Nat} (nodup : (elems.map tag).Nodup) (fresh : ∀ a ∈ elems, tag a < made) :
    (⟨elems, .first tag elems, made, []⟩ : Walk α).Ordered tag due elems [] elems := by
  refine ⟨rfl, rfl, nodup, fresh, ?_, ?_, ?_, ?_, ?_, ?_⟩
  · simp
  · simp
  · simp
  · exact fun a member _ _ => .inl member
  · simp
  · simp

theorem Ordered.tag_ne (o : w.Ordered tag due start behind (a :: ahead)) :
    (∀ x ∈ behind, tag x ≠ tag a) ∧ ∀ x ∈ ahead, tag x ≠ tag a := by
  have nodup := o.nodup
  rw [o.split, List.map_append, List.nodup_append, List.map_cons, List.nodup_cons] at nodup
  obtain ⟨-, ⟨first, -⟩, apart⟩ := nodup
  refine ⟨fun x member => ?_, fun x member same => ?_⟩
  · exact apart _ (List.mem_map_of_mem member) _ List.mem_cons_self
  · exact first (same ▸ List.mem_map_of_mem member)

/-- An element that is not due is passed over. -/
theorem Ordered.pass (o : w.Ordered tag due start behind (a :: ahead)) (notDue : due a = false) :
    ({ w with it := .first tag ahead } : Walk α).Ordered tag due start (behind ++ [a]) ahead where
  split := by simp [o.split]
  next := rfl
  nodup := o.nodup
  fresh := o.fresh
  past := o.past
  turn := fun x member => o.turn x (List.mem_cons_of_mem a member)
  once := o.once
  owed := by
    intro x member isDue plain
    rcases o.owed x member isDue plain with coming | called
    · rcases List.mem_cons.mp coming with rfl | later
      · rw [notDue] at isDue
        cases isDue
      · exact .inl later
    · exact .inr called
  gone := o.gone
  silent := o.silent

/-- The first element to come is called, after it has been changed in place. -/
theorem Ordered.call (o : w.Ordered tag due start behind (a :: ahead)) (g : α → α)
    (same : ∀ x ∈ w.elems, tag (g x) = tag x) (others : ∀ x ∈ w.elems, tag x ≠ tag a → g x = x) :
    (⟨w.elems.map g, .first tag ahead, w.made, w.trace ++ [.called (tag a)]⟩ : Walk α).Ordered tag due start
      (behind ++ [g a]) ahead := by
  obtain ⟨before, after⟩ := o.tag_ne
  have isBehind (x : α) (member : x ∈ behind) : x ∈ w.elems := by simp [o.split, member]
  have isAhead (x : α) (member : x ∈ ahead) : x ∈ w.elems := by simp [o.split, member]
  constructor
  · have left : behind.map g = behind.map id :=
      List.map_congr_left fun x member => others x (isBehind x member) (before x member)
    have right : ahead.map g = ahead.map id :=
      List.map_congr_left fun x member => others x (isAhead x member) (after x member)
    simp [o.split, left, right]
  · rfl
  · rw [map_tag_map same]
    exact o.nodup
  · exact forall_mem_map_tag (P := (· < w.made)) same o.fresh
  · intro k called
    rcases List.mem_append.mp called with old | now
    · exact o.past k old
    · cases List.mem_singleton.mp now
      exact o.fresh a (by simp [o.split])
  · intro x member called
    rcases List.mem_append.mp called with old | now
    · exact o.turn x (List.mem_cons_of_mem a member) old
    · apply after x member
      simpa using now
  · intro k
    have once := o.once k
    have first := List.count_eq_zero.mpr (o.turn a List.mem_cons_self)
    rw [List.count_append, List.count_singleton]
    by_cases current : k = tag a
    · subst current
      simp [first]
    · rw [if_neg (by simpa using Ne.symm current)]
      omega
  · intro x member isDue plain
    rw [early_append_singleton, not_or] at plain
    rcases o.owed x member isDue plain.1 with coming | called
    · rcases List.mem_cons.mp coming with rfl | later
      · exact .inr (by simp)
      · exact .inl later
    · exact .inr (List.mem_append_left _ called)
  · intro k erased
    have old : .erased k ∈ w.trace := by simpa using erased
    obtain ⟨known, absent⟩ := o.gone k old
    exact ⟨known, forall_mem_map_tag (P := (· ≠ k)) same absent⟩
  · refine silent_append_singleton o.silent fun k erased one => ?_
    cases one
    exact (o.gone _ erased).2 a (by simp [o.split]) rfl

/-- An element is changed in place. -/
theorem Ordered.change (o : w.Ordered tag due start behind ahead) (g : α → α) (k : Nat)
    (same : ∀ x ∈ w.elems, tag (g x) = tag x) (others : ∀ x ∈ w.elems, tag x ≠ k → g x = x) :
    ({ w with elems := w.elems.map g, trace := w.trace ++ [.changed k] } : Walk α).Ordered tag due start
      (behind.map g) (ahead.map g) := by
  have isAhead (x : α) (member : x ∈ ahead) : x ∈ w.elems := by simp [o.split, member]
  have called (j : Nat) : .called j ∈ w.trace ++ [.changed k] ↔ .called j ∈ w.trace := by simp
  constructor
  · simp [o.split]
  · show w.it = _
    rw [o.next]
    cases ahead with
    | nil => rfl
    | cons a ahead => rw [List.map_cons, Iter.first, Iter.first, same a (isAhead a List.mem_cons_self)]
  · rw [map_tag_map same]
    exact o.nodup
  · exact forall_mem_map_tag (P := (· < w.made)) same o.fresh
  · intro j isCalled
    exact o.past j ((called j).mp isCalled)
  · intro x member isCalled
    obtain ⟨y, inside, rfl⟩ := List.mem_map.mp member
    rw [same y (isAhead y inside)] at isCalled
    exact o.turn y inside ((called _).mp isCalled)
  · intro j
    simpa [List.count_append, List.count_singleton] using o.once j
  · intro x member isDue plain
    rw [early_append_singleton, not_or] at plain
    rcases o.owed x member isDue plain.1 with coming | isCalled
    · by_cases hit : tag x = k
      · exact absurd ⟨hit.symm, o.turn x coming⟩ plain.2
      · rw [← others x (isAhead x coming) hit]
        exact .inl (List.mem_map_of_mem coming)
    · exact .inr ((called _).mpr isCalled)
  · intro j erased
    have old : .erased j ∈ w.trace := by simpa using erased
    obtain ⟨known, absent⟩ := o.gone j old
    exact ⟨known, forall_mem_map_tag (P := (· ≠ j)) same absent⟩
  · exact silent_append_singleton o.silent fun _ _ => WalkEvent.noConfusion

/-- An element is erased that is not the next one. -/
theorem Ordered.erase (o : w.Ordered tag due start behind ahead) (p : α → Bool) (k : Nat) (known : k < w.made)
    (only : ∀ x ∈ w.elems, p x = false ↔ tag x = k) (stays : w.it ≠ .to k) :
    ({ w with elems := w.elems.filter p, trace := w.trace ++ [.erased k] } : Walk α).Ordered tag due start
      (behind.filter p) (ahead.filter p) := by
  have isAhead (x : α) (member : x ∈ ahead) : x ∈ w.elems := by simp [o.split, member]
  have called (j : Nat) : .called j ∈ w.trace ++ [.erased k] ↔ .called j ∈ w.trace := by simp
  have kept (x : α) (member : x ∈ w.elems) (other : tag x ≠ k) : p x = true := by
    by_contra isFalse
    exact other ((only x member).mp (by simpa using isFalse))
  constructor
  · simp [o.split]
  · show w.it = _
    have next := o.next
    cases ahead with
    | nil => exact next
    | cons a ahead =>
      have other : tag a ≠ k := by
        intro same
        rw [next, Iter.first, same] at stays
        exact stays rfl
      rw [next, List.filter_cons_of_pos (kept a (isAhead a List.mem_cons_self) other)]
      rfl
  · exact o.nodup.sublist (List.filter_sublist.map tag)
  · exact fun x member => o.fresh x (List.mem_of_mem_filter member)
  · intro j isCalled
    exact o.past j ((called j).mp isCalled)
  · intro x member isCalled
    exact o.turn x (List.mem_of_mem_filter member) ((called _).mp isCalled)
  · intro j
    simpa [List.count_append, List.count_singleton] using o.once j
  · intro x member isDue plain
    rw [early_append_singleton, not_or] at plain
    rcases o.owed x member isDue plain.1 with coming | isCalled
    · by_cases hit : tag x = k
      · exact absurd ⟨hit.symm, o.turn x coming⟩ plain.2
      · exact .inl (List.mem_filter.mpr ⟨coming, kept x (isAhead x coming) hit⟩)
    · exact .inr ((called _).mpr isCalled)
  · intro j erased
    rcases List.mem_append.mp erased with old | now
    · obtain ⟨known, absent⟩ := o.gone j old
      exact ⟨known, fun x member => absent x (List.mem_of_mem_filter member)⟩
    · cases List.mem_singleton.mp now
      refine ⟨known, fun x member same => ?_⟩
      obtain ⟨inside, isTrue⟩ := List.mem_filter.mp member
      rw [(only x inside).mpr same] at isTrue
      cases isTrue
  · exact silent_append_singleton o.silent fun _ _ => WalkEvent.noConfusion

/-- A new element comes in on one side of the iterator. -/
theorem Ordered.add (o : w.Ordered tag due start behind ahead) {elems behind' ahead' : List α} (new : tag a = w.made)
    (place : elems.Perm (a :: w.elems)) (split : elems = behind' ++ ahead') (next : w.it = .first tag ahead')
    (keeps : ∀ x ∈ ahead, x ∈ ahead') (only : ∀ x ∈ ahead', x = a ∨ x ∈ ahead) :
    (⟨elems, w.it, w.made + 1, w.trace⟩ : Walk α).Ordered tag due start behind' ahead' := by
  have inside {x : α} (member : x ∈ elems) : x = a ∨ x ∈ w.elems := by simpa using place.mem_iff.mp member
  constructor
  · exact split
  · exact next
  · rw [(place.map tag).nodup_iff, List.map_cons, List.nodup_cons]
    refine ⟨fun member => ?_, o.nodup⟩
    obtain ⟨x, old, same⟩ := List.mem_map.mp member
    have bound := o.fresh x old
    omega
  · intro x member
    rcases inside member with rfl | old
    · exact new ▸ Nat.lt_succ_self _
    · exact Nat.lt_succ_of_lt (o.fresh x old)
  · exact fun k called => Nat.lt_succ_of_lt (o.past k called)
  · intro x member called
    rcases only x member with rfl | old
    · have bound := o.past _ called
      omega
    · exact o.turn x old called
  · exact o.once
  · intro x member isDue plain
    exact (o.owed x member isDue plain).imp_left (keeps x)
  · intro k erased
    obtain ⟨known, absent⟩ := o.gone k erased
    refine ⟨Nat.lt_succ_of_lt known, fun x member => ?_⟩
    rcases inside member with rfl | old
    · omega
    · exact absent x old
  · exact o.silent

/-- A new element comes in between any two. -/
theorem Ordered.insert (o : w.Ordered tag due start behind ahead) {before after : List α}
    (place : w.elems = before ++ after) (new : tag a = w.made) :
    ∃ behind ahead, (⟨before ++ a :: after, w.it, w.made + 1, w.trace⟩ : Walk α).Ordered tag due start behind ahead := by
  have perm : (before ++ a :: after).Perm (a :: w.elems) := place ▸ List.perm_middle
  have same := o.split
  rw [place, List.append_eq_append_iff] at same
  rcases same with ⟨between, rfl, rfl⟩ | ⟨between, rfl, rfl⟩
  · refine ⟨before ++ a :: between, ahead, o.add new perm (by simp) o.next (fun x member => member) fun x member => ?_⟩
    exact .inr member
  · cases between with
    | nil =>
      refine ⟨behind ++ [a], after, o.add new perm (by simp) o.next (fun x member => member) fun x member => ?_⟩
      exact .inr member
    | cons b between =>
      refine ⟨behind, b :: between ++ a :: after, o.add new perm (by simp) o.next ?_ ?_⟩
      · intro x member
        simp only [List.mem_append, List.mem_cons] at member ⊢
        tauto
      · intro x member
        simp only [List.mem_append, List.mem_cons] at member ⊢
        tauto

/-! ## With or without the iterator -/

/-- The iterator has been lost, or the walk goes through the elements in order. -/
def Sound (tag : α → Nat) (due : α → Bool) (start : List α) (w : Walk α) : Prop :=
  w.it = .lost ∨ ∃ behind ahead, w.Ordered tag due start behind ahead

theorem Sound.swept_iff (sound : w.Sound tag due start) : w.Swept tag due start ↔ w.it ≠ .lost := by
  constructor
  · exact fun swept => swept.valid
  · intro valid
    rcases sound with isLost | ⟨behind, ahead, ordered⟩
    · exact absurd isLost valid
    · exact ordered.swept

/-- The iterator refers to the element that comes next. -/
theorem Sound.it_eq_iff (sound : w.Sound tag due start) (valid : w.it ≠ .lost) (nodup : (w.elems.map tag).Nodup)
    (member : a ∈ w.elems) : w.it = .to (tag a) ↔ (w.it.ahead tag w.elems).head? = some a := by
  rcases sound with isLost | ⟨behind, ahead, ordered⟩
  · exact absurd isLost valid
  rw [ordered.ahead_eq, ordered.next]
  cases ahead with
  | nil => simp [Iter.first]
  | cons next rest =>
    have inside : next ∈ w.elems := by simp [ordered.split]
    constructor
    · intro same
      have equal : tag next = tag a := by simpa [Iter.first] using same
      rw [List.inj_on_of_nodup_map nodup inside member equal]
      rfl
    · intro same
      cases same
      rfl

theorem Sound.ahead_ne_nil (sound : w.Sound tag due start) (isTo : w.it = .to k) : w.it.ahead tag w.elems ≠ [] := by
  intro nothing
  rcases sound with isLost | ⟨behind, ahead, ordered⟩
  · rw [isTo] at isLost
    cases isLost
  · obtain rfl : [] = ahead := nothing.symm.trans ordered.ahead_eq
    have next := ordered.next
    rw [isTo] at next
    cases next

variable {rest : List α}

/-- If there is an element to come, then the iterator is good. -/
theorem Sound.ordered (sound : w.Sound tag due start) (coming : w.it.ahead tag w.elems = a :: rest) :
    ∃ behind, w.Ordered tag due start behind (a :: rest) := by
  rcases sound with isLost | ⟨behind, ahead, ordered⟩
  · rw [isLost] at coming
    cases coming
  · obtain rfl : a :: rest = ahead := coming.symm.trans ordered.ahead_eq
    exact ⟨behind, ordered⟩

theorem Sound.init {elems : List α} {made : Nat} (nodup : (elems.map tag).Nodup) (fresh : ∀ a ∈ elems, tag a < made) :
    (⟨elems, .first tag elems, made, []⟩ : Walk α).Sound tag due elems :=
  .inr ⟨_, _, .init nodup fresh⟩

theorem Sound.pass (sound : w.Sound tag due start) (coming : w.it.ahead tag w.elems = a :: rest) (notDue : due a = false) :
    ({ w with it := .first tag rest } : Walk α).Sound tag due start := by
  obtain ⟨behind, ordered⟩ := sound.ordered coming
  exact .inr ⟨_, _, ordered.pass notDue⟩

theorem Sound.call (sound : w.Sound tag due start) (coming : w.it.ahead tag w.elems = a :: rest) (g : α → α)
    (same : ∀ x ∈ w.elems, tag (g x) = tag x) (others : ∀ x ∈ w.elems, tag x ≠ tag a → g x = x) :
    (⟨w.elems.map g, .first tag rest, w.made, w.trace ++ [.called (tag a)]⟩ : Walk α).Sound tag due start := by
  obtain ⟨behind, ordered⟩ := sound.ordered coming
  exact .inr ⟨_, _, ordered.call g same others⟩

theorem Sound.change (sound : w.Sound tag due start) (g : α → α) (k : Nat)
    (same : ∀ x ∈ w.elems, tag (g x) = tag x) (others : ∀ x ∈ w.elems, tag x ≠ k → g x = x) :
    ({ w with elems := w.elems.map g, trace := w.trace ++ [.changed k] } : Walk α).Sound tag due start := by
  refine sound.imp_right ?_
  rintro ⟨behind, ahead, ordered⟩
  exact ⟨_, _, ordered.change g k same others⟩

theorem Sound.erase (sound : w.Sound tag due start) (p : α → Bool) (k : Nat) (known : k < w.made)
    (only : ∀ x ∈ w.elems, p x = false ↔ tag x = k) :
    ({ w with
      elems := w.elems.filter p
      it := if w.it = .to k then .lost else w.it
      trace := w.trace ++ [.erased k] } : Walk α).Sound tag due start := by
  by_cases next : w.it = .to k
  · exact .inl (if_pos next)
  · rw [if_neg next]
    refine sound.imp_right ?_
    rintro ⟨behind, ahead, ordered⟩
    exact ⟨_, _, ordered.erase p k known only next⟩

theorem Sound.insert (sound : w.Sound tag due start) {before after : List α} (place : w.elems = before ++ after)
    (new : tag a = w.made) : (⟨before ++ a :: after, w.it, w.made + 1, w.trace⟩ : Walk α).Sound tag due start := by
  refine sound.imp_right ?_
  rintro ⟨behind, ahead, ordered⟩
  exact ordered.insert place new

end Walk

end Lib
