import Netter.Http.Feed

/-!
# A request and what follows it

A request is complete with the byte that ends its message. The parser is then left for another protocol, or
it goes on with the bytes behind as a message of its own, and as if they came in a call of their own.
-/

namespace Netter.Http

open Lib

variable {p : HttpParser} {r : Run} {data request behind : List UInt8}

/-! ## Without a URL -/

/-- No URL has been called back. -/
def Run.Early : Run → Prop
  | .going e => Marks e ∧ e.bodyMark = none ∧ e.parser.state.early = true
  | .left _ => True

theorem Run.Early.step (early : r.Early) (ch : UInt8) :
    (∃ bytes, .url bytes ∈ (r.step ch).2) ∨ (r.step ch).2 = [] ∧ (r.step ch).1.Early := by
  cases r with
  | left p => exact .inr ⟨rfl, trivial⟩
  | going e =>
    obtain ⟨marks, noBody, early⟩ := early
    have still := Exec.early_byte ch marks noBody early
    have fits := marks.fits_byte ch
    cases out : e.byte ch [] with
    | next t calls skipped =>
      rw [out] at still fits
      rw [Run.step_next out]
      rcases still with url | ⟨nothing, early, noBody⟩
      · exact .inl url
      · refine .inr ⟨nothing, fits.2.1, ?_, early⟩
        rw [Exec.advance, noBody]
        rfl
    | leave p calls =>
      rw [out] at still
      rw [Run.step_leave out]
      exact .inr ⟨still, trivial⟩

theorem Run.Early.feed (early : r.Early) (data : List UInt8) :
    (∃ bytes, .url bytes ∈ (emit Run.step r data).2) ∨ (emit Run.step r data).2 = [] ∧ (emit Run.step r data).1.Early := by
  induction data generalizing r with
  | nil => exact .inr ⟨rfl, early⟩
  | cons ch rest ih =>
    rw [emit_cons]
    rcases early.step ch with ⟨bytes, member⟩ | ⟨nothing, still⟩
    · exact .inl ⟨bytes, List.mem_append_left _ member⟩
    · rcases ih still with ⟨bytes, member⟩ | ⟨nothing', last⟩
      · exact .inl ⟨bytes, List.mem_append_right _ member⟩
      · refine .inr ⟨?_, last⟩
        simp only [nothing, nothing', List.append_nil]

theorem Run.Early.finish (early : r.Early) : (∃ bytes, .url bytes ∈ r.finish.2) ∨ r.finish.2 = [] := by
  cases r with
  | left p => exact .inr rfl
  | going e =>
    obtain ⟨-, noBody, -⟩ := early
    simp only [Run.finish, Exec.leftover, noBody]
    cases e.urlMark with
    | none => exact .inr rfl
    | some bytes => exact .inl ⟨bytes, by simp⟩

/-- **Nothing is called back without a URL.** -/
theorem HttpParser.Ready.execute_nil (ready : p.Ready) (noUrl : ∀ bytes, .url bytes ∉ (p.execute data).2) :
    (p.execute data).2 = [] := by
  rw [ready.execute_eq] at noUrl ⊢
  have early : Run.Early (.going ⟨p, none, none⟩) := by
    refine ⟨ready.marks, rfl, ?_⟩
    have start := ready.start
    cases state : p.state <;> rw [state] at start <;> first | rfl | cases start
  rcases early.feed data with ⟨bytes, member⟩ | ⟨nothing, still⟩
  · exact absurd (List.mem_append_left _ member) (noUrl bytes)
  · rcases still.finish with ⟨bytes, member⟩ | nothing'
    · exact absurd (List.mem_append_right _ member) (noUrl bytes)
    · exact List.append_eq_nil_iff.mpr ⟨nothing, nothing'⟩

/-! ## A complete request -/

/-- The message ends with the last byte. -/
structure Complete (request : List UInt8) : Prop where
  done : .messageComplete ∈ (HttpParser.init.execute request).2
  first : ∀ front, front <+: request → front ≠ request → .messageComplete ∉ (HttpParser.init.execute front).2

/-- It is enough to look at the prefixes by their lengths. -/
theorem Complete.of_take (done : .messageComplete ∈ (HttpParser.init.execute request).2)
    (first : ∀ k < request.length, .messageComplete ∉ (HttpParser.init.execute (request.take k)).2) : Complete request := by
  refine ⟨done, fun front isPrefix other => ?_⟩
  rw [List.prefix_iff_eq_take.mp isPrefix]
  apply first
  apply Nat.lt_of_le_of_ne isPrefix.length_le
  intro same
  exact other (isPrefix.eq_of_length same)

/-- The last byte completes the message. -/
theorem Complete.last_byte (complete : Complete request) : ∃ front last, request = front ++ [last] ∧
    .messageComplete ∉ (HttpParser.init.feed front).2 ∧
      .messageComplete ∈ (Run.step (HttpParser.init.feed front).1 last).2 := by
  have ready := HttpParser.ready_init
  have done := ready.complete_iff.mp complete.done
  rcases List.eq_nil_or_concat request with rfl | ⟨front, last, rfl⟩
  · cases done
  · rw [List.concat_eq_append] at done
    have before : .messageComplete ∉ (HttpParser.init.feed front).2 := by
      rw [← ready.complete_iff]
      apply complete.first front
      · exact ⟨[last], (List.concat_eq_append).symm⟩
      · simp
    rw [HttpParser.feed, emit_append] at done
    have ends := (List.mem_append.mp done).resolve_left before
    rw [emit_cons, emit_nil, List.append_nil] at ends
    exact ⟨front, last, List.concat_eq_append, before, ends⟩

theorem Complete.rested (complete : Complete request) : (HttpParser.init.feed request).1.Rested := by
  obtain ⟨front, last, rfl, -, ends⟩ := complete.last_byte
  rw [HttpParser.feed, emit_append, emit_cons, emit_nil]
  exact (HttpParser.ready_init.feed_marked front).1.rested ends

/-- **What follows a request** is not parsed, or it is parsed as a message of its own. -/
theorem Complete.execute_append (complete : Complete request) (behind : List UInt8) :
    (HttpParser.init.execute request).1.upgrade = true ∧
        (HttpParser.init.execute (request ++ behind)).2 = (HttpParser.init.execute request).2 ∨
      (HttpParser.init.execute request).1.upgrade = false ∧ (HttpParser.init.execute request).1.Ready ∧
        (HttpParser.init.execute (request ++ behind)).2 =
          (HttpParser.init.execute request).2 ++ ((HttpParser.init.execute request).1.execute behind).2 := by
  have ready := HttpParser.ready_init
  have rested := complete.rested
  have both : HttpParser.init.feed (request ++ behind) =
      ((emit Run.step (HttpParser.init.feed request).1 behind).1,
        (HttpParser.init.feed request).2 ++ (emit Run.step (HttpParser.init.feed request).1 behind).2) := emit_append
  rw [ready.execute_eq, ready.execute_eq, both]
  cases stands : (HttpParser.init.feed request).1 with
  | left p =>
    rw [stands] at rested
    refine .inl ⟨rested, ?_⟩
    rw [emit_of_still fun _ => rfl]
    simp [Run.finish]
  | going e =>
    rw [stands] at rested
    obtain ⟨p, urlMark, bodyMark⟩ := e
    obtain ⟨⟨rfl, rfl, running⟩, start⟩ := rested
    have next : p.Ready := ⟨running, start⟩
    refine .inr ⟨running.2, next, ?_⟩
    show _ = _ ++ (p.execute behind).2
    rw [next.execute_eq]
    simp [Run.finish, Exec.leftover, HttpParser.feed]

end Netter.Http
