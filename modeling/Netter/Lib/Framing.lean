import Mathlib.Data.List.Basic

/-!
# Greedy decoders of a stream that arrives in pieces

A decoder looks at the front of its input and either asks for more, takes a frame, or stops for
good. `run` decodes as much of a buffer as it can; `feed` does so with the bytes left over from
before and the ones that have just arrived. A decoder has to be stable: what it says about some
input it says about every longer one. `foldl_feed` is what this is for: the pieces do not matter.
-/

namespace Lib.Framing

/-- What a decoder says about the front of its input. -/
inductive Verdict (σ : Type*) where
  | more
  | stop (s : σ)
  | frame (size : Nat) (s : σ)

structure Decoder (σ β : Type*) where
  step : σ → List β → Verdict σ
  frame_pos : ∀ {s s' xs k}, step s xs = .frame k s' → 0 < k
  frame_le : ∀ {s s' xs k}, step s xs = .frame k s' → k ≤ xs.length
  frame_append : ∀ {s s' xs k} (ys : List β), step s xs = .frame k s' → step s (xs ++ ys) = .frame k s'
  stop_append : ∀ {s s' xs} (ys : List β), step s xs = .stop s' → step s (xs ++ ys) = .stop s'

/-- Where a decoder stands: it waits with an incomplete rest, or has stopped. -/
inductive Outcome (σ β : Type*) where
  | waiting (s : σ) (rest : List β)
  | stopped (s : σ)

def Outcome.state {σ β : Type*} : Outcome σ β → σ
  | .waiting s _ => s
  | .stopped s => s

/-- The input that is left over. -/
def Outcome.rest {σ β : Type*} : Outcome σ β → List β
  | .waiting _ rest => rest
  | .stopped _ => []

namespace Decoder

variable {σ β : Type*} (d : Decoder σ β)

/-- Decode all that can be decoded. -/
def run (s : σ) (xs : List β) : Outcome σ β :=
  match _verdict : d.step s xs with
  | .more => .waiting s xs
  | .stop s' => .stopped s'
  | .frame k s' => run s' (xs.drop k)
termination_by xs.length
decreasing_by
  have pos := d.frame_pos _verdict
  have le := d.frame_le _verdict
  rw [List.length_drop]
  omega

/-- The bytes that have just arrived are decoded behind the ones left over. -/
def feed (o : Outcome σ β) (chunk : List β) : Outcome σ β :=
  match o with
  | .waiting s rest => d.run s (rest ++ chunk)
  | .stopped s => .stopped s

section Unfold

variable {d} {s s' : σ} {xs : List β} {k : Nat}

theorem run_of_more (verdict : d.step s xs = .more) : d.run s xs = .waiting s xs := by
  rw [run]
  split <;> simp_all

theorem run_of_stop (verdict : d.step s xs = .stop s') : d.run s xs = .stopped s' := by
  rw [run]
  split <;> simp_all

theorem run_of_frame (verdict : d.step s xs = .frame k s') : d.run s xs = d.run s' (xs.drop k) := by
  rw [run]
  split <;> simp_all

end Unfold

/-- The rest a decoder waits with is a tail of its input, and not complete. -/
theorem rest_of_run {s s' : σ} {xs rest : List β} (run : d.run s xs = .waiting s' rest) :
    rest <:+ xs ∧ d.step s' rest = .more := by
  induction n : xs.length using Nat.strongRecOn generalizing s xs with
  | _ n ih =>
    cases verdict : d.step s xs with
    | more =>
      rw [run_of_more verdict] at run
      cases run
      exact ⟨List.suffix_rfl, verdict⟩
    | stop s'' =>
      rw [run_of_stop verdict] at run
      cases run
    | frame k s'' =>
      rw [run_of_frame verdict] at run
      have pos := d.frame_pos verdict
      have le := d.frame_le verdict
      obtain ⟨tail, more⟩ := ih (xs.drop k).length (by rw [List.length_drop]; omega) run rfl
      exact ⟨tail.trans (List.drop_suffix k xs), more⟩

theorem length_rest_feed (o : Outcome σ β) (chunk : List β) :
    (d.feed o chunk).rest.length ≤ o.rest.length + chunk.length := by
  cases o with
  | stopped s => exact Nat.zero_le _
  | waiting s rest =>
    rw [feed, Outcome.rest, ← List.length_append]
    cases run : d.run s (rest ++ chunk) with
    | stopped s' => exact Nat.zero_le _
    | waiting s' rest' => exact (d.rest_of_run run).1.length_le

/-- Decoding a longer input is decoding its front and then feeding the rest. -/
theorem run_append (s : σ) (xs ys : List β) : d.run s (xs ++ ys) = d.feed (d.run s xs) ys := by
  induction n : xs.length using Nat.strongRecOn generalizing s xs with
  | _ n ih =>
    cases verdict : d.step s xs with
    | more =>
      rw [run_of_more verdict]
      rfl
    | stop s' =>
      rw [run_of_stop verdict, run_of_stop (d.stop_append ys verdict)]
      rfl
    | frame k s' =>
      have pos := d.frame_pos verdict
      have le := d.frame_le verdict
      rw [run_of_frame verdict, run_of_frame (d.frame_append ys verdict),
        List.drop_append_of_le_length le]
      exact ih (xs.drop k).length (by rw [List.length_drop]; omega) s' (xs.drop k) rfl

/-- **The pieces do not matter.** Feeding them one by one is decoding their concatenation. -/
theorem foldl_feed (s : σ) (xs : List β) (chunks : List (List β)) :
    chunks.foldl d.feed (d.run s xs) = d.run s (xs ++ chunks.flatten) := by
  induction chunks generalizing xs with
  | nil => simp
  | cons chunk chunks ih =>
    rw [List.foldl_cons, ← run_append, ih, List.flatten_cons, List.append_assoc]

end Decoder

end Lib.Framing
