/-!
# Weakest preconditions for state with exceptions

`wp x Q E s` says how the computation `x` ends when it is started in `s`: with a result that
satisfies `Q`, or with an exception that satisfies `E`, in both cases together with the state it
leaves. The simp set runs straight-line code; `wp.mono` puts the lemma about a call in its place.
A program whose `E` is `Never` throws nothing.
-/

namespace Lib

variable {ε σ α β : Type}

/-- How `x` ends when started in `s`. -/
def wp (x : EStateM ε σ α) (Q : α → σ → Prop) (E : ε → σ → Prop) (s : σ) : Prop :=
  match x.run s with
  | .ok a t => Q a t
  | .error e t => E e t

/-- No exception leaves the program. -/
def Never : ε → σ → Prop := fun _ _ => False

/-- The program returns, and with `Q`. -/
theorem wp_never {x : EStateM ε σ α} {Q : α → σ → Prop} {s : σ} :
    wp x Q Never s ↔ ∃ a t, x.run s = .ok a t ∧ Q a t := by
  unfold wp
  constructor
  · intro h
    cases run : x.run s with
    | ok a t =>
      rw [run] at h
      exact ⟨a, t, rfl, h⟩
    | error e t =>
      rw [run] at h
      exact h.elim
  · rintro ⟨a, t, run, h⟩
    rw [run]
    exact h

theorem wp.of_run {x : EStateM ε σ α} {Q : α → σ → Prop} {E : ε → σ → Prop} {s t : σ} {a : α} (h : wp x Q E s)
    (run : x.run s = .ok a t) : Q a t := by
  unfold wp at h
  rw [run] at h
  exact h

theorem wp.mono {x : EStateM ε σ α} {Q Q' : α → σ → Prop} {E E' : ε → σ → Prop} {s : σ}
    (h : wp x Q E s) (result : ∀ a t, Q a t → Q' a t) (exception : ∀ e t, E e t → E' e t) :
    wp x Q' E' s := by
  unfold wp at h ⊢
  cases run : x.run s with
  | ok a t =>
    rw [run] at h
    exact result a t h
  | error e t =>
    rw [run] at h
    exact exception e t h

/-- A lemma about a call that throws nothing, used inside any program. -/
theorem wp.call {x : EStateM ε σ α} {Q Q' : α → σ → Prop} {E : ε → σ → Prop} {s : σ}
    (h : wp x Q Never s) (result : ∀ a t, Q a t → Q' a t) : wp x Q' E s :=
  h.mono result fun _ _ impossible => impossible.elim

/-- The same, when what follows has to know which run it was. -/
theorem wp.call_run {x : EStateM ε σ α} {Q Q' : α → σ → Prop} {E : ε → σ → Prop} {s : σ}
    (h : wp x Q Never s) (result : ∀ a t, x.run s = .ok a t → Q a t → Q' a t) : wp x Q' E s := by
  obtain ⟨a, t, run, post⟩ := wp_never.mp h
  unfold wp
  rw [run]
  exact result a t run post

/-- Two things that are known of one run. -/
theorem wp.and {x : EStateM ε σ α} {Q Q' : α → σ → Prop} {E E' : ε → σ → Prop} {s : σ} (h : wp x Q E s)
    (h' : wp x Q' E' s) : wp x (fun a t => Q a t ∧ Q' a t) (fun e t => E e t ∧ E' e t) s := by
  unfold wp at h h' ⊢
  cases run : x.run s with
  | ok a t =>
    rw [run] at h h'
    exact ⟨h, h'⟩
  | error e t =>
    rw [run] at h h'
    exact ⟨h, h'⟩

section Rules

variable {Q : α → σ → Prop} {E : ε → σ → Prop} {s : σ}

@[simp] theorem wp_pure (a : α) : wp (pure a) Q E s ↔ Q a s := Iff.rfl

@[simp] theorem wp_bind {Q : β → σ → Prop} (x : EStateM ε σ α) (f : α → EStateM ε σ β) :
    wp (x >>= f) Q E s ↔ wp x (fun a t => wp (f a) Q E t) E s := by
  unfold wp
  rw [EStateM.run_bind]
  cases x.run s <;> rfl

@[simp] theorem wp_map {Q : β → σ → Prop} (f : α → β) (x : EStateM ε σ α) :
    wp (f <$> x) Q E s ↔ wp x (fun a => Q (f a)) E s := by
  rw [map_eq_pure_bind, wp_bind]
  rfl

@[simp] theorem wp_discard {Q : PUnit → σ → Prop} (x : EStateM ε σ α) :
    wp (discard x) Q E s ↔ wp x (fun _ => Q ⟨⟩) E s := wp_map _ x

@[simp] theorem wp_get {Q : σ → σ → Prop} : wp get Q E s ↔ Q s s := Iff.rfl

@[simp] theorem wp_set {Q : PUnit → σ → Prop} (t : σ) : wp (set t) Q E s ↔ Q ⟨⟩ t := Iff.rfl

@[simp] theorem wp_modify {Q : PUnit → σ → Prop} (f : σ → σ) : wp (modify f) Q E s ↔ Q ⟨⟩ (f s) :=
  Iff.rfl

/-- A caught exception keeps the state it was thrown in. -/
@[simp] theorem wp_tryCatch (x : EStateM ε σ α) (handle : ε → EStateM ε σ α) :
    wp (tryCatch x handle) Q E s ↔ wp x Q (fun e t => wp (handle e) Q E t) s := by
  have run : (tryCatch x handle).run s = match x.run s with
      | .ok a t => .ok a t
      | .error e t => (handle e).run t := by
    show EStateM.tryCatch x handle s = _
    unfold EStateM.tryCatch EStateM.run
    cases x s <;> rfl
  unfold wp
  rw [run]
  cases x.run s <;> rfl

@[simp] theorem wp_ofExcept_ok (a : α) : wp (MonadExcept.ofExcept (.ok a)) Q E s ↔ Q a s := Iff.rfl

@[simp] theorem wp_ofExcept_error (e : ε) :
    wp (MonadExcept.ofExcept (.error e) : EStateM ε σ α) Q E s ↔ E e s := Iff.rfl

/-- A condition is decided before its branch is run. -/
theorem wp_ite (c : Prop) [Decidable c] (x y : EStateM ε σ α) :
    wp (if c then x else y) Q E s ↔ if c then wp x Q E s else wp y Q E s := by
  split <;> rfl

/-- A program over a part `τ` of the state, run on the whole. -/
def zoom {τ : Type} (part : σ → τ) (put : σ → τ → σ) (x : EStateM ε τ α) : EStateM ε σ α := fun s =>
  match x.run (part s) with
  | .ok a t => .ok a (put s t)
  | .error e t => .error e (put s t)

@[simp] theorem wp_zoom {τ : Type} (part : σ → τ) (put : σ → τ → σ) (x : EStateM ε τ α) :
    wp (zoom part put x) Q E s ↔ wp x (fun a t => Q a (put s t)) (fun e t => E e (put s t)) (part s) := by
  have run : (zoom part put x).run s = match x.run (part s) with
      | .ok a t => .ok a (put s t)
      | .error e t => .error e (put s t) := rfl
  unfold wp
  rw [run]
  cases x.run (part s) <;> rfl

end Rules

/-- The first round of a loop, and then the others. -/
theorem wp_forM_cons {Q : PUnit → σ → Prop} {E : ε → σ → Prop} {f : α → EStateM ε σ PUnit} {a : α} {l : List α} {s : σ} :
    wp ((a :: l).forM f) Q E s ↔ wp (f a) (fun _ t => wp (l.forM f) Q E t) E s := by
  have unfolded : (a :: l).forM f = (f a >>= fun _ => l.forM f) := rfl
  rw [unfolded, wp_bind]

/-- A loop keeps what each of its rounds keeps. -/
theorem wp_forM {I : σ → Prop} {E : ε → σ → Prop} {f : α → EStateM ε σ PUnit} {l : List α}
    (round : ∀ a ∈ l, ∀ s, I s → wp (f a) (fun _ => I) E s) {s : σ} (start : I s) :
    wp (l.forM f) (fun _ => I) E s := by
  induction l generalizing s with
  | nil => exact start
  | cons a l ih =>
    rw [wp_forM_cons]
    refine (round a List.mem_cons_self s start).mono (fun _ t kept => ?_) fun _ _ h => h
    exact ih (fun b member => round b (List.mem_cons_of_mem a member)) kept

/-- At most one round. -/
theorem wp_option_forM {I : σ → Prop} {E : ε → σ → Prop} {f : α → EStateM ε σ PUnit} {o : Option α}
    {s : σ} (round : ∀ a, o = some a → wp (f a) (fun _ => I) E s) (start : I s) :
    wp (o.forM f) (fun _ => I) E s := by
  cases o with
  | none => exact start
  | some a => exact round a rfl

/-! ## What every return keeps -/

section Keeps

variable {I : σ → Prop} {x : EStateM ε σ α} {s : σ}

/-- `I` holds again whenever the program returns; where it throws, nothing is said. -/
def Keeps (I : σ → Prop) (x : EStateM ε σ α) : Prop := ∀ s, I s → wp x (fun _ => I) (fun _ _ => True) s

theorem Keeps.bind {f : α → EStateM ε σ β} (first : Keeps I x) (rest : ∀ a, Keeps I (f a)) : Keeps I (x >>= f) := by
  intro s start
  rw [wp_bind]
  exact (first s start).mono (fun a t kept => rest a t kept) fun _ _ h => h

theorem Keeps.discard (keeps : Keeps I x) : Keeps I (discard x) := fun s start => (wp_discard x).mpr (keeps s start)

/-- What comes next may look at the state that the call has left. -/
theorem Keeps.call {f : α → EStateM ε σ β} (first : Keeps I x) (start : I s)
    (rest : ∀ a t, I t → wp (f a) (fun _ => I) (fun _ _ => True) t) :
    wp (x >>= f) (fun _ => I) (fun _ _ => True) s := by
  rw [wp_bind]
  exact (first s start).mono rest fun _ _ h => h

theorem Keeps.run (keeps : Keeps I x) (start : I s) {a : α} {t : σ} (run : x.run s = .ok a t) : I t := by
  have kept := keeps s start
  unfold wp at kept
  rw [run] at kept
  exact kept

end Keeps

end Lib
