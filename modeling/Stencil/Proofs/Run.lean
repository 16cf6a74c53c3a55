import Stencil.Engine.Host

/-!
# Runs

Hosts, functions and providers act in a monad. What such a step does is seen when it runs from a
state: it gives an answer and the state after it, or it goes on forever. `Runs` is what a monad has
to offer for that; pure steps, steps with a state of any type and steps that may go on forever do.

`outcome` is how a step that may fail ends. `Tracks` compares two steps, possibly of two monads: from
states that belong together, whenever the first one ends, the second one ends alike, with an answer
or a failure that belongs to the other one. `Follows` is the case in which the failures are equal.

Results:
* `outcome_pure`, `outcome_throw`, `outcome_bind`, `outcome_bind_ok`, `outcome_bind_error`,
  `outcome_pure_bind`, `outcome_bind_assoc`: outcomes of composed steps.
* `Tracks.pure`, `Tracks.throw`, `Tracks.bind`, `Tracks.mono`, `Tracks.congr`, `Tracks.map_ok`: steps
  that track each other can be composed.
* `follows_iff_tracks`, `Follows.bind`, `Follows.bind_of`, ...: so can steps that follow each other.
* `Follows.eq`, `Follows.outcome_eq`: what it means for steps without an excuse to follow each
  other.
* `Follows.preserves`: steps that follow themselves preserve an invariant.
-/

namespace Stencil

/-- A monad whose steps run from a state to an answer and the state after it, or go on forever. -/
class Runs (n : Type → Type) [Monad n] (τ : outParam Type) where
  run {α : Type} : n α → τ → Option (α × τ)
  run_pure {α : Type} (a : α) (s : τ) : run (pure a) s = some (a, s)
  run_map {α β : Type} (f : α → β) (x : n α) (s : τ) :
    run (f <$> x) s = (run x s).map fun p => (f p.1, p.2)
  run_bind {α β : Type} (x : n α) (f : α → n β) (s : τ) :
    run (x >>= f) s = (run x s).bind fun p => run (f p.1) p.2

export Runs (run run_pure run_map run_bind)

attribute [simp] run_pure run_map run_bind

/-- Pure steps have no state. -/
instance : Runs Id Unit where
  run x s := some (x, s)
  run_pure _ _ := rfl
  run_map _ _ _ := rfl
  run_bind _ _ _ := rfl

/-- Steps that may go on forever, without a state. -/
instance : Runs Option Unit where
  run x s := x.map fun a => (a, s)
  run_pure _ _ := rfl
  run_map f x s := by cases x <;> rfl
  run_bind x f s := by cases x <;> rfl

/-- A state on top of another one. -/
instance {n : Type → Type} [Monad n] {σ τ : Type} [Runs n τ] : Runs (StateT σ n) (σ × τ) where
  run x s := (run (x.run s.1) s.2).map fun p => (p.1.1, p.1.2, p.2)
  run_pure a s := by simp
  run_map f x s := by
    simp only [StateT.run, Functor.map, StateT.map]
    rw [run_bind]
    cases run (x s.1) s.2 <;> simp
  run_bind x f s := by
    simp only [StateT.run, bind, StateT.bind]
    rw [run_bind]
    cases run (x s.1) s.2 <;> simp

section Outcome

variable {n : Type → Type} [Monad n] {τ : Type} [Runs n τ] {ε α β γ : Type}

theorem run_stateT {σ : Type} (x : StateT σ n α) (c : σ) (s : τ) :
    run x (c, s) = (run (x.run c) s).map fun p => (p.1.1, p.1.2, p.2) := rfl

theorem run_lift {σ : Type} (x : n α) (c : σ) (s : τ) :
    run (StateT.lift x : StateT σ n α) (c, s) = (run x s).map fun p => (p.1, c, p.2) := by
  rw [run_stateT]
  simp only [StateT.run, StateT.lift, run_bind, run_pure]
  cases run x s <;> rfl

/-- How a step that may fail ends. -/
def outcome (x : ExceptT ε n α) (s : τ) : Option (Except ε α × τ) := run x.run s

@[simp] theorem outcome_pure (a : α) (s : τ) :
    outcome (pure a : ExceptT ε n α) s = some (.ok a, s) := run_pure _ _

@[simp] theorem outcome_throw (e : ε) (s : τ) :
    outcome (throw e : ExceptT ε n α) s = some (.error e, s) := run_pure _ _

@[simp] theorem outcome_mk (x : n (Except ε α)) (s : τ) :
    outcome (ExceptT.mk x) s = run x s := rfl

@[simp] theorem outcome_of (r : Except Failure α) (s : τ) :
    outcome (Rendering.of r : Rendering n α) s = some (r, s) := run_pure _ _

@[simp] theorem outcome_ofAction (x : n (Except Failure α)) (s : τ) :
    outcome (Rendering.ofAction x) s = run x s := rfl

@[simp] theorem outcome_lift (x : n α) (s : τ) :
    outcome (ExceptT.lift x : ExceptT ε n α) s = (run x s).map fun p => (.ok p.1, p.2) := by
  simp [outcome, ExceptT.run, ExceptT.lift, ExceptT.mk]

theorem outcome_bind (x : ExceptT ε n α) (f : α → ExceptT ε n β) (s : τ) :
    outcome (x >>= f) s = (outcome x s).bind fun
      | (.ok a, s') => outcome (f a) s'
      | (.error e, s') => some (.error e, s') := by
  simp only [outcome, bind, ExceptT.bind, ExceptT.run, ExceptT.mk]
  rw [run_bind]
  congr 1
  funext ⟨r, s'⟩
  cases r with
  | ok a => rfl
  | error e => exact run_pure _ _

theorem outcome_bind_ok {x : ExceptT ε n α} {s s' : τ} {a : α}
    (h : outcome x s = some (.ok a, s')) (f : α → ExceptT ε n β) :
    outcome (x >>= f) s = outcome (f a) s' := by
  rw [outcome_bind, h]; rfl

theorem outcome_bind_error {x : ExceptT ε n α} {s s' : τ} {e : ε}
    (h : outcome x s = some (.error e, s')) (f : α → ExceptT ε n β) :
    outcome (x >>= f) s = some (.error e, s') := by
  rw [outcome_bind, h]; rfl

theorem outcome_pure_bind (a : α) (f : α → ExceptT ε n β) :
    outcome (τ := τ) (pure a >>= f) = outcome (f a) := by
  funext s
  exact outcome_bind_ok (outcome_pure a s) f

theorem outcome_of_ok_bind (a : α) (f : α → Rendering n β) :
    outcome (τ := τ) (Rendering.of (.ok a) >>= f) = outcome (f a) := by
  funext s
  exact outcome_bind_ok (outcome_of (.ok a) s) f

theorem outcome_of_error_bind (e : Failure) (f : α → Rendering n β) :
    outcome (τ := τ) (Rendering.of (.error e) >>= f) = outcome (throw e : Rendering n β) := by
  funext s
  rw [outcome_throw]
  exact outcome_bind_error (outcome_of (.error e) s) f

theorem outcome_bind_pure (x : ExceptT ε n α) : outcome (τ := τ) (x >>= pure) = outcome x := by
  funext s
  rw [outcome_bind]
  cases h : outcome x s with
  | none => rfl
  | some p =>
    obtain ⟨r, s'⟩ := p
    cases r with
    | ok a => exact outcome_pure a s'
    | error e => rfl

/-- A composed step depends only on how its first part ends. -/
theorem outcome_bind_of_outcome {x y : ExceptT ε n α} (h : outcome (τ := τ) x = outcome y)
    (f : α → ExceptT ε n β) : outcome (τ := τ) (x >>= f) = outcome (y >>= f) := by
  funext s
  rw [outcome_bind, outcome_bind, h]

theorem outcome_bind_congr (x : ExceptT ε n α) {f g : α → ExceptT ε n β}
    (h : ∀ a, outcome (τ := τ) (f a) = outcome (g a)) :
    outcome (τ := τ) (x >>= f) = outcome (x >>= g) := by
  funext s
  simp only [outcome_bind, h]

theorem outcome_bind_assoc (x : ExceptT ε n α) (f : α → ExceptT ε n β) (g : β → ExceptT ε n γ) :
    outcome (τ := τ) (x >>= f >>= g) = outcome (x >>= fun a => f a >>= g) := by
  funext s
  simp only [outcome_bind]
  cases outcome x s with
  | none => rfl
  | some p =>
    obtain ⟨r, s'⟩ := p
    cases r <;> rfl

theorem outcome_lift_pure (a : α) :
    outcome (τ := τ) (ExceptT.lift (pure a) : ExceptT ε n α) =
      outcome (pure a : ExceptT ε n α) := by
  funext s
  rw [outcome_lift, run_pure, outcome_pure]
  rfl

theorem outcome_mapError {ε' : Type} (f : ε → ε') (x : ExceptT ε n α) (s : τ) :
    outcome (ExceptT.mk (Except.mapError f <$> x.run) : ExceptT ε' n α) s =
      (outcome x s).map fun p => (Except.mapError f p.1, p.2) := by
  rw [outcome_mk, run_map]
  rfl

/-- Lifting a composed step is composing the lifted steps. -/
theorem outcome_lift_bind (x : n α) (f : α → n β) :
    outcome (τ := τ) (ExceptT.lift (x >>= f) : ExceptT ε n β) =
      outcome (ExceptT.lift x >>= fun a => ExceptT.lift (f a)) := by
  funext s
  rw [outcome_lift, run_bind, outcome_bind, outcome_lift]
  cases run x s with
  | none => rfl
  | some p => simp

end Outcome

/-! ## Steps that track each other -/

/-- Two steps end alike: with answers that belong together, or with failures that do. -/
inductive EndsAlike {ε α β : Type} (F : ε → ε → Prop) (R : α → β → Prop) :
    Except ε α → Except ε β → Prop
  | ok {a : α} {b : β} : R a b → EndsAlike F R (.ok a) (.ok b)
  | error {e e' : ε} : F e e' → EndsAlike F R (.error e) (.error e')

section Tracks

variable {n₁ n₂ : Type → Type} [Monad n₁] [Monad n₂] {τ₁ τ₂ : Type} [Runs n₁ τ₁] [Runs n₂ τ₂]
  {ε α β α' β' : Type}

/-- The second step tracks the first one: from states that belong together, if the first one ends,
    and not with an excuse, the second one ends alike, in states that belong together. -/
def Tracks (excuse : ε → Prop) (F : ε → ε → Prop) (S : τ₁ → τ₂ → Prop) (R : α → β → Prop)
    (x : ExceptT ε n₁ α) (y : ExceptT ε n₂ β) : Prop :=
  ∀ ⦃s t⦄, S s t → ∀ ⦃r s'⦄, outcome x s = some (r, s') →
    (∃ e, r = .error e ∧ excuse e) ∨
      ∃ r' t', outcome y t = some (r', t') ∧ S s' t' ∧ EndsAlike F R r r'

variable {excuse : ε → Prop} {F : ε → ε → Prop} {S : τ₁ → τ₂ → Prop} {R : α → β → Prop}
  {R' : α' → β' → Prop} {x : ExceptT ε n₁ α} {y : ExceptT ε n₂ β}

namespace Tracks

theorem pure {a : α} {b : β} (h : R a b) :
    Tracks excuse F S R (pure a : ExceptT ε n₁ α) (pure b : ExceptT ε n₂ β) := by
  intro s t hS r s' hx
  rw [outcome_pure] at hx
  cases hx
  exact .inr ⟨.ok b, t, outcome_pure b t, hS, .ok h⟩

/-- A failure that is excused is tracked by anything. -/
theorem of_excuse {e : ε} (h : excuse e) :
    Tracks excuse F S R (throw e : ExceptT ε n₁ α) y := by
  intro s t hS r s' hx
  rw [outcome_throw] at hx
  cases hx
  exact .inl ⟨e, rfl, h⟩

theorem throw {e e' : ε} (h : F e e') :
    Tracks excuse F S R (throw e : ExceptT ε n₁ α) (throw e' : ExceptT ε n₂ β) := by
  intro s t hS r s' hx
  rw [outcome_throw] at hx
  cases hx
  exact .inr ⟨.error e', t, outcome_throw e' t, hS, .error h⟩

/-- Steps that track each other without an excuse do so with any. -/
theorem excused (h : Tracks (fun _ => False) F S R x y) : Tracks excuse F S R x y := by
  intro s t hS r s' hx
  obtain ⟨_, _, he⟩ | hy := h hS hx
  · exact he.elim
  · exact .inr hy

theorem mono {Q : α → β → Prop} (h : Tracks excuse F S R x y) (hR : ∀ a b, R a b → Q a b) :
    Tracks excuse F S Q x y := by
  intro s t hS r s' hx
  obtain he | ⟨r', t', hy, hS', hr⟩ := h hS hx
  · exact .inl he
  · refine .inr ⟨r', t', hy, hS', ?_⟩
    cases hr with
    | ok hR' => exact .ok (hR _ _ hR')
    | error he => exact .error he

/-- Whether steps track each other depends only on how they end. -/
theorem congr {x' : ExceptT ε n₁ α} {y' : ExceptT ε n₂ β} (h : Tracks excuse F S R x' y')
    (hx : outcome (τ := τ₁) x = outcome x') (hy : outcome (τ := τ₂) y = outcome y') :
    Tracks excuse F S R x y := by
  intro s t hS r s' h'
  rw [hx] at h'
  rw [hy]
  exact h hS h'

theorem bind {f : α → ExceptT ε n₁ α'} {g : β → ExceptT ε n₂ β'} (h : Tracks excuse F S R x y)
    (hf : ∀ a b, R a b → Tracks excuse F S R' (f a) (g b)) :
    Tracks excuse F S R' (x >>= f) (y >>= g) := by
  intro s t hS r s' hx
  rw [outcome_bind] at hx
  obtain ⟨⟨r₁, s₁⟩, hx₁, hx₂⟩ := Option.bind_eq_some_iff.1 hx
  obtain ⟨e, rfl, he⟩ | ⟨r₂, t₁, hy, hS', hr⟩ := h hS hx₁
  · cases hx₂
    exact .inl ⟨e, rfl, he⟩
  · cases hr with
    | ok hR =>
      rw [outcome_bind_ok hy]
      exact hf _ _ hR hS' hx₂
    | error he =>
      cases hx₂
      exact .inr ⟨.error _, t₁, outcome_bind_error hy g, hS', .error he⟩

/-- Steps that end as they are known to end. -/
theorem of_outcome (h : ∀ s t, S s t → ∃ r r' s' t', outcome x s = some (r, s') ∧
    outcome y t = some (r', t') ∧ S s' t' ∧ EndsAlike F R r r') : Tracks excuse F S R x y := by
  intro s t hS r s' hx
  obtain ⟨r₁, r₂, s₁, t₁, h₁, h₂, hS', hr⟩ := h s t hS
  rw [h₁] at hx
  cases hx
  exact .inr ⟨r₂, t₁, h₂, hS', hr⟩

/-- Answers changed by functions that respect what belongs together. -/
theorem map_ok {x : n₁ (Except Failure α)} {y : n₂ (Except Failure β)} {excuse : Failure → Prop}
    {F : Failure → Failure → Prop}
    (h : Tracks excuse F S R (.ofAction x : Rendering n₁ α) (.ofAction y : Rendering n₂ β))
    {f : α → α'} {g : β → β'} (hR : ∀ a b, R a b → R' (f a) (g b)) :
    Tracks excuse F S R' (.ofAction (Except.map f <$> x) : Rendering n₁ α')
      (.ofAction (Except.map g <$> y) : Rendering n₂ β') := by
  intro s t hS r s' hx
  rw [outcome_ofAction, run_map] at hx
  obtain ⟨⟨r₁, s₁⟩, hx₁, hx₂⟩ := Option.map_eq_some_iff.1 hx
  cases hx₂
  rw [← outcome_ofAction] at hx₁
  obtain ⟨e, rfl, he⟩ | ⟨r₂, t₁, hy, hS', hr⟩ := h hS hx₁
  · exact .inl ⟨e, rfl, he⟩
  · rw [outcome_ofAction] at hy
    refine .inr ⟨Except.map g r₂, t₁, by rw [outcome_ofAction, run_map, hy]; rfl, hS', ?_⟩
    cases hr with
    | ok hab => exact .ok (hR _ _ hab)
    | error he => exact .error he

end Tracks

end Tracks

/-! ## Steps that follow each other -/

/-- Two steps end the same way: with answers that belong together, or with the same failure. -/
inductive Ends {ε α β : Type} (R : α → β → Prop) : Except ε α → Except ε β → Prop
  | ok {a : α} {b : β} : R a b → Ends R (.ok a) (.ok b)
  | error (e : ε) : Ends R (.error e) (.error e)

/-- What ends as a success does is a success. -/
theorem Ends.exists_ok {ε α β : Type} {R : α → β → Prop} {x : Except ε α} {b : β}
    (h : Ends R x (.ok b)) : ∃ a, x = .ok a ∧ R a b := by
  cases h with
  | ok h => exact ⟨_, rfl, h⟩

/-- What ends as a failure does is that failure. -/
theorem Ends.eq_error {ε α β : Type} {R : α → β → Prop} {x : Except ε α} {e : ε}
    (h : Ends R x (.error e)) : x = .error e := by
  cases h with
  | error => rfl

theorem Ends.eq {ε α : Type} {x y : Except ε α} (h : Ends Eq x y) : x = y := by
  cases h with
  | ok h => rw [h]
  | error e => rfl

theorem Ends.refl {ε α : Type} (x : Except ε α) : Ends Eq x x := by
  cases x with
  | ok a => exact .ok rfl
  | error e => exact .error e

theorem ends_iff_endsAlike {ε α β : Type} {R : α → β → Prop} {x : Except ε α} {y : Except ε β} :
    Ends R x y ↔ EndsAlike Eq R x y := by
  constructor
  · intro h
    cases h with
    | ok h => exact .ok h
    | error e => exact .error rfl
  · intro h
    cases h with
    | ok h => exact .ok h
    | error h =>
      obtain rfl := h
      exact .error _

section Follows

variable {n₁ n₂ : Type → Type} [Monad n₁] [Monad n₂] {τ₁ τ₂ : Type} [Runs n₁ τ₁] [Runs n₂ τ₂]
  {ε α β α' β' : Type}

/-- The second step follows the first one: from states that belong together, if the first one ends,
    and not with an excuse, the second one ends the same way, in states that belong together. -/
def Follows (excuse : ε → Prop) (S : τ₁ → τ₂ → Prop) (R : α → β → Prop)
    (x : ExceptT ε n₁ α) (y : ExceptT ε n₂ β) : Prop :=
  ∀ ⦃s t⦄, S s t → ∀ ⦃r s'⦄, outcome x s = some (r, s') →
    (∃ e, r = .error e ∧ excuse e) ∨
      ∃ r' t', outcome y t = some (r', t') ∧ S s' t' ∧ Ends R r r'

variable {excuse : ε → Prop} {S : τ₁ → τ₂ → Prop} {R : α → β → Prop} {R' : α' → β' → Prop}
  {x : ExceptT ε n₁ α} {y : ExceptT ε n₂ β}

/-- Steps follow each other if they track each other with the same failures. -/
theorem follows_iff_tracks : Follows excuse S R x y ↔ Tracks excuse Eq S R x y := by
  simp only [Follows, Tracks, ends_iff_endsAlike]

/-- Steps that track each other with the same failures follow each other. -/
theorem Tracks.follows (h : Tracks excuse Eq S R x y) : Follows excuse S R x y :=
  follows_iff_tracks.2 h

/-- Steps that follow each other track each other. -/
theorem Tracks.of_follows {F : ε → ε → Prop} (hF : ∀ e, F e e) (h : Follows excuse S R x y) :
    Tracks excuse F S R x y := by
  intro s t hS r s' hx
  obtain he | ⟨r', t', hy, hS', hr⟩ := h hS hx
  · exact .inl he
  · refine .inr ⟨r', t', hy, hS', ?_⟩
    cases hr with
    | ok hR => exact .ok hR
    | error e => exact .error (hF e)

namespace Follows

theorem pure {a : α} {b : β} (h : R a b) :
    Follows excuse S R (pure a : ExceptT ε n₁ α) (pure b : ExceptT ε n₂ β) :=
  follows_iff_tracks.2 (.pure h)

/-- A failure that is excused is followed by anything. -/
theorem of_excuse {e : ε} (h : excuse e) : Follows excuse S R (throw e : ExceptT ε n₁ α) y :=
  follows_iff_tracks.2 (.of_excuse h)

theorem throw (e : ε) :
    Follows excuse S R (throw e : ExceptT ε n₁ α) (throw e : ExceptT ε n₂ β) :=
  follows_iff_tracks.2 (.throw rfl)

/-- Steps that follow each other without an excuse do so with any. -/
theorem excused (h : Follows (fun _ => False) S R x y) : Follows excuse S R x y :=
  follows_iff_tracks.2 (follows_iff_tracks.1 h).excused

theorem mono {Q : α → β → Prop} (h : Follows excuse S R x y) (hR : ∀ a b, R a b → Q a b) :
    Follows excuse S Q x y :=
  follows_iff_tracks.2 ((follows_iff_tracks.1 h).mono hR)

/-- Whether steps follow each other depends only on how they end. -/
theorem congr {x' : ExceptT ε n₁ α} {y' : ExceptT ε n₂ β} (h : Follows excuse S R x' y')
    (hx : outcome (τ := τ₁) x = outcome x') (hy : outcome (τ := τ₂) y = outcome y') :
    Follows excuse S R x y :=
  follows_iff_tracks.2 ((follows_iff_tracks.1 h).congr hx hy)

theorem bind {f : α → ExceptT ε n₁ α'} {g : β → ExceptT ε n₂ β'} (h : Follows excuse S R x y)
    (hf : ∀ a b, R a b → Follows excuse S R' (f a) (g b)) :
    Follows excuse S R' (x >>= f) (y >>= g) :=
  follows_iff_tracks.2 <|
    (follows_iff_tracks.1 h).bind fun a b hab => follows_iff_tracks.1 (hf a b hab)

/-- Steps that begin with the same value. -/
theorem bind_of {γ : Type} {excuse : Failure → Prop} {v : Except Failure γ}
    {f : γ → Rendering n₁ α} {g : γ → Rendering n₂ β}
    (h : ∀ a, v = .ok a → Follows excuse S R (f a) (g a)) :
    Follows excuse S R (Rendering.of v >>= f) (Rendering.of v >>= g) := by
  cases v with
  | ok a => exact congr (h a rfl) (outcome_of_ok_bind a f) (outcome_of_ok_bind a g)
  | error e => exact congr (throw e) (outcome_of_error_bind e f) (outcome_of_error_bind e g)

/-- Steps that end as they are known to end. -/
theorem of_outcome (h : ∀ s t, S s t → ∃ r r' s' t', outcome x s = some (r, s') ∧
    outcome y t = some (r', t') ∧ S s' t' ∧ Ends R r r') : Follows excuse S R x y := by
  simp only [ends_iff_endsAlike] at h
  exact follows_iff_tracks.2 (.of_outcome h)

/-- Every step follows itself from the same state. -/
theorem same (x : ExceptT ε n₁ α) : Follows excuse Eq Eq x x := by
  rintro s _ rfl r s' hx
  exact .inr ⟨r, s', hx, rfl, .refl r⟩

/-- A step is followed by the step that changes its answers. -/
theorem map_right {x : ExceptT ε n₁ α} {y : ExceptT ε n₁ β} {f : α → β}
    (hy : outcome (τ := τ₁) y = outcome (x >>= fun a => Pure.pure (f a))) (hR : ∀ a, R a (f a)) :
    Follows excuse Eq R x y := by
  refine congr ((same x).bind ?_) (outcome_bind_pure x).symm hy
  rintro a _ rfl
  exact pure (hR a)

/-- A step follows the step that changes its answers. -/
theorem map_left {x : ExceptT ε n₁ α} {y : ExceptT ε n₁ β} {f : α → β} {Q : β → α → Prop}
    (hy : outcome (τ := τ₁) y = outcome (x >>= fun a => Pure.pure (f a))) (hQ : ∀ a, Q (f a) a) :
    Follows excuse Eq Q y x := by
  refine congr ((same x).bind ?_) hy (outcome_bind_pure x).symm
  rintro a _ rfl
  exact pure (hQ a)

/-- Answers changed by functions that respect what belongs together. -/
theorem map_ok {x : n₁ (Except Failure α)} {y : n₂ (Except Failure β)} {excuse : Failure → Prop}
    (h : Follows excuse S R (.ofAction x : Rendering n₁ α) (.ofAction y : Rendering n₂ β))
    {f : α → α'} {g : β → β'} (hR : ∀ a b, R a b → R' (f a) (g b)) :
    Follows excuse S R' (.ofAction (Except.map f <$> x) : Rendering n₁ α')
      (.ofAction (Except.map g <$> y) : Rendering n₂ β') :=
  follows_iff_tracks.2 ((follows_iff_tracks.1 h).map_ok hR)

/-- Steps without an excuse, with their failures changed in the same way. -/
theorem mapError {ε' : Type} (h : Follows (fun _ => False) S R x y) (f : ε → ε') :
    Follows (fun _ => False) S R (ExceptT.mk (Except.mapError f <$> x.run) : ExceptT ε' n₁ α)
      (ExceptT.mk (Except.mapError f <$> y.run) : ExceptT ε' n₂ β) := by
  intro s t hS r s' hx
  rw [outcome_mk, run_map] at hx
  obtain ⟨⟨r₁, s₁⟩, hx₁, hx₂⟩ := Option.map_eq_some_iff.1 hx
  cases hx₂
  rcases h hS hx₁ with ⟨_, _, he⟩ | ⟨r₂, t₁, hy, hS', hr⟩
  · exact he.elim
  · have hy' : run y.run t = some (r₂, t₁) := hy
    refine .inr ⟨Except.mapError f r₂, t₁, by rw [outcome_mk, run_map, hy']; rfl, hS', ?_⟩
    cases hr with
    | ok hR => exact .ok hR
    | error e => exact .error (f e)

/-- A step without an excuse whose answers are known to be equal. -/
theorem eq {y : ExceptT ε n₂ α} (h : Follows (fun _ => False) S Eq x y) {s : τ₁} {t : τ₂}
    (hS : S s t) {r : Except ε α} {s' : τ₁} (hx : outcome x s = some (r, s')) :
    ∃ t', outcome y t = some (r, t') ∧ S s' t' := by
  rcases h hS hx with ⟨_, _, he⟩ | ⟨r', t', hy, hS', hr⟩
  · exact he.elim
  · rw [hr.eq]
    exact ⟨t', hy, hS'⟩

/-- Steps that follow each other both ways end alike, as far as their states can be told apart. -/
theorem outcome_eq {y : ExceptT ε n₂ α} {S' : τ₂ → τ₁ → Prop}
    (h : Follows (fun _ => False) S Eq x y) (h' : Follows (fun _ => False) S' Eq y x) {s : τ₁}
    {t : τ₂} (hS : S s t) (hS' : S' t s) {υ : Type} {f : τ₁ → υ} {g : τ₂ → υ}
    (hseen : ∀ s t, S s t → f s = g t) :
    (outcome y t).map (fun p => (p.1, g p.2)) = (outcome x s).map fun p => (p.1, f p.2) := by
  cases hx : outcome x s with
  | some p =>
    obtain ⟨t', hy, hstates⟩ := h.eq hS hx
    rw [hy, Option.map_some, Option.map_some, hseen _ _ hstates]
  | none =>
    cases hy : outcome y t with
    | none => rfl
    | some p =>
      obtain ⟨s', hx', -⟩ := h'.eq hS' hy
      rw [hx] at hx'
      cases hx'

end Follows

end Follows

/-! ## What steps preserve -/

section Preserves

variable {n : Type → Type} [Monad n] {τ : Type} [Runs n τ] {ε α : Type}

/-- Steps from states with an invariant lead to such states, and their answers have a property. -/
def Preserves (I : τ → Prop) (P : α → Prop) (x : ExceptT ε n α) : Prop :=
  ∀ ⦃s⦄, I s → ∀ ⦃r s'⦄, outcome x s = some (r, s') → I s' ∧ ∀ a, r = .ok a → P a

/-- A step that follows itself from equal states preserves what these states are known for. -/
theorem Follows.preserves {S : τ → τ → Prop} {P : α → Prop} {x : ExceptT ε n α}
    (h : Follows (fun _ => False) S (fun a b => a = b ∧ P a) x x) :
    Preserves (fun s => S s s) P x := by
  intro s hs r s' hx
  rcases h hs hx with ⟨_, _, he⟩ | ⟨r', t', hy, hS', hr⟩
  · exact he.elim
  · rw [hx] at hy
    cases hy
    refine ⟨hS', ?_⟩
    rintro a rfl
    cases hr with
    | ok hP => exact hP.2

end Preserves

end Stencil
