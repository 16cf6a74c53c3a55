import Stencil.Proofs.Comparisons

/-!
# Hosts that follow each other

Rendering asks its host for functions and templates, step by step. Where the functions of two hosts
follow each other, so do the evaluations of every expression that calls only these; where their
templates do as well, so does every way of finding one.

Results:
* `Host.evaluate_follows`: evaluation.
* `Host.print_follows`, `Host.parent_follows`, `Host.passed_follows`: the parts of rendering that
  evaluate something.
* `Host.find_follows`, `Host.optional_follows`, `Host.included?_follows`: templates.
* `Host.outcome_insertion?_named`, `Host.outcome_insertion?_embedded`: includes, step by step.
-/

namespace Stencil

section Hosts

variable {n₁ n₂ : Type → Type} [Monad n₁] [Monad n₂] {τ₁ τ₂ : Type} [Runs n₁ τ₁] [Runs n₂ τ₂]
  {T₁ T₂ : Type}

theorem Follows.of_same (excuse : Failure → Prop) (S : τ₁ → τ₂ → Prop) {α : Type}
    (r : Except Failure α) :
    Follows excuse S Eq (.of r : Rendering n₁ α) (.of r : Rendering n₂ α) :=
  .of_outcome fun s t hS => ⟨r, r, s, t, outcome_of r s, outcome_of r t, hS, .refl r⟩

/-- The function of a name follows that of another host, called with any values. -/
def FunctionFollows (excuse : Failure → Prop) (S : τ₁ → τ₂ → Prop) (h₁ : Host n₁ T₁)
    (h₂ : Host n₂ T₂) (name : String) : Prop :=
  FunctionCompares (.follows excuse S) h₁ h₂ name

/-- Two hosts answer the same questions about templates, with trees that belong together. -/
structure TemplatesFollow (excuse : Failure → Prop) (S : τ₁ → τ₂ → Prop) (T : T₁ → T₂ → Prop)
    (h₁ : Host n₁ T₁) (h₂ : Host n₂ T₂) : Prop where
  has : ∀ name, Follows excuse S Eq (ExceptT.lift (h₁.has name) : Rendering n₁ Bool)
    (ExceptT.lift (h₂.has name) : Rendering n₂ Bool)
  load : ∀ name, Follows excuse S T (.ofAction (h₁.load name) : Rendering n₁ T₁)
    (.ofAction (h₂.load name) : Rendering n₂ T₂)

namespace Host

variable {excuse : Failure → Prop} {S : τ₁ → τ₂ → Prop} {T : T₁ → T₂ → Prop}
  {h₁ : Host n₁ T₁} {h₂ : Host n₂ T₂}

/-! ## Evaluation -/

/-- Evaluation follows if the called functions do. -/
theorem evaluate_follows (hs : h₁.settings = h₂.settings) (context : Context) (e : Expr)
    (h : ∀ name ∈ e.calls, FunctionFollows excuse S h₁ h₂ name) :
    Follows excuse S Eq (h₁.evaluate context e) (h₂.evaluate context e) :=
  evaluate_compares (c := .follows excuse S) hs context e h

theorem evaluateAll_follows (hs : h₁.settings = h₂.settings) (context : Context)
    (items : List Expr) (h : ∀ name ∈ Expr.callsInAll items, FunctionFollows excuse S h₁ h₂ name) :
    Follows excuse S Eq (h₁.evaluateAll context items) (h₂.evaluateAll context items) :=
  evaluateAll_compares (c := .follows excuse S) hs context items h

theorem print_follows (hs : h₁.settings = h₂.settings) (context : Context) {e : Expr}
    (h : ∀ name ∈ e.calls, FunctionFollows excuse S h₁ h₂ name) :
    Follows excuse S Eq (h₁.print context e) (h₂.print context e) :=
  print_compares (c := .follows excuse S) hs context h

theorem passed_follows (hs : h₁.settings = h₂.settings) (context : Context)
    {bindings : Option Expr}
    (h : ∀ e ∈ bindings, ∀ name ∈ e.calls, FunctionFollows excuse S h₁ h₂ name) :
    Follows excuse S Eq (h₁.passed context bindings) (h₂.passed context bindings) :=
  passed_compares (c := .follows excuse S) hs context h

/-! ## Templates -/

/-- An array of strings stands for them. -/
theorem candidates_strings (names : List String) :
    candidates (.array (names.map .string)) = .ok names := by
  simp only [candidates]
  induction names with
  | nil => rfl
  | cons name rest ih =>
    rw [List.map_cons, List.mapM_cons, ih]
    rfl

theorem firstOf_follows (hhas : ∀ name, Follows excuse S Eq
      (ExceptT.lift (h₁.has name) : Rendering n₁ Bool)
      (ExceptT.lift (h₂.has name) : Rendering n₂ Bool)) (names : List String) :
    Follows excuse S Eq (ExceptT.lift (h₁.firstOf names) : Rendering n₁ (Option String))
      (ExceptT.lift (h₂.firstOf names) : Rendering n₂ (Option String)) := by
  induction names with
  | nil => exact Follows.congr (.pure rfl) (outcome_lift_pure none) (outcome_lift_pure none)
  | cons name rest ih =>
    refine Follows.congr ((hhas name).bind ?_) (outcome_lift_bind _ _) (outcome_lift_bind _ _)
    rintro there _ rfl
    cases there with
    | true => exact Follows.congr (.pure rfl) (outcome_lift_pure _) (outcome_lift_pure _)
    | false => exact ih

theorem find_follows (ht : TemplatesFollow excuse S T h₁ h₂) (names : List String) :
    Follows excuse S T (h₁.find names) (h₂.find names) := by
  refine (firstOf_follows ht.has names).bind ?_
  rintro found _ rfl
  cases found with
  | none => exact .throw _
  | some name => exact ht.load name

/-- Among no names there is no template. -/
theorem outcome_find_nil {n : Type → Type} [Monad n] {τ : Type} [Runs n τ] {T : Type}
    (host : Host n T) :
    outcome (τ := τ) (host.find []) = outcome (throw (.templateNotFound "") : Rendering n T) := by
  funext s
  have hnone : outcome (ExceptT.lift (host.firstOf []) : Rendering n (Option String)) s =
      some (.ok none, s) := (congrFun (outcome_lift_pure none) s).trans (outcome_pure none s)
  exact outcome_bind_ok hnone _

/-- A template is found among some names. -/
theorem find_follows_of_ne_nil (ht : TemplatesFollow excuse S T h₁ h₂) (names : List String) :
    Follows excuse S (fun t u => T t u ∧ names ≠ []) (h₁.find names) (h₂.find names) := by
  cases names with
  | nil => exact Follows.congr (.throw _) (outcome_find_nil h₁) (outcome_find_nil h₂)
  | cons name rest => exact (find_follows ht _).mono fun _ _ h => ⟨h, List.cons_ne_nil name rest⟩

theorem resolve_of_candidates {n : Type → Type} [Monad n] {T : Type} (host : Host n T)
    {value : Value} {names : List String} (h : candidates value = .ok names) (span : Span) :
    host.resolve value span = host.find names := by
  unfold resolve
  rw [h]

theorem resolve_of_misfit {n : Type → Type} [Monad n] {T : Type} (host : Host n T) {value : Value}
    {misfit : Misfit} (h : candidates value = .error misfit) (span : Span) :
    host.resolve value span = throw (.misfit misfit span) := by
  unfold resolve
  rw [h]

theorem resolve_follows (hfind : ∀ names, Follows excuse S T (h₁.find names) (h₂.find names))
    (value : Value) (span : Span) :
    Follows excuse S T (h₁.resolve value span) (h₂.resolve value span) := by
  unfold resolve
  cases candidates value with
  | error misfit => exact .throw _
  | ok names => exact hfind names

theorem parent_follows (hs : h₁.settings = h₂.settings)
    (hfind : ∀ names, Follows excuse S T (h₁.find names) (h₂.find names)) (context : Context)
    {e : Expr} (h : ∀ name ∈ e.calls, FunctionFollows excuse S h₁ h₂ name) :
    Follows excuse S T (h₁.parent context e) (h₂.parent context e) := by
  refine (evaluate_follows hs context e h).bind ?_
  rintro value _ rfl
  exact resolve_follows hfind value e.span

theorem outcome_optional {n : Type → Type} [Monad n] {τ : Type} [Runs n τ] {α : Type}
    (forgiven : Bool) (step : Rendering n α) (s : τ) :
    outcome (optional forgiven step) s = (outcome step s).map fun p =>
      (match p.1 with
        | .ok a => .ok (some a)
        | .error (.templateNotFound name) =>
          if forgiven then .ok none else .error (.templateNotFound name)
        | .error failure => .error failure, p.2) := by
  rw [optional, outcome_ofAction, run_bind]
  change (outcome step s).bind _ = _
  cases outcome step s with
  | none => rfl
  | some p =>
    obtain ⟨r, s'⟩ := p
    cases r with
    | ok a => exact run_pure _ _
    | error failure => cases failure <;> exact run_pure _ _

/-- A failure that can be forgiven must not be an excuse. -/
theorem optional_follows (hexcuse : ∀ name, ¬ excuse (.templateNotFound name)) {α β : Type}
    {R : α → β → Prop} {x : Rendering n₁ α} {y : Rendering n₂ β} (h : Follows excuse S R x y)
    (forgiven : Bool) :
    Follows excuse S (Option.Rel R) (optional forgiven x) (optional forgiven y) := by
  intro s t hS r s' hx
  rw [outcome_optional] at hx
  obtain ⟨⟨r₁, s₁⟩, hx₁, hx₂⟩ := Option.map_eq_some_iff.1 hx
  cases hx₂
  rcases h hS hx₁ with ⟨e, rfl, he⟩ | ⟨r₂, t₁, hy, hS', hr⟩
  · cases e with
    | templateNotFound name => exact absurd he (hexcuse name)
    | _ => exact .inl ⟨_, rfl, he⟩
  · refine .inr ⟨_, t₁, by rw [outcome_optional, hy]; rfl, hS', ?_⟩
    cases hr with
    | ok hR => exact .ok (.some hR)
    | error e =>
      cases e with
      | templateNotFound name =>
        cases forgiven with
        | true => exact .ok .none
        | false => exact .error _
      | _ => exact .error _

theorem included?_follows (hs : h₁.settings = h₂.settings)
    (hfind : ∀ names, Follows excuse S T (h₁.find names) (h₂.find names))
    (hexcuse : ∀ name, ¬ excuse (.templateNotFound name)) (context : Context)
    (ignoreMissing : Bool) {e : Expr}
    (h : ∀ name ∈ e.calls, FunctionFollows excuse S h₁ h₂ name) :
    Follows excuse S (Option.Rel T) (h₁.included? context ignoreMissing e)
      (h₂.included? context ignoreMissing e) := by
  refine (evaluate_follows hs context e h).bind ?_
  rintro value _ rfl
  exact optional_follows hexcuse (resolve_follows hfind value e.span) ignoreMissing

end Host

end Hosts

/-! ## Includes -/

namespace Host

variable {n : Type → Type} [Monad n] {τ : Type} [Runs n τ]

/-- What an include of a template by its name stands for, step by step. -/
theorem outcome_insertion?_named (host : Host n) (context : Context) (owner : Tree) (target : Expr)
    (clauses : Clauses) :
    outcome (τ := τ) (host.insertion? context owner (.named target) clauses) =
      outcome (host.included? context clauses.ignoreMissing target >>= fun
        | none => pure none
        | some tree => host.passed context clauses.bindings >>= fun bindings =>
          pure (some ⟨tree, tree, scope context clauses.only bindings⟩)) := by
  refine (outcome_bind_assoc (host.included? context clauses.ignoreMissing target)
    (fun found => pure (found.map fun tree => (tree, tree))) _).trans ?_
  refine outcome_bind_congr _ fun found => ?_
  cases found with
  | none => exact outcome_pure_bind _ _
  | some tree => exact outcome_pure_bind _ _

/-- What an include of an embedded tree stands for, step by step. -/
theorem outcome_insertion?_embedded (host : Host n) (context : Context) {owner tree : Tree}
    {index : Nat} (h : owner.embedded[index]? = some tree) (filename : String)
    (clauses : Clauses) :
    outcome (τ := τ) (host.insertion? context owner (.embedded filename index) clauses) =
      outcome (host.passed context clauses.bindings >>= fun bindings =>
        pure (some ⟨tree, owner, scope context clauses.only bindings⟩)) := by
  have htarget : host.target? context owner clauses.ignoreMissing (.embedded filename index) =
      pure (some (tree, owner)) := by
    simp only [target?, h]
  exact (outcome_bind_of_outcome (congrArg outcome htarget) _).trans (outcome_pure_bind _ _)

/-- An embedded tree that is not there cannot be included. -/
theorem outcome_insertion?_missing (host : Host n) (context : Context) {owner : Tree}
    {index : Nat} (h : owner.embedded[index]? = none) (filename : String) (clauses : Clauses) :
    outcome (τ := τ) (host.insertion? context owner (.embedded filename index) clauses) =
      outcome (throw (.missingEmbedded filename index) : Rendering n (Option Insertion)) := by
  funext s
  rw [outcome_throw]
  refine outcome_bind_error ?_ _
  simp only [target?, h, outcome_throw]

end Host

end Stencil
