import Stencil.Proofs.Engines

/-!
# Moved places

Editing a template moves what stands behind the edit. Expressions that differ in their places alone,
and in these by a relation that is known, have the same values, and where they fail they do so for
the same reason, with the place moved in the same way. So two runs are compared here up to places:
whenever the first one ends, the second one ends alike, and its failure may only have moved.

Results:
* `Failure.moved_eq`: where no place has moved, failures are the same.
* `Host.evaluate_moved`: evaluation.
* `Host.find_tracks`, `Host.optional_tracks`: finding templates, and forgiving that they are
  missing.
-/

namespace Stencil

/-! ## What has moved -/

section Moved

variable (place : Span → Span → Prop)

mutual

/-- Two expressions that differ in their places alone. -/
inductive Expr.Moved : Expr → Expr → Prop
  | constant {span span' : Span} {value : Value} :
      place span span' → Expr.Moved (.constant span value) (.constant span' value)
  | name {span span' : Span} {name : String} :
      place span span' → Expr.Moved (.name span name) (.name span' name)
  | mapping {span span' : Span} {entries entries' : List (String × Expr)} :
      place span span' → Expr.MovedEntries entries entries' →
      Expr.Moved (.mapping span entries) (.mapping span' entries')
  | array {span span' : Span} {items items' : List Expr} :
      place span span' → Expr.MovedAll items items' →
      Expr.Moved (.array span items) (.array span' items')
  | attribute {span span' : Span} {object object' : Expr} {key : String} :
      place span span' → Expr.Moved object object' →
      Expr.Moved (.attribute span object key) (.attribute span' object' key)
  | concat {span span' : Span} {left left' right right' : Expr} :
      place span span' → Expr.Moved left left' → Expr.Moved right right' →
      Expr.Moved (.concat span left right) (.concat span' left' right')
  | call {span span' : Span} {function : String} {arguments arguments' : List Expr} :
      place span span' → Expr.MovedAll arguments arguments' →
      Expr.Moved (.call span function arguments) (.call span' function arguments')

/-- Expressions of this kind, one by one. -/
inductive Expr.MovedAll : List Expr → List Expr → Prop
  | nil : Expr.MovedAll [] []
  | cons {e e' : Expr} {rest rest' : List Expr} :
      Expr.Moved e e' → Expr.MovedAll rest rest' → Expr.MovedAll (e :: rest) (e' :: rest')

/-- Entries of mappings with expressions of this kind. -/
inductive Expr.MovedEntries : List (String × Expr) → List (String × Expr) → Prop
  | nil : Expr.MovedEntries [] []
  | cons {key : String} {e e' : Expr} {rest rest' : List (String × Expr)} :
      Expr.Moved e e' → Expr.MovedEntries rest rest' →
      Expr.MovedEntries ((key, e) :: rest) ((key, e') :: rest')

end

/-- Two faults of passes that differ in their places alone. -/
structure MissingPart.Moved (fault fault' : MissingPart) : Prop where
  kind : fault.kind = fault'.kind
  part : fault.part = fault'.part
  span : place fault.span fault'.span

/-- Two failures that differ in their places alone. -/
inductive Failure.Moved : Failure → Failure → Prop
  | same (failure : Failure) : Failure.Moved failure failure
  | invalidTree (name : String) {fault fault' : MissingPart} : fault.Moved place fault' →
      Failure.Moved (.invalidTree name fault) (.invalidTree name fault')
  | unknownFunction (name : String) {span span' : Span} : place span span' →
      Failure.Moved (.unknownFunction name span) (.unknownFunction name span')
  | undefinedVariable (name : String) {span span' : Span} : place span span' →
      Failure.Moved (.undefinedVariable name span) (.undefinedVariable name span')
  | misfit (misfit : Misfit) {span span' : Span} : place span span' →
      Failure.Moved (.misfit misfit span) (.misfit misfit span')

end Moved

variable {place : Span → Span → Prop}

/-- Where no place has moved, failures are the same. -/
theorem Failure.moved_eq (hplace : ∀ span span', place span span' → span = span')
    {failure failure' : Failure} (h : failure.Moved place failure') : failure = failure' := by
  cases h with
  | same => rfl
  | invalidTree name h =>
    obtain ⟨kind, part, span⟩ := h
    rw [Failure.invalidTree.injEq, MissingPart.mk.injEq]
    exact ⟨rfl, kind, part, hplace _ _ span⟩
  | unknownFunction name h => rw [hplace _ _ h]
  | undefinedVariable name h => rw [hplace _ _ h]
  | misfit misfit h => rw [hplace _ _ h]

namespace Expr

theorem Moved.span {e e' : Expr} (h : e.Moved place e') : place e.span e'.span := by
  cases h <;> assumption

mutual

/-- Every expression has moved from itself, where every place has. -/
theorem moved_self (hplace : ∀ span, place span span) : ∀ e : Expr, e.Moved place e
  | .constant span _ => .constant (hplace span)
  | .name span _ => .name (hplace span)
  | .mapping span entries => .mapping (hplace span) (movedEntries_self hplace entries)
  | .array span items => .array (hplace span) (movedAll_self hplace items)
  | .attribute span object _ => .attribute (hplace span) (moved_self hplace object)
  | .concat span left right =>
    .concat (hplace span) (moved_self hplace left) (moved_self hplace right)
  | .call span _ arguments => .call (hplace span) (movedAll_self hplace arguments)

theorem movedAll_self (hplace : ∀ span, place span span) : ∀ es : List Expr, MovedAll place es es
  | [] => .nil
  | e :: rest => .cons (moved_self hplace e) (movedAll_self hplace rest)

theorem movedEntries_self (hplace : ∀ span, place span span) : ∀ entries : List (String × Expr),
    MovedEntries place entries entries
  | [] => .nil
  | (_, e) :: rest => .cons (moved_self hplace e) (movedEntries_self hplace rest)

end

end Expr

/-! ## Steps that track each other -/

section Tracks

variable {n₁ n₂ : Type → Type} [Monad n₁] [Monad n₂] {τ₁ τ₂ : Type} [Runs n₁ τ₁] [Runs n₂ τ₂]
  {α β : Type} {S : τ₁ → τ₂ → Prop} {R : α → β → Prop}

namespace Tracks

/-- Steps that have ended already. -/
theorem of {excuse : Failure → Prop} {F : Failure → Failure → Prop} {r : Except Failure α}
    {r' : Except Failure β} (h : EndsAlike F R r r') :
    Tracks excuse F S R (.of r : Rendering n₁ α) (.of r' : Rendering n₂ β) :=
  .of_outcome fun s t hS => ⟨r, r', s, t, outcome_of r s, outcome_of r' t, hS, h⟩

theorem join {excuse : Failure → Prop} {F : Failure → Failure → Prop}
    {front back : Rendering n₁ String} {front' back' : Rendering n₂ String}
    (hfront : Tracks excuse F S Eq front front') (hback : Tracks excuse F S Eq back back') :
    Tracks excuse F S Eq (Stencil.join front back) (Stencil.join front' back') := by
  refine hfront.bind ?_
  rintro first _ rfl
  refine hback.bind ?_
  rintro second _ rfl
  exact .pure rfl

end Tracks

end Tracks

/-! ## Values that do not depend on a place -/

section Values

variable {span span' : Span} (hspan : place span span')

include hspan

theorem printValue_moved (value : Value) :
    EndsAlike (Failure.Moved place) Eq (printValue value span) (printValue value span') := by
  unfold printValue
  split
  · exact .ok rfl
  · exact .error (.misfit _ hspan)

theorem variableValue_moved (settings : Settings) (context : Context) (name : String) :
    EndsAlike (Failure.Moved place) Eq (variableValue settings context name span)
      (variableValue settings context name span') := by
  unfold variableValue
  split
  · exact .ok rfl
  · split
    · exact .ok rfl
    · split
      · exact .error (.undefinedVariable name hspan)
      · exact .ok rfl

theorem keyValue_moved (settings : Settings) (object : Value) (key : String) :
    EndsAlike (Failure.Moved place) Eq (keyValue settings object key span)
      (keyValue settings object key span') := by
  unfold keyValue
  split
  · exact .ok rfl
  · split
    · exact .error (.misfit _ hspan)
    · exact .ok rfl

theorem Host.variablesOf_moved (value : Value) :
    EndsAlike (Failure.Moved place) Eq (variablesOf value span) (variablesOf value span') := by
  unfold variablesOf
  split
  · exact .ok rfl
  · exact .ok rfl
  · exact .error (.misfit _ hspan)

end Values

/-! ## Hosts -/

section Hosts

variable {n₁ n₂ : Type → Type} [Monad n₁] [Monad n₂] {τ₁ τ₂ : Type} [Runs n₁ τ₁] [Runs n₂ τ₂]
  {T₁ T₂ : Type}

/-- Two hosts have the same settings and functions, and answer the same questions about templates,
    up to places and with templates that belong together. -/
structure Host.Tracks (place : Span → Span → Prop) (S : τ₁ → τ₂ → Prop) (T : T₁ → T₂ → Prop)
    (h₁ : Host n₁ T₁) (h₂ : Host n₂ T₂) : Prop where
  settings : h₁.settings = h₂.settings
  function : ∀ name, FunctionFollows (fun _ => False) S h₁ h₂ name
  has : ∀ name, Follows (fun _ => False) S Eq (ExceptT.lift (h₁.has name) : Rendering n₁ Bool)
    (ExceptT.lift (h₂.has name) : Rendering n₂ Bool)
  load : ∀ name, Stencil.Tracks (fun _ => False) (Failure.Moved place) S T
    (.ofAction (h₁.load name) : Rendering n₁ T₁) (.ofAction (h₂.load name) : Rendering n₂ T₂)

namespace Host

variable {S : τ₁ → τ₂ → Prop} {T : T₁ → T₂ → Prop} {h₁ : Host n₁ T₁} {h₂ : Host n₂ T₂}

/-- Two steps track each other up to places, whatever the failure. -/
abbrev Tracking (place : Span → Span → Prop) (S : τ₁ → τ₂ → Prop) {α β : Type} (R : α → β → Prop)
    (x : Rendering n₁ α) (y : Rendering n₂ β) : Prop :=
  Stencil.Tracks (fun _ => False) (Failure.Moved place) S R x y

mutual

/-- Expressions that differ in their places alone have the same values. -/
theorem evaluate_moved (hs : h₁.settings = h₂.settings)
    (hf : ∀ name, FunctionFollows (fun _ => False) S h₁ h₂ name) (context : Context) :
    ∀ (e : Expr) {e' : Expr}, e.Moved place e' →
      Tracking place S Eq (h₁.evaluate context e) (h₂.evaluate context e')
  | .constant _ value, _, he => by
    cases he with
    | constant hspan =>
    simp only [evaluate]
    exact .pure rfl
  | .name _ name, _, he => by
    cases he with
    | name hspan =>
    simp only [evaluate, hs]
    exact .of (variableValue_moved hspan _ _ _)
  | .mapping _ entries, _, he => by
    cases he with
    | mapping hspan hentries =>
    simp only [evaluate]
    refine (evaluateEntries_moved hs hf context entries hentries).bind ?_
    rintro fields _ rfl
    exact .pure rfl
  | .array _ items, _, he => by
    cases he with
    | array hspan hitems =>
    simp only [evaluate]
    refine (evaluateAll_moved hs hf context items hitems).bind ?_
    rintro values _ rfl
    exact .pure rfl
  | .attribute _ object key, _, he => by
    cases he with
    | «attribute» hspan hobject =>
    simp only [evaluate, hs]
    refine (evaluate_moved hs hf context object hobject).bind ?_
    rintro value _ rfl
    exact .of (keyValue_moved hspan _ _ _)
  | .concat _ left right, _, he => by
    cases he with
    | concat hspan hleft hright =>
    simp only [evaluate]
    refine (evaluate_moved hs hf context left hleft).bind ?_
    rintro first _ rfl
    refine Tracks.bind (.of (printValue_moved hleft.span first)) ?_
    rintro front _ rfl
    refine (evaluate_moved hs hf context right hright).bind ?_
    rintro second _ rfl
    refine Tracks.bind (.of (printValue_moved hright.span second)) ?_
    rintro back _ rfl
    exact .pure rfl
  | .call _ name arguments, _, he => by
    cases he with
    | call hspan harguments =>
    have hname := hf name
    unfold FunctionFollows FunctionCompares at hname
    simp only [evaluate]
    cases hfun : h₁.function? name with
    | none =>
      cases hg : h₂.function? name with
      | none => exact .throw (.unknownFunction name hspan)
      | some g => simp [hfun, hg] at hname
    | some f =>
      cases hg : h₂.function? name with
      | none => simp [hfun, hg] at hname
      | some g =>
        simp only [hfun, hg] at hname
        refine (evaluateAll_moved hs hf context arguments harguments).bind ?_
        rintro values _ rfl
        exact .of_follows .same (hname values)

theorem evaluateAll_moved (hs : h₁.settings = h₂.settings)
    (hf : ∀ name, FunctionFollows (fun _ => False) S h₁ h₂ name) (context : Context) :
    ∀ (es : List Expr) {es' : List Expr}, Expr.MovedAll place es es' →
      Tracking place S Eq (h₁.evaluateAll context es) (h₂.evaluateAll context es')
  | [], _, hes => by
    cases hes with
    | nil =>
    simp only [evaluateAll]
    exact .pure rfl
  | e :: rest, _, hes => by
    cases hes with
    | cons he hrest =>
    simp only [evaluateAll]
    refine (evaluate_moved hs hf context e he).bind ?_
    rintro value _ rfl
    refine (evaluateAll_moved hs hf context rest hrest).bind ?_
    rintro values _ rfl
    exact .pure rfl

theorem evaluateEntries_moved (hs : h₁.settings = h₂.settings)
    (hf : ∀ name, FunctionFollows (fun _ => False) S h₁ h₂ name) (context : Context) :
    ∀ (entries : List (String × Expr)) {entries' : List (String × Expr)},
      Expr.MovedEntries place entries entries' →
        Tracking place S Eq (h₁.evaluateEntries context entries)
          (h₂.evaluateEntries context entries')
  | [], _, hentries => by
    cases hentries with
    | nil =>
    simp only [evaluateEntries]
    exact .pure rfl
  | (key, e) :: rest, _, hentries => by
    cases hentries with
    | cons he hrest =>
    simp only [evaluateEntries]
    refine (evaluate_moved hs hf context e he).bind ?_
    rintro value _ rfl
    refine (evaluateEntries_moved hs hf context rest hrest).bind ?_
    rintro fields _ rfl
    exact .pure rfl

end

theorem print_moved (hs : h₁.settings = h₂.settings)
    (hf : ∀ name, FunctionFollows (fun _ => False) S h₁ h₂ name) (context : Context)
    {e e' : Expr} (he : e.Moved place e') :
    Tracking place S Eq (h₁.print context e) (h₂.print context e') := by
  refine (evaluate_moved hs hf context e he).bind ?_
  rintro value _ rfl
  exact .of (printValue_moved he.span value)

theorem passed_moved (hs : h₁.settings = h₂.settings)
    (hf : ∀ name, FunctionFollows (fun _ => False) S h₁ h₂ name) (context : Context)
    {bindings bindings' : Option Expr}
    (hbindings : Option.Rel (Expr.Moved place) bindings bindings') :
    Tracking place S Eq (h₁.passed context bindings) (h₂.passed context bindings') := by
  cases hbindings with
  | none => exact .pure rfl
  | some he =>
    refine (evaluate_moved hs hf context _ he).bind ?_
    rintro value _ rfl
    exact .of (variablesOf_moved he.span value)

section Finding

variable (h : h₁.Tracks place S T h₂) (context : Context)

include h

theorem find_tracks (names : List String) :
    Tracking place S T (h₁.find names) (h₂.find names) := by
  have hfirst : Tracking place S Eq (ExceptT.lift (h₁.firstOf names))
      (ExceptT.lift (h₂.firstOf names)) := .of_follows .same (firstOf_follows h.has names)
  refine hfirst.bind ?_
  rintro found _ rfl
  cases found with
  | none => exact .throw (.same _)
  | some name => exact h.load name

theorem resolve_tracks (value : Value) {span span' : Span} (hspan : place span span') :
    Tracking place S T (h₁.resolve value span) (h₂.resolve value span') := by
  unfold resolve
  cases candidates value with
  | error misfit => exact .throw (.misfit misfit hspan)
  | ok names => exact find_tracks h names

theorem parent_moved {e e' : Expr} (he : e.Moved place e') :
    Tracking place S T (h₁.parent context e) (h₂.parent context e') := by
  refine (evaluate_moved h.settings h.function context e he).bind ?_
  rintro value _ rfl
  exact resolve_tracks h value he.span

end Finding

/-- Where the first step may be forgiven that a template is missing, so may the second one. If only
    the second one may, that template is the excuse of the first one. -/
theorem optional_tracks {α β : Type} {R : α → β → Prop} {x : Rendering n₁ α} {y : Rendering n₂ β}
    (h : Tracking place S R x y) {forgiven forgiven' : Bool}
    (hforgiven : forgiven = true → forgiven' = true) :
    Stencil.Tracks (fun e => ∃ name, e = .templateNotFound name) (Failure.Moved place) S
      (Option.Rel R) (optional forgiven x) (optional forgiven' y) := by
  intro s t hS r s' hx
  rw [outcome_optional] at hx
  obtain ⟨⟨r₁, s₁⟩, hx₁, hx₂⟩ := Option.map_eq_some_iff.1 hx
  cases hx₂
  obtain ⟨_, _, he⟩ | ⟨r₂, t₁, hy, hS', hr⟩ := h hS hx₁
  · exact he.elim
  have hout := outcome_optional forgiven' y t
  rw [hy] at hout
  cases hr with
  | ok hR => exact .inr ⟨_, t₁, hout, hS', .ok (.some hR)⟩
  | @error e e' he =>
    cases he with
    | same =>
      cases e with
      | templateNotFound name =>
        cases forgiven with
        | false => exact .inl ⟨_, rfl, name, rfl⟩
        | true =>
          obtain rfl := hforgiven rfl
          exact .inr ⟨_, t₁, hout, hS', .ok .none⟩
      | _ => exact .inr ⟨_, t₁, hout, hS', .error (.same _)⟩
    | invalidTree name h => exact .inr ⟨_, t₁, hout, hS', .error (.invalidTree name h)⟩
    | unknownFunction name h => exact .inr ⟨_, t₁, hout, hS', .error (.unknownFunction name h)⟩
    | undefinedVariable name h => exact .inr ⟨_, t₁, hout, hS', .error (.undefinedVariable name h)⟩
    | misfit misfit h => exact .inr ⟨_, t₁, hout, hS', .error (.misfit misfit h)⟩

end Host

end Hosts

end Stencil
