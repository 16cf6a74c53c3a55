import Stencil.Proofs.Lowering
import Stencil.Proofs.Overriding
import Stencil.Proofs.Renderings

/-!
# The empty chain

An engine with the extension of the empty chain renders what the engine without an extension does,
but it also evaluates the variables of an include that is skipped, and refuses them if they are no
mapping. So its renderings are those of the other engine that skip no such include.

`Engine.watching` renders as an engine does and records what the skipped includes would have passed.
The interpreter without hooks, with the empty chain, is compared with it step by step.

Results:
* `Chain.renamedCandidates_empty`, `Chain.rebound_empty`: the empty chain changes nothing.
* `Tree.fine_of_embedded_nil`: a tree without embeds is never refused.
* `Engine.watching_follows`: watching a rendering does not change it.
* `Engine.direct_compares`: the empty chain and the watched rendering.
* `Engine.renders_empty_chain`: rendering with the extension of the empty chain.
-/

namespace Stencil

open Override

/-! ## Pipelines without providers -/

namespace Override.Chain

variable {m : Type → Type} [Monad m] {τ : Type} [Runs m τ]

/-- The empty chain leaves the names alone that a value stands for. -/
theorem renamedCandidates_empty (inclusion : Inclusion) (value : Value) (s : τ) :
    match Host.candidates value with
    | .ok names =>
        outcome ((empty : Chain m).renamedCandidates inclusion value) s = some (.ok names, s)
    | .error _ => ∃ fault,
        outcome ((empty : Chain m).renamedCandidates inclusion value) s = some (.error fault, s) := by
  have hrenamed : ∀ name (s : τ), outcome ((empty : Chain m).renamed inclusion name) s =
      some (.ok (id name), s) := fun name s => outcome_pure name s
  have hnames := (empty : Chain m).renamedCandidates_of_renamed hrenamed value s
  cases hvalue : Host.candidates value with
  | ok names =>
    rw [hvalue] at hnames
    simpa only [List.map_id] using hnames
  | error misfit =>
    rw [hvalue] at hnames
    exact hnames

/-- The empty chain leaves the variables alone. -/
theorem rebound_empty (template : String) (inclusion : Inclusion) :
    (empty : Chain m).rebound template inclusion = pure inclusion.bindings := rfl

end Override.Chain

/-! ## Trees without embeds -/

theorem Stands.accepts_of_nil {name : String} {nodes : List Node} {items : List Item}
    (h : Stands name [] nodes items) : Pass.Accepts routeNode (Node.tagsIn nodes) := by
  induction h with
  | nil => exact Pass.accepts_nil.2 trivial
  | text _ ih => exact ih
  | print _ ih => exact Pass.accepts_append.2 ⟨Pass.accepts_tag.2 ⟨_, rfl⟩, ih⟩
  | block _ _ ihBody ih => exact Pass.accepts_append.2 ⟨ihBody, ih⟩
  | «include» _ ih => exact Pass.accepts_append.2 ⟨Pass.accepts_tag.2 ⟨_, rfl⟩, ih⟩
  | embed htree => cases htree

/-- A tree without embeds is never refused. -/
theorem Tree.fine_of_embedded_nil {name source : String} {tree : Tree}
    (h : Tree.parse name source.toList = .ok tree) (hembedded : tree.embedded = [])
    (overridden : Bool) : Engine.Fine overridden tree := by
  intro _
  obtain ⟨items, -, hitems⟩ := Tree.parse_ok h
  obtain ⟨-, -, hbody⟩ := Tree.shows_ofItems hitems
  rw [hembedded] at hbody
  obtain ⟨_, _, body, embedded, _⟩ := tree
  obtain rfl : embedded = [] := hembedded
  rw [Tree.tags, Pass.accepts_append]
  exact ⟨Pass.accepts_nil.2 trivial, hbody.accepts_of_nil⟩

/-! ## Watched renderings -/

/-- What the skipped includes would have passed, in their order. -/
abbrev Skips := List (Except Failure Context)

/-- All skipped includes would have passed variables. -/
def Skips.Clean (skips : Skips) : Prop := ∀ answer ∈ skips, answer.isOk = true

theorem Skips.clean_append {skips more : Skips} :
    Clean (skips ++ more) ↔ skips.Clean ∧ more.Clean := List.forall_mem_append

section Watching

variable {n : Type → Type} [Monad n] {τ : Type} [Runs n τ] {α : Type}

/-- A step of a rendering as a step of a watched one. -/
def raised (x : Rendering n α) : Rendering (StateT Skips n) α := .ofAction (StateT.lift x.run)

/-- Adds to the record. -/
def record (answer : Except Failure Context) : Rendering (StateT Skips n) Unit :=
  .ofAction fun skips => pure (.ok (), skips ++ [answer])

theorem outcome_raised (x : Rendering n α) (skips : Skips) (s : τ) :
    outcome (raised x) (skips, s) = (outcome x s).map fun p => (p.1, skips, p.2) :=
  run_lift x.run skips s

theorem outcome_record (answer : Except Failure Context) (skips : Skips) (s : τ) :
    outcome (record answer : Rendering (StateT Skips n) Unit) (skips, s) =
      some (.ok (), skips ++ [answer], s) := by
  rw [record, outcome_ofAction, run_stateT]
  simp only [StateT.run, run_pure, Option.map_some]

end Watching

namespace Engine

section Watching

variable {m : Type → Type} [Monad m]

/-- Records what an include would have passed. -/
def recordPassed (e : Engine m) (context : Context) (clauses : Clauses) :
    Rendering (StateT Skips (StateT Cache m)) Unit := do
  let answer ← raised (ExceptT.lift (e.host.passed context clauses.bindings).run)
  record answer

/-- Printing and finding templates as the engine does, with a record of what the skipped includes
    would have passed. -/
def watching (e : Engine m) : Access (StateT Skips (StateT Cache m)) where
  maxDepth := e.settings.maxDepth
  print context expr := raised (e.host.print context expr)
  parent context expr := raised (e.host.parent context expr)
  insertion? context owner target clauses := do
    match ← raised (e.host.insertion? context owner target clauses) with
    | some insertion => pure (some insertion)
    | none => do
      e.recordPassed context clauses
      pure none

/-- The text of a template by its name, with the record. -/
def renderWatching (e : Engine m) (name : String) (context : Context) :
    Rendering (StateT Skips (StateT Cache m)) String := do
  let template ← raised (.ofAction (e.load name))
  e.watching.render e.patience template.tree context

end Watching

/-- What the skipped includes would have passed while a template is rendered. -/
def skipped (e : Engine Id) (name : String) (context : Context) : Skips :=
  ((((e.renderWatching name context).run.run []).run []).1).2

/-- Rendering a template succeeds with this text, with nothing kept before. -/
def Renders (e : Engine Id) (name : String) (context : Context) (output : String) : Prop :=
  ∃ cache, (e.render name context).run [] = (.ok output, cache)

end Engine

/-! ### Watching changes nothing -/

section Watching

variable {α β : Type}

/-- The same state under any record. -/
def Watched (t : Skips × Cache × Unit) (s : Cache × Unit) : Prop := t.2 = s

theorem raised_follows (x : Rendering (StateT Cache Id) α) :
    Follows (fun _ => False) Watched Eq (raised x) x := by
  rintro ⟨skips, s⟩ _ rfl r s' hx
  rw [outcome_raised] at hx
  obtain ⟨⟨r, s'⟩, hx', heq⟩ := Option.map_eq_some_iff.1 hx
  cases heq
  exact .inr ⟨r, s', hx', rfl, .refl r⟩

/-- Steps without a monad below the cache always end. -/
theorem outcome_isSome (x : Rendering (StateT Cache Id) α) (s : Cache × Unit) :
    ∃ p, outcome x s = some p := ⟨_, rfl⟩

/-- A watched step that ends and only adds to the record. -/
def Grows (y : Rendering (StateT Skips (StateT Cache Id)) α) : Prop :=
  ∀ skips (s : Cache × Unit), ∃ r more s', outcome y (skips, s) = some (r, skips ++ more, s')

namespace Grows

theorem pure (a : α) : Grows (pure a) := fun skips s =>
  ⟨.ok a, [], s, by rw [outcome_pure, List.append_nil]⟩

theorem throw (e : Failure) : Grows (throw e : Rendering (StateT Skips (StateT Cache Id)) α) :=
  fun skips s => ⟨.error e, [], s, by rw [outcome_throw, List.append_nil]⟩

theorem raised (x : Rendering (StateT Cache Id) α) : Grows (raised x) := by
  intro skips s
  obtain ⟨⟨r, s'⟩, hx⟩ := outcome_isSome x s
  exact ⟨r, [], s', by rw [outcome_raised, hx, List.append_nil]; rfl⟩

theorem record (answer : Except Failure Context) : Grows (record answer) := fun skips s =>
  ⟨.ok (), [answer], s, outcome_record answer skips s⟩

theorem bind {y : Rendering (StateT Skips (StateT Cache Id)) α}
    {g : α → Rendering (StateT Skips (StateT Cache Id)) β} (hy : Grows y) (hg : ∀ a, Grows (g a)) :
    Grows (y >>= g) := by
  intro skips s
  obtain ⟨r, more, s₁, hrun⟩ := hy skips s
  cases r with
  | error e => exact ⟨.error e, more, s₁, outcome_bind_error hrun g⟩
  | ok a =>
    obtain ⟨r, more', s', hrun'⟩ := hg a (skips ++ more) s₁
    exact ⟨r, more ++ more', s', by rw [outcome_bind_ok hrun, hrun', List.append_assoc]⟩

end Grows

/-- How a rendering and a watched one end: with the same answer and a clean record, or the first one
    with a failure, and the second one with a failure as well or with a record that is not clean. -/
inductive EndsWatched : Except Failure α × Cache × Unit →
    Except Failure α × Skips × Cache × Unit → Prop
  | ok {a : α} {s : Cache × Unit} {skips : Skips} : skips.Clean →
      EndsWatched (.ok a, s) (.ok a, skips, s)
  | failed {e e' : Failure} {s s' : Cache × Unit} {skips : Skips} :
      EndsWatched (.error e, s) (.error e', skips, s')
  | unclean {e : Failure} {r : Except Failure α} {s s' : Cache × Unit} {skips : Skips} :
      ¬ skips.Clean → EndsWatched (.error e, s) (r, skips, s')

/-- A rendering and a watched one that end in one of these ways from the same state. -/
structure Transparent (x : Rendering (StateT Cache Id) α)
    (y : Rendering (StateT Skips (StateT Cache Id)) α) : Prop where
  grows : Grows y
  ends : ∀ (skips : Skips) (s : Cache × Unit), skips.Clean →
    ∃ p q, outcome x s = some p ∧ outcome y (skips, s) = some q ∧ EndsWatched p q

namespace Transparent

theorem pure (a : α) : Transparent (pure a) (pure a) where
  grows := .pure a
  ends skips s hclean := ⟨_, _, outcome_pure a s, outcome_pure a (skips, s), .ok hclean⟩

theorem throw (e : Failure) : Transparent (α := α) (throw e) (throw e) where
  grows := .throw e
  ends skips s _ := ⟨_, _, outcome_throw e s, outcome_throw e (skips, s), .failed⟩

/-- A record that is not clean stays so, and then the first rendering has failed already. -/
theorem bind {x : Rendering (StateT Cache Id) α} {y : Rendering (StateT Skips (StateT Cache Id)) α}
    {f : α → Rendering (StateT Cache Id) β} {g : α → Rendering (StateT Skips (StateT Cache Id)) β}
    (h : Transparent x y) (hf : ∀ a, Transparent (f a) (g a)) :
    Transparent (x >>= f) (y >>= g) where
  grows := h.grows.bind fun a => (hf a).grows
  ends skips s hclean := by
    obtain ⟨p, q, hx, hy, hends⟩ := h.ends skips s hclean
    cases hends with
    | ok hclean' =>
      rw [outcome_bind_ok hx, outcome_bind_ok hy]
      exact (hf _).ends _ _ hclean'
    | failed => exact ⟨_, _, outcome_bind_error hx f, outcome_bind_error hy g, .failed⟩
    | @unclean e r s₁ s₂ skips' hunclean =>
      cases r with
      | error e' => exact ⟨_, _, outcome_bind_error hx f, outcome_bind_error hy g, .failed⟩
      | ok a =>
        obtain ⟨r, more, s', hrun⟩ := (hf a).grows skips' s₂
        refine ⟨_, _, outcome_bind_error hx f, (outcome_bind_ok hy g).trans hrun, .unclean ?_⟩
        exact fun hclean' => hunclean (Skips.clean_append.1 hclean').1

/-- A step and a watched one that ends alike, or fails as well. -/
theorem raised_of {x y : Rendering (StateT Cache Id) α}
    (h : ∀ s : Cache × Unit, outcome x s = outcome y s ∨ ∃ e e' s₁ s₂,
      outcome x s = some (.error e, s₁) ∧ outcome y s = some (.error e', s₂)) :
    Transparent x (Stencil.raised y) where
  grows := .raised y
  ends skips s hclean := by
    have hraised := outcome_raised y skips s
    rcases h s with hsame | ⟨e, e', s₁, s₂, hx, hy⟩
    · obtain ⟨⟨r, s'⟩, hx⟩ := outcome_isSome x s
      rw [← hsame, hx] at hraised
      cases r with
      | ok a => exact ⟨_, _, hx, hraised, .ok hclean⟩
      | error e => exact ⟨_, _, hx, hraised, .failed⟩
    · rw [hy] at hraised
      exact ⟨_, _, hx, hraised, .failed⟩

/-- A step and the same step watched. -/
theorem raised (x : Rendering (StateT Cache Id) α) : Transparent x (raised x) :=
  raised_of fun _ => .inl rfl

/-- The comparison of renderings with watched ones. -/
def comparison : Comparison (StateT Cache Id) (StateT Skips (StateT Cache Id)) where
  holds := Transparent
  pure := .pure
  throw := .throw
  bind := .bind

end Transparent

end Watching

/-! ## The empty chain and the watched rendering -/

/-- What an include stands for, from the template that it found. -/
def Host.inserted {n : Type → Type} [Monad n] (host : Host n) (context : Context)
    (clauses : Clauses) : Option Tree → Rendering n (Option Insertion)
  | none => pure none
  | some tree => do
    let bindings ← host.passed context clauses.bindings
    pure (some ⟨tree, tree, scope context clauses.only bindings⟩)

namespace Engine

/-- The variables that an include without hooks passes. -/
def passedOf (settings : Settings) (functions : Dict (Function Id)) (context : Context) :
    Option Expr → Except Failure Context
  | none => .ok []
  | some expr =>
    (valueOf settings functions context expr).bind fun value => Host.variablesOf value expr.span

/-- The hooks accept the variables that an include without hooks passes, and no others. -/
theorem passedOf_ok_iff {settings : Settings} {functions : Dict (Function Id)} {context : Context}
    {bindings : Option Expr} (hook : Hook) {original : Context} :
    passedOf settings functions context bindings = .ok original ↔
      originalOf settings functions hook context bindings = .ok original := by
  cases bindings with
  | none => exact Iff.rfl
  | some expr =>
    simp only [passedOf, originalOf, bindingsOf]
    cases valueOf settings functions context expr with
    | error failure => simp [Except.bind]
    | ok value => cases value <;> simp [Except.bind, Host.variablesOf, HookArguments.mapping,
        Except.mapError]

/-- Naming a template through the empty chain. -/
theorem outcome_consult_names (inclusion : Inclusion) (value : Value) (s : Cache × Unit) :
    match Host.candidates value with
    | .ok names => outcome (consult .template
        ((Chain.empty : Chain Id).renamedCandidates inclusion value)) s = some (.ok names, s)
    | .error _ => ∃ failure, outcome (consult .template
        ((Chain.empty : Chain Id).renamedCandidates inclusion value)) s =
          some (.error failure, s) := by
  obtain ⟨cache, _⟩ := s
  have hempty := Chain.renamedCandidates_empty (m := Id) inclusion value ()
  cases hnames : Host.candidates value with
  | ok names =>
    rw [hnames] at hempty
    simp only [outcome_consult, hempty, Option.map_some]
    rfl
  | error misfit =>
    rw [hnames] at hempty
    obtain ⟨fault, hempty⟩ := hempty
    exact ⟨_, by rw [outcome_consult, hempty]; rfl⟩

/-- Variables through the empty chain. -/
theorem outcome_consult_variables (template : String) (inclusion : Inclusion) (s : Cache × Unit) :
    outcome (consult .parameters ((Chain.empty : Chain Id).rebound template inclusion)) s =
      some (.ok inclusion.bindings, s) := by
  obtain ⟨cache, _⟩ := s
  rw [Chain.rebound_empty, outcome_consult, outcome_pure]
  rfl

theorem passedOf_error {settings : Settings} {functions : Dict (Function Id)} {context : Context}
    {bindings : Option Expr} (hook : Hook) {failure : Failure}
    (h : originalOf settings functions hook context bindings = .error failure) :
    ∃ failure', passedOf settings functions context bindings = .error failure' := by
  cases hpassed : passedOf settings functions context bindings with
  | error failure' => exact ⟨failure', rfl⟩
  | ok original =>
    rw [(passedOf_ok_iff hook).1 hpassed] at h
    cases h

section Steady

variable {e : Engine Id} {functions : Dict (Function Id)}
  (hf : ∀ name, Dict.get? e.functions name = (Dict.get? functions name).map Function.lift)

include hf

theorem evaluate_value (context : Context) (expr : Expr) :
    outcome (τ := Cache × Unit) (e.host.evaluate context expr) =
      outcome (.of (valueOf e.settings functions context expr) :
        Rendering (StateT Cache Id) Value) := evaluate_steady (fun name _ => hf name) context

theorem passed_steady (context : Context) (bindings : Option Expr) :
    outcome (τ := Cache × Unit) (e.host.passed context bindings) =
      outcome (.of (passedOf e.settings functions context bindings) :
        Rendering (StateT Cache Id) Context) := by
  cases bindings with
  | none => rfl
  | some expr =>
    simp only [Host.passed, passedOf]
    rw [outcome_bind_of_outcome (evaluate_value hf context expr)]
    cases valueOf e.settings functions context expr with
    | error failure => exact outcome_of_error_bind failure _
    | ok value => exact outcome_of_ok_bind value _

/-- Recording what would have been passed touches nothing else. -/
theorem outcome_recordPassed (context : Context) (clauses : Clauses) (skips : Skips)
    (s : Cache × Unit) :
    outcome (e.recordPassed context clauses) (skips, s) =
      some (.ok (), skips ++ [passedOf e.settings functions context clauses.bindings], s) := by
  have hpassed := congrFun (passed_steady hf context clauses.bindings) s
  rw [outcome_of] at hpassed
  have hlift : outcome (raised (ExceptT.lift (e.host.passed context clauses.bindings).run) :
      Rendering (StateT Skips (StateT Cache Id)) (Except Failure Context)) (skips, s) =
        some (.ok (passedOf e.settings functions context clauses.bindings), skips, s) := by
    rw [outcome_raised, outcome_lift]
    change Option.map _ (Option.map _ (outcome _ s)) = _
    rw [hpassed]
    rfl
  exact (outcome_bind_ok hlift _).trans (outcome_record _ skips s)

section Watching

variable {context : Context} {owner : Tree} {target : Target} {clauses : Clauses}
  {s s' : Cache × Unit} (skips : Skips)

/-- A skipped include is recorded. -/
theorem outcome_watching_none
    (h : outcome (e.host.insertion? context owner target clauses) s = some (.ok none, s')) :
    outcome (e.watching.insertion? context owner target clauses) (skips, s) = some (.ok none,
      skips ++ [passedOf e.settings functions context clauses.bindings], s') := by
  have hraised : outcome (raised (e.host.insertion? context owner target clauses)) (skips, s) =
      some (.ok none, skips, s') := by
    rw [outcome_raised, h]
    rfl
  exact (outcome_bind_ok hraised _).trans
    ((outcome_bind_ok (outcome_recordPassed hf context clauses skips s') _).trans (outcome_pure _ _))

omit hf in
theorem outcome_watching_some {insertion : Insertion}
    (h : outcome (e.host.insertion? context owner target clauses) s =
      some (.ok (some insertion), s')) :
    outcome (e.watching.insertion? context owner target clauses) (skips, s) =
      some (.ok (some insertion), skips, s') := by
  have hraised : outcome (raised (e.host.insertion? context owner target clauses)) (skips, s) =
      some (.ok (some insertion), skips, s') := by
    rw [outcome_raised, h]
    rfl
  exact (outcome_bind_ok hraised _).trans (outcome_pure _ _)

omit hf in
theorem outcome_watching_error {failure : Failure}
    (h : outcome (e.host.insertion? context owner target clauses) s = some (.error failure, s')) :
    outcome (e.watching.insertion? context owner target clauses) (skips, s) =
      some (.error failure, skips, s') := by
  have hraised : outcome (raised (e.host.insertion? context owner target clauses)) (skips, s) =
      some (.error failure, skips, s') := by
    rw [outcome_raised, h]
    rfl
  exact outcome_bind_error hraised _

end Watching

theorem originalBindings_value (hook : Hook) (context : Context) (bindings : Option Expr) :
    outcome (τ := Cache × Unit) (e.originalBindings hook context bindings) =
      outcome (.of (originalOf e.settings functions hook context bindings) :
        Rendering (StateT Cache Id) Context) := by
  refine originalBindings_of_value hook ?_
  cases bindings with
  | none => rfl
  | some expr => exact evaluate_value hf context expr

/-- An embed stands for the same tree with the same variables. -/
theorem embedded_transparent (context : Context) (owner : Tree) (filename : String) (index : Nat)
    (clauses : Clauses) {skips : Skips} (hclean : skips.Clean) (s : Cache × Unit) :
    ∃ p q, outcome (e.directInsertion? Chain.empty context owner (.embedded filename index) clauses)
        s = some p ∧
      outcome (e.watching.insertion? context owner (.embedded filename index) clauses) (skips, s) =
        some q ∧ EndsWatched p q := by
  cases htree : owner.embedded[index]? with
  | none =>
    have hhost := congrFun
      (e.host.outcome_insertion?_missing (τ := Cache × Unit) context htree filename clauses) s
    rw [outcome_throw] at hhost
    simp only [directInsertion?, htree]
    exact ⟨_, _, outcome_throw _ s, outcome_watching_error skips hhost, .failed⟩
  | some tree =>
    have hhost := congrFun
      (e.host.outcome_insertion?_embedded (τ := Cache × Unit) context htree filename clauses) s
    have hpassed := congrFun (passed_steady hf context clauses.bindings) s
    have horiginal := congrFun (originalBindings_value hf .parameters context clauses.bindings) s
    rw [outcome_of] at hpassed horiginal
    simp only [directInsertion?, htree]
    cases hbindings : originalOf e.settings functions .parameters context clauses.bindings with
    | ok original =>
      rw [hbindings] at horiginal
      rw [(passedOf_ok_iff .parameters).2 hbindings] at hpassed
      have hdirect : outcome (e.directEmbedded Chain.empty context clauses filename tree owner) s =
          some (.ok (some ⟨tree, owner, Host.scope context clauses.only original⟩), s) :=
        (outcome_bind_ok horiginal _).trans
          ((outcome_bind_ok (outcome_consult_variables filename _ s) _).trans (outcome_pure _ s))
      have hfound := hhost.trans ((outcome_bind_ok hpassed _).trans (outcome_pure _ s))
      exact ⟨_, _, hdirect, outcome_watching_some skips hfound, .ok hclean⟩
    | error failure =>
      rw [hbindings] at horiginal
      have hdirect : outcome (e.directEmbedded Chain.empty context clauses filename tree owner) s =
          some (.error failure, s) := outcome_bind_error horiginal _
      obtain ⟨failure', hfailure⟩ := passedOf_error .parameters hbindings
      rw [hfailure] at hpassed
      have hfailed := hhost.trans (outcome_bind_error hpassed _)
      exact ⟨_, _, hdirect, outcome_watching_error skips hfailed, .failed⟩

section Named

variable {context : Context} {owner : Tree} {expr : Expr} {clauses : Clauses} {value : Value}

/-- An include whose name has a value, through the empty chain. -/
theorem outcome_direct_named (owner : Tree) (clauses : Clauses)
    (hvalue : valueOf e.settings functions context expr = .ok value) (s : Cache × Unit) :
    outcome (e.directInsertion? Chain.empty context owner (.named expr) clauses) s =
      outcome (e.directNamed Chain.empty context clauses value) s := by
  have hdirect := outcome_bind_of_outcome (evaluate_value hf context expr)
    (e.directNamed Chain.empty context clauses)
  rw [hvalue, outcome_of_ok_bind] at hdirect
  exact congrFun hdirect s

/-- An include whose name has a value. -/
theorem outcome_host_named (owner : Tree) (clauses : Clauses)
    (hvalue : valueOf e.settings functions context expr = .ok value) (s : Cache × Unit) :
    outcome (e.host.insertion? context owner (.named expr) clauses) s =
      outcome (Host.optional clauses.ignoreMissing (e.host.resolve value expr.span) >>=
        e.host.inserted context clauses) s := by
  have hhost := (e.host.outcome_insertion?_named context owner expr clauses).trans
    ((outcome_bind_assoc ..).trans (outcome_bind_of_outcome (evaluate_value hf context expr) _))
  rw [hvalue, outcome_of_ok_bind] at hhost
  exact congrFun hhost s

variable {skips : Skips}

/-- The first hook refuses the variables before the template is looked for. -/
theorem refused_transparent (hvalue : valueOf e.settings functions context expr = .ok value)
    {failure : Failure}
    (hrefused : originalOf e.settings functions .template context clauses.bindings = .error failure)
    (s : Cache × Unit) :
    ∃ p q, outcome (e.directInsertion? Chain.empty context owner (.named expr) clauses) s = some p ∧
      outcome (e.watching.insertion? context owner (.named expr) clauses) (skips, s) = some q ∧
      EndsWatched p q := by
  obtain ⟨failure', hpassed⟩ := passedOf_error .template hrefused
  have horiginal := congrFun (originalBindings_value hf .template context clauses.bindings) s
  rw [hrefused, outcome_of] at horiginal
  have hdirect := (outcome_direct_named hf owner clauses hvalue s).trans
    (outcome_bind_error horiginal _)
  have hhost := outcome_host_named hf owner clauses hvalue s
  obtain ⟨⟨found, s'⟩, hfound⟩ := outcome_isSome
    (Host.optional clauses.ignoreMissing (e.host.resolve value expr.span)) s
  cases found with
  | error failure'' =>
    have hfailed := hhost.trans (outcome_bind_error hfound _)
    exact ⟨_, _, hdirect, outcome_watching_error skips hfailed, .failed⟩
  | ok found =>
    have hnext := hhost.trans (outcome_bind_ok hfound _)
    cases found with
    | none =>
      have hskipped := outcome_watching_none hf skips (hnext.trans (outcome_pure _ s'))
      refine ⟨_, _, hdirect, hskipped, .unclean fun hclean => ?_⟩
      have hok := (Skips.clean_append.1 hclean).2 _ List.mem_cons_self
      rw [hpassed] at hok
      cases hok
    | some tree =>
      have hlate := congrFun (passed_steady hf context clauses.bindings) s'
      rw [hpassed, outcome_of] at hlate
      have hfailed := hnext.trans (outcome_bind_error hlate _)
      exact ⟨_, _, hdirect, outcome_watching_error skips hfailed, .failed⟩

/-- With variables that are not refused, the same template is looked for. -/
theorem found_transparent (hclean : skips.Clean)
    (hvalue : valueOf e.settings functions context expr = .ok value) {original : Context}
    (haccepted : originalOf e.settings functions .template context clauses.bindings = .ok original)
    {names : List String} (hcandidates : Host.candidates value = .ok names) (s : Cache × Unit) :
    ∃ p q, outcome (e.directInsertion? Chain.empty context owner (.named expr) clauses) s = some p ∧
      outcome (e.watching.insertion? context owner (.named expr) clauses) (skips, s) = some q ∧
      EndsWatched p q := by
  have hpassed := (passedOf_ok_iff .template).2 haccepted
  have horiginal := congrFun (originalBindings_value hf .template context clauses.bindings) s
  rw [haccepted, outcome_of] at horiginal
  have hnames := outcome_consult_names
    { bindings := original, context := context, only := clauses.only } value s
  rw [hcandidates] at hnames
  have hdirect := (outcome_direct_named hf owner clauses hvalue s).trans
    ((outcome_bind_ok horiginal _).trans (outcome_bind_ok hnames _))
  have hhost := outcome_host_named hf owner clauses hvalue s
  rw [Host.resolve_of_candidates _ hcandidates] at hhost
  obtain ⟨⟨found, s'⟩, hfound⟩ := outcome_isSome
    (Host.optional clauses.ignoreMissing (e.host.find names)) s
  cases found with
  | error failure =>
    have hfailed := hhost.trans (outcome_bind_error hfound _)
    exact ⟨_, _, hdirect.trans (outcome_bind_error hfound _),
      outcome_watching_error skips hfailed, .failed⟩
  | ok found =>
    have hnext := hhost.trans (outcome_bind_ok hfound _)
    have hnext' := hdirect.trans (outcome_bind_ok hfound _)
    cases found with
    | none =>
      have hskipped := outcome_watching_none hf skips (hnext.trans (outcome_pure _ s'))
      refine ⟨_, _, hnext'.trans (outcome_pure _ s'), hskipped, .ok ?_⟩
      refine Skips.clean_append.2 ⟨hclean, fun answer hanswer => ?_⟩
      rw [List.mem_singleton.1 hanswer, hpassed]
      rfl
    | some tree =>
      have hlate := congrFun (passed_steady hf context clauses.bindings) s'
      rw [hpassed, outcome_of] at hlate
      have hinserted := hnext.trans ((outcome_bind_ok hlate _).trans (outcome_pure _ s'))
      have hinserted' := hnext'.trans
        ((outcome_bind_ok (outcome_consult_variables _ _ s') _).trans (outcome_pure _ s'))
      exact ⟨_, _, hinserted', outcome_watching_some skips hinserted, .ok hclean⟩

/-- An include stands for the same template with the same variables, unless it is skipped and its
    variables are refused. -/
theorem named_transparent (hclean : skips.Clean) (s : Cache × Unit) :
    ∃ p q, outcome (e.directInsertion? Chain.empty context owner (.named expr) clauses) s = some p ∧
      outcome (e.watching.insertion? context owner (.named expr) clauses) (skips, s) = some q ∧
      EndsWatched p q := by
  cases hvalue : valueOf e.settings functions context expr with
  | error failure =>
    have hdirect := outcome_bind_of_outcome (evaluate_value hf context expr)
      (e.directNamed Chain.empty context clauses)
    have hhost := (e.host.outcome_insertion?_named context owner expr clauses).trans
      ((outcome_bind_assoc ..).trans (outcome_bind_of_outcome (evaluate_value hf context expr) _))
    rw [hvalue, outcome_of_error_bind] at hdirect hhost
    exact ⟨_, _, (congrFun hdirect s).trans (outcome_throw _ s),
      outcome_watching_error skips ((congrFun hhost s).trans (outcome_throw _ s)), .failed⟩
  | ok value =>
    cases hbindings : originalOf e.settings functions .template context clauses.bindings with
    | error failure => exact refused_transparent hf hvalue hbindings s
    | ok original =>
      cases hcandidates : Host.candidates value with
      | ok names => exact found_transparent hf hclean hvalue hbindings hcandidates s
      | error misfit =>
        have horiginal := congrFun (originalBindings_value hf .template context clauses.bindings) s
        rw [hbindings, outcome_of] at horiginal
        have hnames := outcome_consult_names
          { bindings := original, context := context, only := clauses.only } value s
        rw [hcandidates] at hnames
        obtain ⟨failure, hnames⟩ := hnames
        have hdirect := (outcome_direct_named hf owner clauses hvalue s).trans
          ((outcome_bind_ok horiginal _).trans (outcome_bind_error hnames _))
        have hmisfit : outcome (Host.optional clauses.ignoreMissing
            (e.host.resolve value expr.span)) s = some (.error (.misfit misfit expr.span), s) := by
          rw [Host.resolve_of_misfit _ hcandidates, Host.outcome_optional, outcome_throw]
          rfl
        have hhost := (outcome_host_named hf owner clauses hvalue s).trans
          (outcome_bind_error hmisfit _)
        exact ⟨_, _, hdirect, outcome_watching_error skips hhost, .failed⟩

end Named

/-- The extended template is the same. -/
theorem parent_transparent (context : Context) (parent : Expr) :
    Transparent (e.directParent Chain.empty context parent)
      (raised (e.host.parent context parent)) := by
  refine .raised_of fun s => ?_
  have hvalue := evaluate_value hf context parent
  have hdirect := congrFun (outcome_bind_of_outcome hvalue fun value => do
    let names ← consult .template (Chain.empty.renamedCandidates
      { bindings := [], context := context, only := false } value)
    e.host.find names) s
  have hhost := congrFun (outcome_bind_of_outcome hvalue fun value =>
    e.host.resolve value parent.span) s
  cases hvalue : valueOf e.settings functions context parent with
  | error failure =>
    rw [hvalue, outcome_of_error_bind] at hdirect hhost
    exact .inl (hdirect.trans hhost.symm)
  | ok value =>
    rw [hvalue, outcome_of_ok_bind] at hdirect hhost
    have hnames := outcome_consult_names
      { bindings := [], context := context, only := false } value s
    cases hcandidates : Host.candidates value with
    | ok names =>
      rw [hcandidates] at hnames
      rw [Host.resolve_of_candidates _ hcandidates] at hhost
      exact .inl ((hdirect.trans (outcome_bind_ok hnames _)).trans hhost.symm)
    | error misfit =>
      rw [hcandidates] at hnames
      obtain ⟨failure, hnames⟩ := hnames
      rw [Host.resolve_of_misfit _ hcandidates] at hhost
      exact .inr ⟨_, _, s, s, hdirect.trans (outcome_bind_error hnames _),
        hhost.trans (outcome_throw _ s)⟩

/-- The empty chain prints, extends and includes what the watched rendering does. -/
theorem direct_compares :
    (e.direct Chain.empty).Compares Transparent.comparison e.watching where
  maxDepth := rfl
  print context expr := .raised (e.host.print context expr)
  parent context expr := parent_transparent hf context expr
  insertion? context owner target clauses :=
    { grows := by
        refine .bind (.raised _) fun found => ?_
        cases found with
        | none => exact .bind (.bind (.raised _) .record) fun _ => .pure none
        | some insertion => exact .pure _
      ends := fun skips s hclean => by
        cases target with
        | named expr => exact named_transparent hf hclean s
        | embedded filename index =>
          exact embedded_transparent hf context owner filename index clauses hclean s }

theorem render_transparent (name : String) (context : Context) :
    Transparent (e.renderDirectly Chain.empty name context) (e.renderWatching name context) :=
  Transparent.comparison.bind (.raised _) fun template =>
    (direct_compares hf).render e.patience template.tree context

omit hf in
/-- A skipped include is recorded; the rest is as it was. -/
theorem recordPassed_follows (hf : ∀ name,
      Dict.get? e.functions name = (Dict.get? functions name).map Function.lift)
    (context : Context) (clauses : Clauses) :
    Follows (fun _ => False) Watched Eq (e.recordPassed context clauses)
      (pure () : Rendering (StateT Cache Id) Unit) := by
  rintro ⟨skips, s⟩ _ rfl r s' hx
  rw [outcome_recordPassed hf] at hx
  cases hx
  exact .inr ⟨.ok (), s, outcome_pure () s, rfl, .ok rfl⟩

/-- A watched engine prints, extends and includes what the engine does. -/
theorem watching_followedBy :
    e.watching.FollowedBy (fun _ => False) Watched e.host.access where
  maxDepth := rfl
  print context expr := raised_follows _
  parent context expr := raised_follows _
  insertion? context owner target clauses := by
    refine Follows.congr ((raised_follows _).bind ?_) rfl (outcome_bind_pure _).symm
    rintro found _ rfl
    cases found with
    | some insertion => exact .pure rfl
    | none =>
      refine Follows.congr ((recordPassed_follows hf context clauses).bind ?_) rfl
        (outcome_pure_bind () fun _ => pure none).symm
      rintro _ _ -
      exact .pure rfl

/-- Watching a rendering does not change it. -/
theorem watching_follows (name : String) (context : Context) :
    Follows (fun _ => False) Watched Eq (e.renderWatching name context)
      (.ofAction (e.render name context) : Rendering (StateT Cache Id) String) := by
  refine (raised_follows _).bind ?_
  rintro template _ rfl
  exact (watching_followedBy hf).render e.patience template.tree context

end Steady

end Engine

/-! ## Stores -/

/-- A store of templates that call no hook. -/
def Loader.CallsNoHook (store : Loader Id) : Prop :=
  ∀ name source tree, store.source name = .ok source →
    Tree.parse name source.toList = .ok tree → tree.Hookless

/-- A store of templates of which the one without a name has no embeds. -/
def Loader.EmbedsInNamed (store : Loader Id) : Prop :=
  ∀ source tree, store.source "" = .ok source →
    Tree.parse "" source.toList = .ok tree → tree.embedded = []

theorem Loader.CallsNoHook.routes {store : Loader Id} (h : store.CallsNoHook)
    (hembeds : store.EmbedsInNamed) (excuse : Failure → Prop) : store.Routes excuse := by
  intro name source hsource
  refine ⟨fun tree => h name source tree hsource, fun tree htree => .inl ?_⟩
  by_cases hname : name = ""
  · subst hname
    exact Tree.fine_of_embedded_nil htree (hembeds source tree hsource htree) true
  · exact Tree.fine_of_parse hname htree true

namespace Engine

/-- A rendering that ends in one of the watched ways succeeds if the watched one does and has a clean
    record. -/
theorem succeeds_iff {α : Type} {p : Except Failure α × Cache × Unit}
    {q : Except Failure α × Skips × Cache × Unit} (h : EndsWatched p q) (a : α) :
    p.1 = .ok a ↔ q.1 = .ok a ∧ q.2.1.Clean := by
  cases h with
  | ok hclean => exact ⟨fun h => ⟨h, hclean⟩, And.left⟩
  | failed => exact ⟨nofun, fun h => nomatch h.1⟩
  | unclean hunclean => exact ⟨nofun, fun h => (hunclean h.2).elim⟩

theorem renders_iff {e : Engine Id} {name : String} {context : Context} {output : String} :
    e.Renders name context output ↔ ((e.render name context).run []).1 = .ok output :=
  ⟨fun ⟨_, h⟩ => by rw [h], fun h => ⟨_, Prod.ext h rfl⟩⟩

/-- An engine with the extension of the empty chain renders what the engine without an extension
    does, if all includes that are skipped would have passed variables. So it is with any
    patience. -/
theorem renders_empty_chain (store : Loader Id) (settings : Settings)
    (functions : Dict (Function Id)) (patience : Nat) (hcalls : store.CallsNoHook)
    (hembeds : store.EmbedsInNamed) (name : String) (context : Context) (output : String) :
    (overriding store settings functions patience Chain.empty).Renders name context output ↔
      (ofFunctions store settings functions patience).Renders name context output ∧
        ((ofFunctions store settings functions patience).skipped name context).Clean := by
  have hf : ∀ name,
      Dict.get? (ofFunctions store settings functions patience : Engine Id).functions name =
        (Dict.get? functions name).map Function.lift := Dict.get?_map _ functions
  have hoverrides : Overrides (fun _ => False)
      (overriding store settings functions patience Chain.empty)
      (ofFunctions store settings functions patience) (Chain.empty : Chain Id) functions store :=
    ⟨overriding_consults .., overriding_passes .., ofFunctions_passes .., rfl,
      hcalls.routes hembeds _, fun _ => not_false⟩
  obtain ⟨p, q, hdirect, hwatched, hends⟩ :=
    (render_transparent hf name context).ends [] ([], ()) nofun
  have hhooked : (((overriding store settings functions patience Chain.empty : Engine Id).render
      name context).run []).1 = p.1 := by
    obtain ⟨t, ht, -⟩ := (hoverrides.render (τ := Unit) name context).eq (s := ([], ()))
      (t := ([], ())) ⟨.nil, rfl⟩ rfl
    rw [hdirect] at ht
    cases ht
    rfl
  have hplain : (((ofFunctions store settings functions patience : Engine Id).render name
      context).run []).1 = q.1 := by
    obtain ⟨t, ht, -⟩ := (watching_follows hf name context).eq (s := ([], [], ()))
      (t := ([], ())) rfl hwatched
    exact congrArg Prod.fst (Option.some.inj ht)
  have hskipped : (ofFunctions store settings functions patience).skipped name context = q.2.1 :=
    congrArg (fun r => r.2.1) (Option.some.inj hwatched)
  rw [renders_iff, renders_iff, hhooked, hplain, hskipped]
  exact succeeds_iff hends output

/-- A template that skips an include and renders another one. -/
def skipping (passed : String) : Dict String :=
  [("page", "a" ++ tag ("include 'none' ignore missing with " ++ passed) ++
    tag "include ['none', 'part'] with \x7b'x': 'b'\x7d only"), ("part", "\x7b\x7bx\x7d\x7d")]

theorem renders_empty_chain_skipping :
    (overriding (Loader.memory (skipping "null")) {} [] 0 Chain.empty).Renders "page" [] "ab" := by
  have hcalls : (Loader.memory (skipping "null") : Loader Id).CallsNoHook := by
    intro name source tree
    refine Loader.memory_forall ?_
    decide +kernel
  have hembeds : (Loader.memory (skipping "null") : Loader Id).EmbedsInNamed := nofun
  refine (renders_empty_chain _ {} [] 0 hcalls hembeds "page" [] "ab").2 ⟨?_, ?_⟩
  · rw [renders_iff]
    decide +kernel
  · unfold Skips.Clean
    decide +kernel

/-- The empty chain is not always an identity: an include that is skipped may pass what the hooks
    refuse. -/
theorem empty_chain_refuses_skipped :
    ¬ ∀ (store : Loader Id) (settings : Settings) (functions : Dict (Function Id)) (name : String)
      (context : Context) (output : String),
      (∀ hook : Hook, Dict.get? functions hook.name = none) → store.CallsNoHook →
      (ofFunctions store settings functions 0).Renders name context output →
      (overriding store settings functions 0 Chain.empty).Renders name context output := by
  intro h
  have hcalls : (Loader.memory (skipping "1") : Loader Id).CallsNoHook := by
    intro name source tree
    refine Loader.memory_forall ?_
    decide +kernel
  have hplain : (ofFunctions (Loader.memory (skipping "1")) {} [] 0).Renders "page" [] "ab" := by
    rw [renders_iff]
    decide +kernel
  have hover := h (Loader.memory (skipping "1")) {} [] "page" [] "ab" (fun _ => rfl) hcalls hplain
  rw [renders_iff] at hover
  revert hover
  decide +kernel

/-- Nor is it where no include is skipped: the template without a name may have embeds. -/
theorem empty_chain_refuses_nameless :
    (ofFunctions (Loader.memory [("", tag "embed 'part'" ++ tag "endembed"), ("part", "d")]) {}
      [] 0).Renders "" [] "d" ∧
    ¬ (overriding (Loader.memory [("", tag "embed 'part'" ++ tag "endembed"), ("part", "d")]) {} []
      0 Chain.empty).Renders "" [] "d" := by
  rw [renders_iff, renders_iff]
  decide +kernel

end Engine

end Stencil
