import Stencil.Engine.Environment
import Stencil.Override.Hook

/-!
# Overrides without hooks

What the overrides mean, without hooks: an interpreter of the trees that no hook was put into, which
asks the providers of a chain itself wherever a template asks for another one.

An extended or included template has the names that its expression gives, each of them handed from
provider to provider. The variables of an include or an embed are handed from provider to provider
as well, together with the first name as it was before, or with the name of the template that the
embed stands in.

Results:
* `Chain.rename_eq_renamed`, `Chain.rebind_eq_rebound`: the pipelines of a chain as folds.
-/

namespace Stencil

namespace Override

/-- The failure that a fault in a hook ends a rendering with. -/
def Hook.failure (hook : Hook) (fault : Fault) : Failure :=
  .functionFailed hook.name (.override fault)

namespace Chain

variable {m : Type → Type} [Monad m]

/-- The name of a template after all providers, each of which sees the name that the one before it
    gave, and the inclusion as it is. -/
def renamed (c : Chain m) (inclusion : Inclusion) (template : String) : ExceptT Fault m String :=
  c.providers.foldlM (fun name p =>
    ExceptT.mk (Except.mapError (.provider p.name .rename) <$> p.rename name inclusion)) template

/-- The variables of an inclusion after all providers, each of which sees the variables that the one
    before it gave, and the name as it is. -/
def rebound (c : Chain m) (template : String) (inclusion : Inclusion) : ExceptT Fault m Context :=
  c.providers.foldlM (fun bindings p =>
    ExceptT.mk (Except.mapError (.provider p.name .rebindArguments) <$>
      p.rebind template { inclusion with bindings := bindings })) inclusion.bindings

theorem rename_eq_renamed (c : Chain m) (template : String) (inclusion : Inclusion) :
    c.rename template inclusion = c.renamed inclusion template := by
  unfold rename renamed
  generalize c.providers = providers
  induction providers generalizing template with
  | nil => rfl
  | cons p rest ih => simp only [renameAll, List.foldlM_cons, ih]

theorem rebind_eq_rebound (c : Chain m) (template : String) (inclusion : Inclusion) :
    c.rebind template inclusion = c.rebound template inclusion := by
  unfold rebind rebound
  generalize c.providers = providers
  induction providers generalizing inclusion with
  | nil => rfl
  | cons p rest ih => simp only [rebindAll, List.foldlM_cons, ih]

/-- The names after all providers of the items of an array of names. -/
def renamedItems (c : Chain m) (inclusion : Inclusion) : List Value → ExceptT Fault m (List String)
  | [] => pure []
  | .string name :: rest => do
    let first ← c.renamed inclusion name
    let others ← c.renamedItems inclusion rest
    pure (first :: others)
  | other :: _ => throw (.invalidArgument .template (.nameNotString (Json.write other)))

/-- The names after all providers that a value stands for: of one name, or of an array of names. -/
def renamedCandidates (c : Chain m) (inclusion : Inclusion) :
    Value → ExceptT Fault m (List String)
  | .string name => do
    let first ← c.renamed inclusion name
    pure [first]
  | .array items => c.renamedItems inclusion items
  | other => throw (.invalidArgument .template (.notName (Json.write other)))

end Chain

/-- The first name that a value stands for. Where there is none, no template is found either. -/
def firstName : Value → String
  | .string name => name
  | .array (.string name :: _) => name
  | _ => ""

end Override

namespace Engine

open Override

variable {m : Type → Type} [Monad m]

/-- Asks the providers of a chain. Their faults are those of a hook. -/
def consult {α : Type} (hook : Hook) (question : ExceptT Fault m α) :
    Rendering (StateT Cache m) α :=
  .ofAction (StateT.lift (Except.mapError hook.failure <$> question.run))

/-- The value of the variables that an include passes; `null` if it passes none. -/
def bindingsValue (e : Engine m) (context : Context) : Option Expr → Rendering (StateT Cache m) Value
  | none => pure .null
  | some expr => e.host.evaluate context expr

/-- The variables that an include passes, before the providers. -/
def originalBindings (e : Engine m) (hook : Hook) (context : Context) (bindings : Option Expr) :
    Rendering (StateT Cache m) Context := do
  match ← e.bindingsValue context bindings with
  | .mapping fields => pure fields
  | .null => pure []
  | other => throw (hook.failure (.invalidArgument hook (.notMapping "with" (Json.write other))))

/-- The template that an expression names as the one to extend. -/
def directParent (e : Engine m) (c : Chain m) (context : Context) (parent : Expr) :
    Rendering (StateT Cache m) Tree := do
  let value ← e.host.evaluate context parent
  let names ← consult .template
    (c.renamedCandidates { bindings := [], context := context, only := false } value)
  e.host.find names

/-- The first template that is there of the given names, with the variables of an inclusion after the
    providers; nothing if there is none and it may be missing. -/
def directFound (e : Engine m) (c : Chain m) (ignoreMissing : Bool) (template : String)
    (inclusion : Inclusion) (names : List String) :
    Rendering (StateT Cache m) (Option Insertion) := do
  match ← Host.optional ignoreMissing (e.host.find names) with
  | none => pure none
  | some tree =>
    let bindings ← consult .parameters (c.rebound template inclusion)
    pure (some ⟨tree, tree, Host.scope inclusion.context inclusion.only bindings⟩)

/-- What an include of the template that a value names stands for. -/
def directNamed (e : Engine m) (c : Chain m) (context : Context) (clauses : Clauses)
    (value : Value) : Rendering (StateT Cache m) (Option Insertion) := do
  let original ← e.originalBindings .template context clauses.bindings
  let inclusion : Inclusion := { bindings := original, context := context, only := clauses.only }
  let names ← consult .template (c.renamedCandidates inclusion value)
  e.directFound c clauses.ignoreMissing (firstName value) inclusion names

/-- What an embed in the template of the given name stands for. -/
def directEmbedded (e : Engine m) (c : Chain m) (context : Context) (clauses : Clauses)
    (template : String) (tree owner : Tree) : Rendering (StateT Cache m) (Option Insertion) := do
  let original ← e.originalBindings .parameters context clauses.bindings
  let inclusion : Inclusion := { bindings := original, context := context, only := clauses.only }
  let bindings ← consult .parameters (c.rebound template inclusion)
  pure (some ⟨tree, owner, Host.scope context clauses.only bindings⟩)

/-- What an include stands for, unless it is skipped. -/
def directInsertion? (e : Engine m) (c : Chain m) (context : Context) (owner : Tree)
    (target : Target) (clauses : Clauses) : Rendering (StateT Cache m) (Option Insertion) :=
  match target with
  | .named expr => do
    let value ← e.host.evaluate context expr
    e.directNamed c context clauses value
  | .embedded filename index =>
    match owner.embedded[index]? with
    | none => throw (.missingEmbedded filename index)
    | some tree => e.directEmbedded c context clauses filename tree owner

/-- Printing as the engine does, and finding templates as the engine and a chain do. -/
def direct (e : Engine m) (c : Chain m) : Access (StateT Cache m) where
  maxDepth := e.settings.maxDepth
  print := e.host.print
  parent := e.directParent c
  insertion? := e.directInsertion? c

/-- The text of a compiled template. -/
def renderTemplateDirectly (e : Engine m) (c : Chain m) (template : Template) (context : Context) :
    Rendering (StateT Cache m) String :=
  (e.direct c).render e.patience template.tree context

/-- The text of a template by its name. -/
def renderDirectly (e : Engine m) (c : Chain m) (name : String) (context : Context) :
    Rendering (StateT Cache m) String := do
  let template ← .ofAction (e.load name)
  e.renderTemplateDirectly c template context

/-- The text of a source that is compiled apart from the templates that are kept. -/
def renderSource (e : Engine m) (name source : String) (context : Context) :
    Rendering (StateT Cache m) String := do
  let template ← Rendering.ofAction (StateT.lift (e.compile name source).run)
  Rendering.ofAction (e.renderTemplate template context)

/-- The text of such a source, without hooks. -/
def renderSourceDirectly (e : Engine m) (c : Chain m) (name source : String) (context : Context) :
    Rendering (StateT Cache m) String := do
  let template ← Rendering.ofAction (StateT.lift (e.compile name source).run)
  e.renderTemplateDirectly c template context

end Engine

/-! ## Records -/

namespace Override

/-- A question that a provider was asked. -/
structure Consultation where
  /-- The position of the provider in its chain. -/
  provider : Nat
  stage : Stage
  template : String
  inclusion : Inclusion
deriving Repr, Inhabited

/-- A provider that keeps a record of what it is asked. -/
def Provider.recorded (p : Provider Id) (position : Nat) :
    Provider (StateM (List Consultation)) where
  name := p.name
  problem := p.problem
  rename template inclusion := fun record =>
    (p.rename template inclusion, record ++ [⟨position, .rename, template, inclusion⟩])
  rebind template inclusion := fun record =>
    (p.rebind template inclusion, record ++ [⟨position, .rebindArguments, template, inclusion⟩])

/-- A chain that keeps a record of what its providers are asked. -/
def Chain.recorded (c : Chain Id) : Chain (StateM (List Consultation)) :=
  ⟨c.providers.zipIdx.map fun (p, position) => p.recorded position⟩

end Override

end Stencil
