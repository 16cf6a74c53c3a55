import Stencil.Engine.Render
import Stencil.Template.Assembly
import Stencil.Template.TextMerge

/-!
# Environments

An environment loads templates by name, compiles them and keeps what it has compiled. A compiled
template is the tree of its source after all passes, which run in the order of their priorities and,
among equals, in the order in which they were added.

What is kept is given up whenever a pass is added or the settings change. Adding a function keeps
it, since functions act only when a template is rendered.

* `mem_insertPass`: a new pass joins the others, and none is lost.
* `insertPass_append_low`, `insertPass_append_high`: where it goes.
-/

namespace Stencil

/-- A compiled template. -/
structure Template where
  name : String
  tree : Tree
deriving Repr, Inhabited

/-- The compiled templates that are kept, by name. -/
abbrev Cache := Dict Template

section Keeping

variable {m : Type → Type} [Monad m] {α : Type}

/-- Gives what is kept under a name, or makes it and keeps it (`load_template`, for anything that is
    made). -/
def keep (make : String → ExceptT Failure m α) (name : String) :
    StateT (Dict α) m (Except Failure α) := fun kept =>
  match Dict.get? kept name with
  | some a => pure (.ok a, kept)
  | none => do
    match ← (make name).run with
    | .ok a => pure (.ok a, Dict.insert kept name a)
    | .error failure => pure (.error failure, kept)

/-- Whether something is kept under a name or could be made (`exists`, for anything that is made).
    -/
def available (there : String → m Bool) (name : String) : StateT (Dict α) m Bool := fun kept =>
  if Dict.contains kept name then pure (true, kept)
  else do
    let answer ← there name
    pure (answer, kept)

end Keeping

/-- Functions and passes that belong together (what a `FunctionExtension` and a `VisitorExtension`
    give). -/
structure Extension (m : Type → Type) where
  functions : List (String × Function m)
  passes : List (Pass m)

/-- All that determines how templates are compiled and rendered (an `Environment` without its
    `cache`). -/
structure Engine (m : Type → Type) where
  loader : Loader m
  settings : Settings := {}
  functions : Dict (Function m) := []
  /-- The passes in the order in which they run. -/
  passes : List (Pass m)
  /-- How many more definitions of blocks may lead from one to the next than names are defined. It is
      no setting: it bounds what would not end by itself. -/
  patience : Nat := 0

/-- Puts a pass after all passes that do not come later than it (`add_node_visitor`, which pushes it
    to the end and sorts all of them stably: the same on passes in order, by
    `insertPass_of_inOrder`). -/
def insertPass {m : Type → Type} (pass : Pass m) : List (Pass m) → List (Pass m)
  | [] => [pass]
  | p :: rest =>
    if p.priority ≤ pass.priority then p :: insertPass pass rest else pass :: p :: rest

theorem mem_insertPass {m : Type → Type} (p pass : Pass m) (passes : List (Pass m)) :
    p ∈ insertPass pass passes ↔ p = pass ∨ p ∈ passes := by
  induction passes with
  | nil => simp [insertPass]
  | cons q rest ih =>
    by_cases h : q.priority ≤ pass.priority
    · simp [insertPass, h, ih, or_left_comm]
    · simp [insertPass, h]

/-- A pass stays ahead of those that come later than it. -/
theorem insertPass_append_low {m : Type → Type} {pass : Pass m} {before after : List (Pass m)}
    (h : ∀ p ∈ after, pass.priority < p.priority) :
    insertPass pass (before ++ after) = insertPass pass before ++ after := by
  induction before with
  | nil =>
    cases after with
    | nil => rfl
    | cons p rest =>
      have hlater : ¬ p.priority ≤ pass.priority := Int.not_le.2 (h p List.mem_cons_self)
      simp only [List.nil_append, insertPass, if_neg hlater, List.cons_append]
  | cons p rest ih =>
    simp only [List.cons_append, insertPass, ih]
    split <;> rfl

/-- A pass goes behind those that do not come later than it. -/
theorem insertPass_append_high {m : Type → Type} {pass : Pass m} {before after : List (Pass m)}
    (h : ∀ p ∈ before, p.priority ≤ pass.priority) :
    insertPass pass (before ++ after) = before ++ insertPass pass after := by
  induction before with
  | nil => rfl
  | cons p rest ih =>
    obtain ⟨hp, hrest⟩ := List.forall_mem_cons.1 h
    rw [List.cons_append, insertPass, if_pos hp, ih hrest, List.cons_append]

namespace Engine

variable {m : Type → Type} [Monad m]

/-- Adds a pass. -/
def addPass (e : Engine m) (pass : Pass m) : Engine m :=
  { e with passes := insertPass pass e.passes }

/-- Adds a function; an earlier one of the same name is gone. -/
def addFunction (e : Engine m) (name : String) (function : Function m) : Engine m :=
  { e with functions := Dict.insert e.functions name function }

/-- Runs passes over a tree, one after the other (the loop over the `visitors` in `compile`). -/
def runPasses : List (Pass m) → Tree → ExceptT MissingPart m Tree
  | [], tree => pure tree
  | p :: rest, tree => do
    match ← ExceptT.lift (p.onTree tree) with
    | (_, some fault) => throw fault
    | (tree, none) => runPasses rest tree

/-- Compiles a source (`compile`). -/
def compile (e : Engine m) (name source : String) : ExceptT Failure m Template :=
  match Tree.parse name source.toList with
  | .error faults => throw (.invalidSource name source faults)
  | .ok tree => do
    let tree ← ExceptT.mk
      (Except.mapError (.invalidTree name) <$> (runPasses e.passes tree).run)
    pure ⟨name, tree⟩

/-- The failure of a template whose source cannot be given (the `RenderError` that `load_template`
    makes of a `LoaderError`). -/
def failureOfLoad (name : String) : LoadFault → Failure
  | .notFound missing => .templateNotFound missing
  | fault => .unreadable name fault

/-- Compiles the source that the loader gives (`load_template` of a name that is not in the cache).
    -/
def loadFresh (e : Engine m) (name : String) : ExceptT Failure m Template := do
  let source ← ExceptT.mk (Except.mapError (failureOfLoad name) <$> e.loader.source name)
  e.compile name source

/-- Gives a kept template, or compiles it and keeps it (`load_template`). -/
def load (e : Engine m) : String → StateT Cache m (Except Failure Template) := keep e.loadFresh

/-- Whether a template is kept or can be loaded (`exists`). -/
def has (e : Engine m) : String → StateT Cache m Bool := available e.loader.has

/-- The engine as a host that keeps what is made under the names of templates. -/
def hostOf {α T : Type} (e : Engine m) (make : String → ExceptT Failure m α) (content : α → T) :
    Host (StateT (Dict α) m) T where
  settings := e.settings
  function? name := (Dict.get? e.functions name).map fun f values => StateT.lift (f values)
  has := available e.loader.has
  load name := Except.map content <$> keep make name

/-- The engine as a host that keeps what it compiles (what a `Renderer` asks its `env`). -/
def host (e : Engine m) : Host (StateT Cache m) := e.hostOf e.loadFresh Template.tree

/-- The text of a compiled template (`render_template`). -/
def renderTemplate (e : Engine m) (template : Template) (context : Context) :
    StateT Cache m (Except Failure String) :=
  (e.host.render e.patience template.tree context).run

/-- The text of a template by its name (`render`). -/
def render (e : Engine m) (name : String) (context : Context) :
    StateT Cache m (Except Failure String) :=
  ExceptT.run do
    let template ← Rendering.ofAction (e.load name)
    Rendering.ofAction (e.renderTemplate template context)

end Engine

/-- An engine with what it has compiled so far (`Environment`, with its `cache`). -/
structure Environment (m : Type → Type) where
  engine : Engine m
  cache : Cache := []

namespace Environment

variable {m : Type → Type} [Monad m]

/-- The environment of a loader, with the built-in pass and the usual settings (`new`). -/
def ofLoader (loader : Loader m) (patience : Nat := 0) : Environment m where
  engine := { loader := loader, passes := [textMerge], patience := patience }

/-- Changes the settings (`with_config`). -/
def configure (env : Environment m) (settings : Settings) : Environment m where
  engine := { env.engine with settings := settings }

/-- Adds a function (`add_function`). -/
def addFunction (env : Environment m) (name : String) (function : Function m) : Environment m :=
  { env with engine := env.engine.addFunction name function }

/-- Adds a pass (`add_node_visitor`). -/
def addPass (env : Environment m) (pass : Pass m) : Environment m where
  engine := env.engine.addPass pass

/-- Adds the functions of an extension (`register_functions`). -/
def addFunctions (env : Environment m) (extension : Extension m) : Environment m :=
  extension.functions.foldl (fun env (name, f) => env.addFunction name f) env

/-- Adds the passes of an extension (`register_visitors`). -/
def addPasses (env : Environment m) (extension : Extension m) : Environment m :=
  extension.passes.foldl addPass env

/-- Adds an extension (`add_extension`). -/
def install (env : Environment m) (extension : Extension m) : Environment m :=
  (env.addFunctions extension).addPasses extension

/-- An answer, with the environment after it. -/
abbrev Answer (m : Type → Type) (α : Type) := Except Failure α × Environment m

/-- Lets the engine act on what is kept. -/
def act {α : Type} (env : Environment m) (step : StateT Cache m α) : m (α × Environment m) := do
  let (a, cache) ← step.run env.cache
  pure (a, { env with cache := cache })

/-- Compiles a source without keeping it (`compile`). -/
def compile (env : Environment m) (name source : String) : m (Except Failure Template) :=
  (env.engine.compile name source).run

/-- Gives a template by its name (`load_template`). -/
def load (env : Environment m) (name : String) : m (Answer m Template) :=
  env.act (env.engine.load name)

/-- Whether a template is there (`exists`). -/
def has (env : Environment m) (name : String) : m Bool := (env.engine.has name).run' env.cache

/-- The text of a template by its name (`render`). -/
def render (env : Environment m) (name : String) (context : Context) : m (Answer m String) :=
  env.act (env.engine.render name context)

/-- The text of a compiled template (`render_template`). -/
def renderTemplate (env : Environment m) (template : Template) (context : Context) :
    m (Answer m String) :=
  env.act (env.engine.renderTemplate template context)

end Environment

end Stencil
