import Stencil.Engine.Evaluate

/-!
# Rendering

The text of a template in a context.

A template without a parent renders its body. A template with a parent renders the body of the
parent, and of the parent's parent and so on, in which every block is replaced by the definition of
the template that is nearest to the first one. A definition brings its owner along: the template
whose embedded trees the includes in it refer to.

Includes, embeds and parents count against the depth limit of the settings. Nothing limits how many
definitions lead from one to the next: a block that is overridden by one with a block of the same
name inside goes on until the stack is used up, or until a function fails that is called on the way.
Here that is bounded by the number of the defined names and a patience together, and
`Failure.endlessBlock` says that the bound was too small, which is no failure of the program.
`Access.Yields` is the rendering without the bound: every other end of a rendering with some patience
is an end of that one (`Access.yields_of_renderTree`), and whatever that one ends in, all large enough
patiences lead to (`Access.Yields.exists_patience`). What is shown of renderings is shown of all
patiences.

How expressions are printed and other templates are found is left to an `Access`; `Host.access` is
the one of a host.

* `addDefinitions_nil`, `addDefinitions_cons`: an earlier definition of a name stays in effect.
* `Access.renderBody_nil`, `Access.renderBody_cons`, `Access.renderNode_text`,
  `Access.renderNode_print`, `Access.renderNode_include`, `Access.renderNode_own`,
  `Access.renderNode_defined`: a body, node by node.
* `Access.renderTree_zero`: beyond the limit there is only a failure.
* `Access.renderTree_root`, `Access.renderTree_child`: a tree without and with a parent.
-/

namespace Stencil

/-- The definition of a block that is in effect (an entry of the `Blocks` of a `Renderer`). -/
structure Definition where
  body : List Node
  /-- The template whose embedded trees the body refers to. -/
  owner : Tree
deriving Repr, Inhabited

/-- The definitions in effect by block name. -/
abbrev Definitions := Dict Definition

/-- Adds the blocks of a template; names that are defined already keep their definitions (the loop
    over the `blocks` in `render_with_blocks`). -/
def addDefinitions (defined : Definitions) (owner : Tree) (blocks : List Block) : Definitions :=
  blocks.foldl (fun d b => Dict.insertNew d b.name ⟨b.body, owner⟩) defined

theorem addDefinitions_nil (defined : Definitions) (owner : Tree) :
    addDefinitions defined owner [] = defined := rfl

theorem addDefinitions_cons (defined : Definitions) (owner : Tree) (block : Block)
    (rest : List Block) : addDefinitions defined owner (block :: rest) =
      addDefinitions (Dict.insertNew defined block.name ⟨block.body, owner⟩) owner rest := rfl

/-- How the nodes of a body are rendered that are not plain text. -/
structure NodeRendering (n : Type → Type) where
  /-- The text of a printed expression. -/
  print : Expr → Rendering n String
  /-- The text of an include. -/
  insert : Target → Clauses → Rendering n String
  /-- The text of a block that has a definition in effect, if it has one. -/
  replace? : String → Option (Unit → Rendering n String)

namespace NodeRendering

variable {n : Type → Type} [Monad n]

mutual

/-- The text of a node. -/
def onNode (r : NodeRendering n) : Node → Rendering n String
  | .text _ content => pure content
  | .print _ expr => r.print expr
  | .block _ name body =>
    match r.replace? name with
    | some replacement => replacement ()
    | none => r.onNodes body
  | .«include» _ target clauses => r.insert target clauses

/-- The text of a body. -/
def onNodes (r : NodeRendering n) : List Node → Rendering n String
  | [] => pure ""
  | node :: rest => do
    let front ← r.onNode node
    let back ← r.onNodes rest
    pure (front ++ back)

end

end NodeRendering

/-- A tree to be rendered, with the owner of the embedded trees in it and the context it sees. -/
structure Insertion where
  tree : Tree
  owner : Tree
  context : Context
deriving Repr, Inhabited

/-- How a rendering prints expressions and finds other templates. -/
structure Access (n : Type → Type) where
  /-- How deep templates may be nested. -/
  maxDepth : Nat
  /-- The text of a printed expression. -/
  print : Context → Expr → Rendering n String
  /-- The template that an expression names as the one to extend. -/
  parent : Context → Expr → Rendering n Tree
  /-- What an include in a body with the given owner stands for, unless it is skipped. -/
  insertion? : Context → Tree → Target → Clauses → Rendering n (Option Insertion)

namespace Access

variable {n : Type → Type} [Monad n]

/-- The text of an include (`render_include`). The first argument renders what it stands for. -/
def insert (a : Access n) (render : Insertion → Rendering n String) (context : Context)
    (owner : Tree) (target : Target) (clauses : Clauses) : Rendering n String := do
  match ← a.insertion? context owner target clauses with
  | none => pure ""
  | some insertion => render insertion

/-- How the nodes of a body are rendered under the definitions in effect. The last argument renders
    the definition of a name. -/
def nodes (a : Access n) (render : Insertion → Rendering n String) (context : Context)
    (defined : Definitions) (owner : Tree) (follow : String → Definition → Rendering n String) :
    NodeRendering n where
  print := a.print context
  insert := a.insert render context owner
  replace? name := (Dict.get? defined name).map fun d _ => follow name d

/-- The text of a body under the definitions in effect (`render_nodes`). The number bounds how many
    definitions may lead from one to the next; beyond it there is `Failure.endlessBlock`, where the
    program would go on. -/
def renderBody (a : Access n) (render : Insertion → Rendering n String) (context : Context)
    (defined : Definitions) : Nat → Tree → List Node → Rendering n String
  | 0, owner, body =>
    (a.nodes render context defined owner fun name _ => throw (.endlessBlock name)).onNodes body
  | bound + 1, owner, body =>
    (a.nodes render context defined owner fun _ d =>
      a.renderBody render context defined bound d.owner d.body).onNodes body

/-- The text of a tree under the definitions in effect (`render_with_blocks`). The first number is
    how many more definitions may lead from one to the next than names are defined, the second one
    is how many trees may be nested, this one included. -/
def renderTree (a : Access n) (patience : Nat) :
    Nat → Definitions → Tree → Tree → Context → Rendering n String
  | 0, _, tree, _, _ => throw (.tooDeep a.maxDepth tree.name)
  | depth + 1, defined, tree, owner, context =>
    match tree.parent with
    | none =>
      a.renderBody (fun i => a.renderTree patience depth [] i.tree i.owner i.context) context defined
        (defined.length + patience) owner tree.body
    | some parent => do
      let found ← a.parent context parent
      a.renderTree patience depth (addDefinitions defined owner tree.blocks) found found context

/-- The text of a template (`render_module`). -/
def render (a : Access n) (patience : Nat) (tree : Tree) (context : Context) :
    Rendering n String :=
  a.renderTree patience (a.maxDepth + 1) [] tree tree context

/-! ## Bodies, node by node -/

section Nodes

variable (a : Access n) (render : Insertion → Rendering n String) (context : Context)
  (defined : Definitions) (bound : Nat) (owner : Tree)

/-- The text of a definition in effect. -/
def follow (name : String) (d : Definition) : Rendering n String :=
  match bound with
  | 0 => throw (.endlessBlock name)
  | bound + 1 => a.renderBody render context defined bound d.owner d.body

/-- The text of a node under the definitions in effect. -/
def renderNode (node : Node) : Rendering n String :=
  (a.nodes render context defined owner (a.follow render context defined bound)).onNode node

theorem renderBody_eq_onNodes (body : List Node) :
    a.renderBody render context defined bound owner body =
      (a.nodes render context defined owner
        (a.follow render context defined bound)).onNodes body := by
  cases bound <;> rfl

theorem renderBody_nil : a.renderBody render context defined bound owner [] = pure "" := by
  simp only [renderBody_eq_onNodes, NodeRendering.onNodes]

theorem renderBody_cons (node : Node) (rest : List Node) :
    a.renderBody render context defined bound owner (node :: rest) = (do
      let front ← a.renderNode render context defined bound owner node
      let back ← a.renderBody render context defined bound owner rest
      pure (front ++ back)) := by
  simp only [renderBody_eq_onNodes, NodeRendering.onNodes, renderNode]

theorem renderNode_text (span : Span) (content : String) :
    a.renderNode render context defined bound owner (.text span content) = pure content := by
  simp only [renderNode, NodeRendering.onNode]

theorem renderNode_print (span : Span) (expr : Expr) :
    a.renderNode render context defined bound owner (.print span expr) = a.print context expr := by
  simp only [renderNode, NodeRendering.onNode, nodes]

theorem renderNode_include (span : Span) (target : Target) (clauses : Clauses) :
    a.renderNode render context defined bound owner (.«include» span target clauses) =
      a.insert render context owner target clauses := by
  simp only [renderNode, NodeRendering.onNode, nodes]

/-- A block without a definition in effect renders its own body. -/
theorem renderNode_own {name : String} (h : Dict.get? defined name = none) (span : Span)
    (body : List Node) :
    a.renderNode render context defined bound owner (.block span name body) =
      a.renderBody render context defined bound owner body := by
  simp only [renderNode, NodeRendering.onNode, nodes, h, Option.map_none, renderBody_eq_onNodes]

/-- A block with a definition in effect renders the definition. -/
theorem renderNode_defined {name : String} {d : Definition}
    (h : Dict.get? defined name = some d) (span : Span) (body : List Node) :
    a.renderNode render context defined bound owner (.block span name body) =
      a.follow render context defined bound name d := by
  simp only [renderNode, NodeRendering.onNode, nodes, h, Option.map_some]

end Nodes

theorem follow_zero (a : Access n) (render : Insertion → Rendering n String) (context : Context)
    (defined : Definitions) (name : String) (d : Definition) :
    a.follow render context defined 0 name d = throw (.endlessBlock name) := rfl

theorem follow_succ (a : Access n) (render : Insertion → Rendering n String) (context : Context)
    (defined : Definitions) (bound : Nat) (name : String) (d : Definition) :
    a.follow render context defined (bound + 1) name d =
      a.renderBody render context defined bound d.owner d.body := rfl

/-! ## Trees -/

theorem renderTree_zero (a : Access n) (patience : Nat) (defined : Definitions)
    (tree owner : Tree) (context : Context) : a.renderTree patience 0 defined tree owner context =
      throw (.tooDeep a.maxDepth tree.name) := rfl

/-- A tree without a parent renders its body. -/
theorem renderTree_root (a : Access n) (patience depth : Nat) (defined : Definitions) {tree : Tree}
    (h : tree.parent = none) (owner : Tree) (context : Context) :
    a.renderTree patience (depth + 1) defined tree owner context =
      a.renderBody (fun i => a.renderTree patience depth [] i.tree i.owner i.context) context defined
        (defined.length + patience) owner tree.body := by
  simp only [renderTree, h]

/-- A tree with a parent renders the parent under its own definitions. -/
theorem renderTree_child (a : Access n) (patience depth : Nat) (defined : Definitions) {tree : Tree}
    {parent : Expr} (h : tree.parent = some parent) (owner : Tree) (context : Context) :
    a.renderTree patience (depth + 1) defined tree owner context = (do
      let found ← a.parent context parent
      a.renderTree patience depth (addDefinitions defined owner tree.blocks) found found
        context) := by
  simp only [renderTree, h]

end Access

namespace Host

variable {n : Type → Type} [Monad n] {T : Type}

/-- The text of a printed expression. -/
def print (host : Host n T) (context : Context) (expr : Expr) : Rendering n String := do
  let value ← host.evaluate context expr
  .of (printValue value expr.span)

/-- The template that an expression names. -/
def parent (host : Host n T) (context : Context) (expr : Expr) : Rendering n T := do
  let value ← host.evaluate context expr
  host.resolve value expr.span

/-- A step whose failure to find a template may be forgiven. -/
def optional {α : Type} (forgiven : Bool) (step : Rendering n α) : Rendering n (Option α) :=
  .ofAction do
    match ← step.run with
    | .ok a => pure (.ok (some a))
    | .error (.templateNotFound name) =>
      pure (if forgiven then .ok none else .error (.templateNotFound name))
    | .error failure => pure (.error failure)

/-- The template that an expression names as the one to include; nothing if it is missing and may be
    (the call of `resolve` in `render_include`). -/
def included? (host : Host n T) (context : Context) (ignoreMissing : Bool) (expr : Expr) :
    Rendering n (Option T) := do
  let value ← host.evaluate context expr
  optional ignoreMissing (host.resolve value expr.span)

/-- The tree that an include renders, with the owner of the embedded trees in it; nothing if the
    template is missing and may be (the `target` in `render_include`). -/
def target? (host : Host n) (context : Context) (owner : Tree) (ignoreMissing : Bool) :
    Target → Rendering n (Option (Tree × Tree))
  | .named expr => do
    let found ← host.included? context ignoreMissing expr
    pure (found.map fun tree => (tree, tree))
  | .embedded filename index =>
    match owner.embedded[index]? with
    | some tree => pure (some (tree, owner))
    | none => throw (.missingEmbedded filename index)

/-- The variables that a value passes to an include (the `variables` in `render_include`). -/
def variablesOf (value : Value) (span : Span) : Except Failure Context :=
  match value with
  | .mapping fields => .ok fields
  | .null => .ok []
  | other => .error (.misfit (.variablesNotMapping other.kind) span)

/-- The variables that an include passes. -/
def passed (host : Host n T) (context : Context) : Option Expr → Rendering n Context
  | none => pure []
  | some expr => do
    let value ← host.evaluate context expr
    .of (variablesOf value expr.span)

/-- The context of an included template (the context that `render_include` goes on with). -/
def scope (context : Context) (only : Bool) (bindings : Context) : Context :=
  if only then bindings else Dict.merge context bindings

/-- What an include stands for, unless it is skipped (all of `render_include` before it renders
    another template). -/
def insertion? (host : Host n) (context : Context) (owner : Tree) (target : Target)
    (clauses : Clauses) : Rendering n (Option Insertion) := do
  match ← host.target? context owner clauses.ignoreMissing target with
  | none => pure none
  | some (tree, inner) =>
    let bindings ← host.passed context clauses.bindings
    pure (some ⟨tree, inner, scope context clauses.only bindings⟩)

/-- Printing and finding templates as the host does. -/
def access (host : Host n) : Access n where
  maxDepth := host.settings.maxDepth
  print := host.print
  parent := host.parent
  insertion? := host.insertion?

/-- The text of a template. -/
def render (host : Host n) (patience : Nat) (tree : Tree) (context : Context) :
    Rendering n String :=
  host.access.render patience tree context

end Host

end Stencil
