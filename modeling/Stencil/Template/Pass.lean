import Stencil.Template.Tree

/-!
# Passes over template trees

A pass looks at every node of a tree before its children and may change it after them. The children
of a tree are its embedded trees and then the nodes of its body; the children of a block are the
nodes of its body; no other node has any.

A pass may refuse a node, and then it goes no further: what it has changed so far stays changed,
and all else is as it was. A pass acts in a monad of its own, so it may keep a record of its visits.

* `Pass.onNodes_nil`, `Pass.onNodes_cons`: a body is changed from its first node to its last.
-/

namespace Stencil

/-- A node lacks a part that its kind requires (`StructuralError`). -/
structure MissingPart where
  kind : String
  part : String
  span : Span
deriving DecidableEq, Repr, Inhabited

/-- The wording of a missing part. -/
def MissingPart.message (f : MissingPart) : String :=
  f.kind ++ " node at " ++ f.span.text ++ " is missing its " ++ f.part

/-- A pass over template trees (`NodeVisitor`). Passes run in the order of their priorities. A
    `NodeVisitor` is handed each tree and each node to change, before its children and after them; a
    pass only looks at what it enters, and leaves what it refuses as it was. Where that matters,
    `Editor` stands for a `NodeVisitor` that changes what it enters, or what it refuses. -/
structure Pass (m : Type → Type) where
  priority : Int
  /-- Looks at a tree before its children. -/
  enterTree : Tree → m (Except MissingPart Unit)
  /-- Changes a tree after its children. -/
  leaveTree : Tree → m (Except MissingPart Tree)
  /-- Looks at a node before its children. -/
  enterNode : Node → m (Except MissingPart Unit)
  /-- Changes a node after its children. -/
  leaveNode : Node → m (Except MissingPart Node)

namespace Pass

variable {m : Type → Type} [Monad m]

/-- A pass that looks at nothing beforehand, and needs no monad for its changes. -/
def changing (priority : Int) (tree : Tree → Except MissingPart Tree)
    (node : Node → Except MissingPart Node) : Pass m where
  priority := priority
  enterTree _ := pure (.ok ())
  leaveTree t := pure (tree t)
  enterNode _ := pure (.ok ())
  leaveNode n := pure (node n)

/-- Something changed in whole, or up to the fault that ended the pass. -/
abbrev Changed (α : Type) := α × Option MissingPart

/-- One visit: look at the whole, change its children, and then change what they leave. -/
def visit {α : Type} (enter : α → m (Except MissingPart Unit)) (children : m (Changed α))
    (leave : α → m (Except MissingPart α)) (whole : α) : m (Changed α) := do
  match ← enter whole with
  | .error fault => pure (whole, some fault)
  | .ok () =>
    match ← children with
    | (whole, some fault) => pure (whole, some fault)
    | (whole, none) =>
      match ← leave whole with
      | .error fault => pure (whole, some fault)
      | .ok whole => pure (whole, none)

/-- Two changes one after the other, joined into one. A fault in the first one leaves out the
    second. -/
def both {α β γ : Type} (first : m (Changed α)) (stop : α → γ) (second : m (Changed β))
    (build : α → β → γ) : m (Changed γ) := do
  match ← first with
  | (a, some fault) => pure (stop a, some fault)
  | (a, none) =>
    let (b, fault) ← second
    pure (build a b, fault)

mutual

/-- Changes a node (`traverse_node`). -/
def onNode (p : Pass m) : Node → m (Changed Node)
  | .block span name body =>
    visit p.enterNode
      (do
        let (body, fault) ← onNodes p body
        pure (.block span name body, fault))
      p.leaveNode (.block span name body)
  | .text span content => visit p.enterNode (pure (.text span content, none)) p.leaveNode
      (.text span content)
  | .print span expr => visit p.enterNode (pure (.print span expr, none)) p.leaveNode
      (.print span expr)
  | .«include» span target clauses =>
    visit p.enterNode (pure (.«include» span target clauses, none)) p.leaveNode
      (.«include» span target clauses)

/-- Changes the nodes of a body in order. -/
def onNodes (p : Pass m) : List Node → m (Changed (List Node))
  | [] => pure ([], none)
  | node :: rest => both (onNode p node) (· :: rest) (onNodes p rest) (· :: ·)

end

mutual

/-- Changes a tree (`traverse`). -/
def onTree (p : Pass m) : Tree → m (Changed Tree)
  | ⟨name, parent, body, embedded, index⟩ =>
    visit p.enterTree
      (both (onTrees p embedded) (⟨name, parent, body, ·, index⟩) (onNodes p body)
        fun embedded body => ⟨name, parent, body, embedded, index⟩)
      p.leaveTree ⟨name, parent, body, embedded, index⟩

/-- Changes embedded trees in order. -/
def onTrees (p : Pass m) : List Tree → m (Changed (List Tree))
  | [] => pure ([], none)
  | tree :: rest => both (onTree p tree) (· :: rest) (onTrees p rest) (· :: ·)

end

theorem onNodes_nil (p : Pass m) : p.onNodes [] = pure ([], none) := by
  simp only [onNodes]

theorem onNodes_cons (p : Pass m) (node : Node) (rest : List Node) :
    p.onNodes (node :: rest) = both (p.onNode node) (· :: rest) (p.onNodes rest) (· :: ·) := by
  simp only [onNodes]

end Pass

end Stencil
