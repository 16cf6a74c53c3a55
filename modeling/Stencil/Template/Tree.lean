import Stencil.Syntax.Item

/-!
# Template trees

The tree of a template: its body, the expression of the template it extends, and the trees that its
embeds stand for. An embed becomes an include of one of these trees, found by its index.

* `Tree.blocks`: every block of a body, an outer block before the ones inside it.
-/

namespace Stencil

/-- What an include renders (`IncludeTarget`): a template named by an expression, or an embedded
    tree of the template with the given name. -/
inductive Target where
  | named (expr : Expr)
  | embedded (filename : String) (index : Nat)
deriving Repr, Inhabited

/-- A node of a body (`Node`). -/
inductive Node where
  | text (span : Span) (content : String)
  | print (span : Span) (expr : Expr)
  | block (span : Span) (name : String) (body : List Node)
  | «include» (span : Span) (target : Target) (clauses : Clauses)
deriving Repr, Inhabited

namespace Node

/-- Where a node stands in the source. -/
def span : Node → Span
  | .text s _ => s
  | .print s _ => s
  | .block s _ _ => s
  | .«include» s _ _ => s

end Node

/-- A block with its name and its body (`BlockNode`). -/
structure Block where
  name : String
  body : List Node
deriving Repr, Inhabited

/-- A template, or an embedded tree of one (`Module`). -/
structure Tree where
  /-- The name of the template. -/
  name : String
  /-- The expression that names the extended template. -/
  parent : Option Expr
  body : List Node
  /-- The trees of the embeds, in the order of their ends. -/
  embedded : List Tree
  /-- The position among the embedded trees of the template, for an embedded tree. -/
  index : Option Nat
deriving Repr, Inhabited

mutual

/-- The blocks in a node. -/
def Node.blocks : Node → List Block
  | .block _ name body => ⟨name, body⟩ :: Node.blocksIn body
  | _ => []

/-- The blocks in a body. -/
def Node.blocksIn : List Node → List Block
  | [] => []
  | node :: rest => node.blocks ++ Node.blocksIn rest

end

/-- The blocks of a tree, an outer block before the ones inside it (`blocks`). -/
def Tree.blocks (t : Tree) : List Block := Node.blocksIn t.body

end Stencil
