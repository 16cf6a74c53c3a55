import Stencil.Template.Tree
import Stencil.Text.Quoted

/-!
# The outline of a tree

A listing of a template tree with one part a line, indented by how deep it stands, for readers who
want to see what a template was compiled to.
-/

namespace Stencil

/-- A listing: a word, or parts between an opening and a closing text. -/
inductive Outline where
  | word (text : String)
  | group (opening closing : String) (parts : List (String × Outline))
deriving Inhabited

namespace Outline

/-- The indentation of a line. -/
def indent (depth : Nat) : String := String.ofList (List.replicate (4 * depth) ' ')

mutual

/-- The text of a listing that starts at some depth. -/
def write (depth : Nat) : Outline → String
  | .word text => text
  | .group opening closing [] => opening ++ closing
  | .group opening closing (part :: rest) =>
    opening ++ "\n" ++ writeParts (depth + 1) (part :: rest) ++ indent depth ++ closing

/-- The lines of parts, each with its label. -/
def writeParts (depth : Nat) : List (String × Outline) → String
  | [] => ""
  | (label, part) :: rest =>
    indent depth ++ label ++ write depth part ++ ",\n" ++ writeParts depth rest

end

/-! ## Kinds of listings -/

/-- A text in quotes. -/
def quoted (s : String) : Outline := .word (Text.quoted s)

/-- A number. -/
def number (n : Nat) : Outline := .word (toString n)

/-- A truth value. -/
def flag (b : Bool) : Outline := .word (if b then "true" else "false")

/-- Named parts. -/
def record (name : String) (fields : List (String × Outline)) : Outline :=
  .group (name ++ " \x7b") "\x7d" (fields.map fun (label, part) => (label ++ ": ", part))

/-- Parts without names. -/
def wrap (name : String) (parts : List Outline) : Outline :=
  .group (name ++ "(") ")" (parts.map fun part => ("", part))

/-- A list. -/
def list (items : List Outline) : Outline := .group "[" "]" (items.map fun item => ("", item))

/-- Something that may be missing. -/
def option : Option Outline → Outline
  | none => .word "None"
  | some part => wrap "Some" [part]

/-- Something with its place in the source. -/
def spanned (span : Span) (part : Outline) : Outline :=
  record "Spanned" [("node", part), ("span", .word span.text)]

end Outline

open Outline

/-- The outline of a literal. -/
def Value.outline : Value → Outline
  | .null => .word "Null"
  | .bool b => .word (if b then "Bool(true)" else "Bool(false)")
  | .number n => .word ("Number(" ++ n.text ++ ")")
  | .string s => .word ("String(" ++ Text.quoted s ++ ")")
  | .array _ => .word "Array []"
  | .mapping _ => .word "Object \x7b\x7d"

mutual

/-- The outline of an expression. -/
def Expr.outline : Expr → Outline
  | .constant s v => spanned s (wrap "Constant" [v.outline])
  | .name s n => spanned s (wrap "Name" [quoted n])
  | .mapping s entries => spanned s (wrap "Map" [list (Expr.outlineEntries entries)])
  | .array s items => spanned s (wrap "Array" [list (Expr.outlines items)])
  | .attribute s object n =>
    spanned s (record "Attribute" [("object", object.outline), ("name", quoted n)])
  | .concat s left right =>
    spanned s (record "Concat" [("left", left.outline), ("right", right.outline)])
  | .call s n arguments =>
    spanned s (record "Call" [("name", quoted n), ("arguments", list (Expr.outlines arguments))])

/-- The outlines of expressions. -/
def Expr.outlines : List Expr → List Outline
  | [] => []
  | e :: rest => e.outline :: Expr.outlines rest

/-- The outlines of the entries of a mapping. -/
def Expr.outlineEntries : List (String × Expr) → List Outline
  | [] => []
  | (key, e) :: rest => wrap "" [quoted key, e.outline] :: Expr.outlineEntries rest

end

/-- The outline of what an include renders. -/
def Target.outline : Target → Outline
  | .named expr => wrap "Expression" [expr.outline]
  | .embedded filename index =>
    record "Embedded" [("filename", quoted filename), ("index", number index)]

mutual

/-- The outline of a node. -/
def Node.outline : Node → Outline
  | .text s content => spanned s (wrap "Text" [quoted content])
  | .print s expr => spanned s (wrap "Print" [expr.outline])
  | .block s name body => spanned s (wrap "Block"
      [record "BlockNode" [("name", quoted name), ("body", list (Node.outlines body))]])
  | .«include» s target clauses => spanned s (wrap "Include"
      [record "IncludeNode"
        [("target", target.outline), ("variables", option (clauses.bindings.map Expr.outline)),
          ("only", flag clauses.only), ("ignore_missing", flag clauses.ignoreMissing)]])

/-- The outlines of the nodes of a body. -/
def Node.outlines : List Node → List Outline
  | [] => []
  | node :: rest => node.outline :: Node.outlines rest

end

mutual

/-- The outline of a tree. -/
def Tree.outline : Tree → Outline
  | ⟨name, parent, body, embedded, index⟩ =>
    record "Module"
      [("name", quoted name), ("parent", option (parent.map Expr.outline)),
        ("body", list (Node.outlines body)), ("embedded", list (Tree.outlines embedded)),
        ("index", option (index.map number))]

/-- The outlines of embedded trees. -/
def Tree.outlines : List Tree → List Outline
  | [] => []
  | tree :: rest => tree.outline :: Tree.outlines rest

end

end Stencil
