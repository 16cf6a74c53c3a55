import Stencil.Syntax.Fault
import Stencil.Syntax.Grammar
import Stencil.Template.Tree
import Stencil.Text.Blank

/-!
# Assembling a template

Items become the nodes of a tree. An embed leaves the body: its own body becomes an embedded tree,
and an include of that tree takes its place. A template may extend one other template, and then only
blocks and blank text may stand at its top level; the same holds for the body of an embed.

All faults of a source are reported, not only the first one.

* `Tree.ofItems_ok`: what the tree of a template is made of.
-/

namespace Stencil

open Syntax (Fault Cause)

/-- The embedded trees and the faults found so far (`Lowering`). -/
structure Draft where
  embedded : List Tree := []
  faults : List Fault := []
deriving Repr, Inhabited

namespace Draft

/-- Adds a fault. -/
def report (d : Draft) (span : Span) (cause : Cause) : Draft :=
  { d with faults := d.faults ++ [⟨span, cause, []⟩] }

/-- Whether a node may stand outside blocks in a template that extends another one (the `allowed` of
    `check_child_body`). -/
def allowedOutside : Node → Bool
  | .block .. => true
  | .text _ content => Text.allBlank content
  | _ => false

/-- Reports the nodes that stand outside blocks (`check_child_body`). -/
def checkBody (d : Draft) (body : List Node) : Draft :=
  { d with faults := d.faults ++
      (body.filter (!allowedOutside ·)).map fun n => ⟨n.span, .contentOutsideBlocks, []⟩ }

end Draft

mutual

/-- The node of an item (`lower_item`); an `extends` tag has none, and is at fault here. -/
def Item.assemble (name : String) : Item → Draft → Option Node × Draft
  | .text span content, d => (some (.text span content), d)
  | .print span expr, d => (some (.print span expr), d)
  | .block span blockName body, d =>
    let (nodes, d) := Item.assembleAll name body d
    (some (.block span blockName nodes), d)
  | .«include» span target clauses, d => (some (.«include» span (.named target) clauses), d)
  | .embed span target clauses body, d =>
    let (nodes, d) := Item.assembleAll name body d
    let d := d.checkBody nodes
    let index := d.embedded.length
    let tree : Tree := ⟨name, some target, nodes, [], some index⟩
    (some (.«include» span (.embedded name index) clauses),
      { d with embedded := d.embedded ++ [tree] })
  | .«extends» span _, d => (none, d.report span .nestedExtends)

/-- The nodes of the items of a body (`lower_body`). -/
def Item.assembleAll (name : String) : List Item → Draft → List Node × Draft
  | [], d => ([], d)
  | item :: rest, d =>
    let (node, d) := Item.assemble name item d
    let (nodes, d) := Item.assembleAll name rest d
    (node.toList ++ nodes, d)

end

/-- The nodes of the items at the top level, with the expression of the first `extends` tag
    (`lower_root`). -/
def Item.assembleTop (name : String) (parent : Option Expr) :
    List Item → Draft → (Option Expr × List Node) × Draft
  | [], d => ((parent, []), d)
  | .«extends» span expr :: rest, d =>
    match parent with
    | some _ => Item.assembleTop name parent rest (d.report span .repeatedExtends)
    | none => Item.assembleTop name (some expr) rest d
  | item :: rest, d =>
    let (node, d) := Item.assemble name item d
    let ((parent, nodes), d) := Item.assembleTop name parent rest d
    ((parent, node.toList ++ nodes), d)

/-- The tree of a template, or all faults of its items (`lower`). -/
def Tree.ofItems (name : String) (items : List Item) : Except (List Fault) Tree :=
  let ((parent, body), d) := Item.assembleTop name none items {}
  let d := if parent.isSome then d.checkBody body else d
  if d.faults.isEmpty then .ok ⟨name, parent, body, d.embedded, none⟩ else .error d.faults

/-- A tree is made of what its items are assembled to, and there are no faults then. -/
theorem Tree.ofItems_ok {name : String} {items : List Item} {tree : Tree}
    (h : Tree.ofItems name items = .ok tree) :
    tree = ⟨name, (Item.assembleTop name none items {}).1.1,
        (Item.assembleTop name none items {}).1.2,
        (Item.assembleTop name none items {}).2.embedded, none⟩ ∧
      (Item.assembleTop name none items {}).2.faults = [] := by
  simp only [Tree.ofItems] at h
  split at h
  · split at h
    next hfaults =>
      cases h
      rw [List.isEmpty_iff] at hfaults
      exact ⟨rfl, (List.append_eq_nil_iff.1 hfaults).1⟩
    · cases h
  · split at h
    next hfaults =>
      cases h
      exact ⟨rfl, List.isEmpty_iff.1 hfaults⟩
    · cases h

/-- The tree of a source, or its faults (`parse`). -/
def Tree.parse (name : String) (source : List Char) : Except (List Fault) Tree :=
  match Syntax.parseItems source with
  | .ok items => Tree.ofItems name items
  | .error fault => .error [fault]

/-- The tree of a source is the tree of its items. -/
theorem Tree.parse_ok {name : String} {source : List Char} {tree : Tree}
    (h : Tree.parse name source = .ok tree) :
    ∃ items, Syntax.parseItems source = .ok items ∧ Tree.ofItems name items = .ok tree := by
  rw [Tree.parse] at h
  split at h
  next items hitems => exact ⟨items, hitems, h⟩
  next => cases h

end Stencil
