import Stencil.Template.Pass

/-!
# Merging text

Adjacent texts of a body render like one text, and an empty text renders nothing. This pass joins
the former and drops the latter, in every body of a tree.

* `mergeText_nil`, `mergeText_of_ne_text`: what stands between texts stays.
-/

namespace Stencil

/-- Joins the texts of a body that follow each other, and drops the empty ones (`merge_text`). A
    joined text runs from the start of its first piece to the end of its last. -/
def mergeText : List Node → List Node
  | [] => []
  | .text span content :: rest =>
    if content.isEmpty then mergeText rest
    else match mergeText rest with
      | .text next more :: others => .text (span.upTo next) (content ++ more) :: others
      | others => .text span content :: others
  | node :: rest => node :: mergeText rest

/-- The priority of the built-in pass (`OPTIMIZER_PRIORITY`). -/
def textMergePriority : Int := 255

/-- Merges the texts in the body of a block (`leave_node` of an `OptimizerVisitor` on a node). -/
def mergeNode : Node → Node
  | .block span name body => .block span name (mergeText body)
  | node => node

/-- Merges the texts in the body of a tree (`leave_node` of an `OptimizerVisitor` on a module). -/
def mergeTree (tree : Tree) : Tree := { tree with body := mergeText tree.body }

/-- The built-in pass (`OptimizerVisitor`): merges the texts of all bodies. -/
def textMerge {m : Type → Type} [Monad m] : Pass m :=
  .changing textMergePriority (fun tree => .ok (mergeTree tree)) fun node => .ok (mergeNode node)

@[simp] theorem mergeText_nil : mergeText [] = [] := rfl

/-- A node that is no text stays where it is. -/
theorem mergeText_of_ne_text {node : Node} (h : ∀ span content, node ≠ .text span content)
    (rest : List Node) : mergeText (node :: rest) = node :: mergeText rest := by
  cases node with
  | text span content => exact absurd rfl (h span content)
  | _ => rfl

end Stencil
