import Stencil.Proofs.Numbering
import Stencil.Proofs.Refusals

/-!
# The places that are routed through the hooks

The routing pass walks over a tree and changes it node by node. Here its result is given without a
walk, with every call of a hook written out: the name of an extended template is replaced once, so
are the name and the variables of an include, and an embed keeps its target. Both calls of an
include hold the name as it stands in the source. All else stays as it is.

Specification: `Tree.hooked` for the tree with the calls, `Tree.visited` for the embeds in the order
in which a walk comes to them.

Results:
* `Node.changeAll_routedNode`, `Tree.routed_eq_hooked`: the pass changes nodes and trees as
  specified.
* `Tree.firstRefusal?_tags`: the fault of the pass is that of the first embed without a name.
* `Pass.onTree_routing`: the whole pass.
-/

namespace Stencil

/-! ## Specification -/

/-- A call with the four arguments of a hook: a name, the `only` flag, what is passed or null, and
    the context. -/
def Expr.asking (function : String) (template : Expr) (only : Bool) (passed : Option Expr)
    (span : Span) : Expr :=
  .call span function
    [template, .constant span (.bool only), passed.getD (.constant span .null),
      .name span "_context"]

/-- The name of a template, as the first hook answers it. -/
def Expr.renamed (template : Expr) (only : Bool) (passed : Option Expr) : Expr :=
  .asking "_override_template" template only passed template.span

/-- The clauses of a tag for a template, with the variables that the second hook answers. -/
def Clauses.rebound (clauses : Clauses) (template : Expr) (span : Span) : Clauses where
  ignoreMissing := clauses.ignoreMissing
  bindings := some (.asking "_override_parameters" template clauses.only clauses.bindings span)
  only := clauses.only

mutual

/-- A node with the calls of the hooks. -/
def Node.hooked : Node → Node
  | .text span content => .text span content
  | .print span expr => .print span expr
  | .block span name body => .block span name (Node.hookedAll body)
  | .«include» span (.named template) clauses =>
    .«include» span (.named (template.renamed clauses.only clauses.bindings))
      (clauses.rebound template span)
  | .«include» span (.embedded filename index) clauses =>
    .«include» span (.embedded filename index)
      (clauses.rebound (.constant span (.string filename)) span)

/-- A body with the calls of the hooks. -/
def Node.hookedAll : List Node → List Node
  | [] => []
  | node :: rest => node.hooked :: Node.hookedAll rest

end

mutual

/-- A tree with the calls of the hooks, in its embedded trees too. -/
def Tree.hooked : Tree → Tree
  | ⟨name, parent, body, embedded, index⟩ =>
    ⟨name, parent.map (·.renamed false none), Node.hookedAll body, Tree.hookedAll embedded, index⟩

/-- Trees with the calls of the hooks. -/
def Tree.hookedAll : List Tree → List Tree
  | [] => []
  | tree :: rest => tree.hooked :: Tree.hookedAll rest

end

mutual

/-- The embeds in a tree in the order of a walk: those of its embedded trees, then those in its
    body. -/
def Tree.visited : Tree → List Reference
  | ⟨_, _, body, embedded, _⟩ => Tree.visitedAll embedded ++ Node.referencesIn body

/-- The embeds in some trees. -/
def Tree.visitedAll : List Tree → List Reference
  | [] => []
  | tree :: rest => tree.visited ++ Tree.visitedAll rest

end

/-- The first embed that does not say which template it belongs to. -/
def Tree.nameless? (tree : Tree) : Option Reference := tree.visited.find? (·.filename = "")

/-! ## What the pass changes -/

open Override Pass

theorem Override.routedTarget_eq (template : Expr) (clauses : Clauses) :
    routedTarget template clauses = template.renamed clauses.only clauses.bindings := rfl

theorem Override.routedClauses_eq (template : Expr) (span : Span) (clauses : Clauses) :
    routedClauses template span clauses = clauses.rebound template span := rfl

/-- Embeds that all have a name. -/
def Reference.AllNamed (refs : List Reference) : Prop := ∀ ref ∈ refs, ref.filename ≠ ""

theorem Reference.allNamed_append {refs refs' : List Reference} :
    AllNamed (refs ++ refs') ↔ AllNamed refs ∧ AllNamed refs' := by
  simp only [AllNamed, List.mem_append, or_imp, forall_and]

mutual

/-- A node is changed as specified, unless there is an embed without a name in it. -/
theorem Node.change_routedNode : ∀ node : Node, Reference.AllNamed node.references →
    node.change routedNode = node.hooked
  | .text .., _ => rfl
  | .print .., _ => rfl
  | .block span name body, h => by
    rw [Node.references] at h
    rw [Node.change, Node.hooked, Node.changeAll_routedNode body h]
    rfl
  | .«include» span (.named template) clauses, _ => by
    rw [Node.change_include, routedNode_named, Node.hooked, routedTarget_eq, routedClauses_eq]
  | .«include» span (.embedded filename index) clauses, h => by
    have hname : filename ≠ "" := h ⟨span, filename, index⟩ (by simp [Node.references])
    rw [Node.change_include, routedNode_embedded span hname, Node.hooked, routedClauses_eq]

/-- So is a body. -/
theorem Node.changeAll_routedNode : ∀ nodes : List Node,
    Reference.AllNamed (Node.referencesIn nodes) →
      Node.changeAll routedNode nodes = Node.hookedAll nodes
  | [], _ => rfl
  | node :: rest, h => by
    rw [Node.referencesIn, Reference.allNamed_append] at h
    rw [Node.changeAll, Node.hookedAll, Node.change_routedNode node h.1,
      Node.changeAll_routedNode rest h.2]

end

mutual

/-- A tree is changed as specified, unless there is an embed without a name in it. -/
theorem Tree.routed_eq_hooked : ∀ tree : Tree, Reference.AllNamed tree.visited →
    tree.routed = tree.hooked
  | ⟨name, parent, body, embedded, index⟩, h => by
    rw [Tree.visited, Reference.allNamed_append] at h
    rw [Tree.routed, Tree.change, Node.changeAll_routedNode body h.2,
      Tree.changeAll_routedNode embedded h.1, Tree.hooked]
    rfl

theorem Tree.changeAll_routedNode : ∀ trees : List Tree,
    Reference.AllNamed (Tree.visitedAll trees) →
      Tree.changeAll routeTree routedNode trees = Tree.hookedAll trees
  | [], _ => rfl
  | tree :: rest, h => by
    rw [Tree.visitedAll, Reference.allNamed_append] at h
    have htree := Tree.routed_eq_hooked tree h.1
    rw [Tree.routed] at htree
    rw [Tree.changeAll, Tree.hookedAll, htree, Tree.changeAll_routedNode rest h.2]

end

/-! ## What the pass refuses -/

/-- The fault of the first of some embeds that has no name. -/
def Reference.fault? (refs : List Reference) : Option MissingPart :=
  (refs.find? (·.filename = "")).map fun ref => ⟨"embed", "filename", ref.span⟩

theorem Reference.fault?_append (refs refs' : List Reference) :
    fault? (refs ++ refs') = (fault? refs).or (fault? refs') := by
  rw [fault?, fault?, fault?, List.find?_append, Option.map_or]

theorem Reference.fault?_singleton (span : Span) (filename : String) (index : Nat) :
    fault? [⟨span, filename, index⟩] =
      if filename.isEmpty then some ⟨"embed", "filename", span⟩ else none := by
  by_cases h : filename = ""
  · simp [fault?, h]
  · simp [fault?, h]

mutual

/-- A node is refused for the first embed without a name in it. -/
theorem Node.firstRefusal?_tags : ∀ node : Node,
    firstRefusal? routeNode node.tags = Reference.fault? node.references
  | .text .. => rfl
  | .print .. => rfl
  | .block span name body => by
    rw [Node.tags, Node.references, Node.firstRefusal?_tagsIn body]
  | .«include» span (.named template) clauses => rfl
  | .«include» span (.embedded filename index) clauses => by
    rw [Node.tags_include, firstRefusal?_singleton, refusal?_embedded, Node.references,
      Reference.fault?_singleton]

theorem Node.firstRefusal?_tagsIn : ∀ nodes : List Node,
    firstRefusal? routeNode (Node.tagsIn nodes) = Reference.fault? (Node.referencesIn nodes)
  | [] => rfl
  | node :: rest => by
    rw [Node.tagsIn, Node.referencesIn, firstRefusal?_append, Reference.fault?_append,
      Node.firstRefusal?_tags node, Node.firstRefusal?_tagsIn rest]

end

mutual

/-- A tree is refused for the first embed without a name in it. -/
theorem Tree.firstRefusal?_tags : ∀ tree : Tree,
    firstRefusal? routeNode tree.tags = Reference.fault? tree.visited
  | ⟨name, parent, body, embedded, index⟩ => by
    rw [Tree.tags, Tree.visited, firstRefusal?_append, Reference.fault?_append,
      Tree.firstRefusal?_tagsInAll embedded, Node.firstRefusal?_tagsIn body]

theorem Tree.firstRefusal?_tagsInAll : ∀ trees : List Tree,
    firstRefusal? routeNode (Tree.tagsInAll trees) = Reference.fault? (Tree.visitedAll trees)
  | [] => rfl
  | tree :: rest => by
    rw [Tree.tagsInAll, Tree.visitedAll, firstRefusal?_append, Reference.fault?_append,
      Tree.firstRefusal?_tags tree, Tree.firstRefusal?_tagsInAll rest]

end

/-! ## The whole pass -/

theorem Tree.fault?_visited (tree : Tree) :
    Reference.fault? tree.visited =
      tree.nameless?.map fun ref => ⟨"embed", "filename", ref.span⟩ := rfl

theorem Tree.nameless?_eq_none {tree : Tree} :
    tree.nameless? = none ↔ Reference.AllNamed tree.visited := by
  simp [Tree.nameless?, Reference.AllNamed]

namespace Pass

variable {n : Type → Type} [Monad n] {τ : Type} [Runs n τ]

/-- The pass fails exactly if some embed does not say which template it belongs to, and then with
    the place of the first one; otherwise it leaves the tree with the calls of the hooks. -/
theorem onTree_routing (tree : Tree) (s : τ) :
    ((∃ left fault, run ((routing : Pass n).onTree tree) s = some ((left, some fault), s)) ↔
      ∃ ref ∈ tree.visited, ref.filename = "") ∧
    match tree.nameless? with
    | some ref => ∃ left, run ((routing : Pass n).onTree tree) s =
        some ((left, some ⟨"embed", "filename", ref.span⟩), s)
    | none => run ((routing : Pass n).onTree tree) s = some ((tree.hooked, none), s) := by
  have hleaves : Leaves (τ := τ) ((routing : Pass n).onTree tree) tree.routed
      (firstRefusal? routeNode tree.tags) := leaves_onTree routeNode_changes tree
  rw [Tree.firstRefusal?_tags, Tree.fault?_visited] at hleaves
  obtain ⟨left, hrun, hleft⟩ := hleaves s
  rw [hrun]
  cases hfirst : tree.nameless? with
  | some ref =>
    have hmem : ref ∈ tree.visited := List.mem_of_find?_eq_some hfirst
    have hname : ref.filename = "" := by simpa using List.find?_some hfirst
    exact ⟨⟨fun _ => ⟨ref, hmem, hname⟩, fun _ => ⟨left, _, rfl⟩⟩, left, rfl⟩
  | none =>
    have hnamed : Reference.AllNamed tree.visited := Tree.nameless?_eq_none.mp hfirst
    refine ⟨⟨?_, fun ⟨ref, hmem, hname⟩ => (hnamed ref hmem hname).elim⟩, ?_⟩
    · rintro ⟨left', fault, h⟩
      cases h
    · rw [hleft (by rw [hfirst]; rfl), Tree.routed_eq_hooked tree hnamed]
      rfl

end Pass

end Stencil
