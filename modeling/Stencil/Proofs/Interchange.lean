import Stencil.Proofs.Correspondences
import Stencil.Proofs.Priorities
import Stencil.Proofs.Refusals

/-!
# Passes that may change places

The built-in pass changes how the texts of a body are cut, and the routing pass changes the includes
and the parents. Neither sees what the other one does, so it does not matter which of them runs
first: the tree is the same, and so is the fault if there is one, since the tags of a tree, which
are all that can be refused, stay as they are and in their order.

Results:
* `Node.mergeText_map`: texts are merged alike in bodies that differ in other nodes only.
* `Tree.merged_routed`: the two changes of a tree commute.
* `Engine.outcome_swapped`: so do the passes, at any priorities.
* `Engine.compile_interchange`: what is compiled does not depend on which of them comes first.
-/

namespace Stencil

open Override

namespace Node

/-! ## Bodies -/

/-- A change of nodes that concerns no text. -/
structure SparesTexts (g : Node → Node) : Prop where
  text : ∀ span content, g (.text span content) = .text span content
  other : ∀ node : Node, (∀ span content, node ≠ .text span content) →
    ∀ span content, g node ≠ .text span content

variable {g : Node → Node}

/-- A text stays apart from a node that is none. -/
theorem joinText_of_ne_text {node : Node} (h : ∀ span content, node ≠ .text span content)
    (span : Span) (content : String) (rest : List Node) :
    joinText span content (node :: rest) =
      if content.isEmpty then node :: rest else .text span content :: node :: rest := by
  cases node with
  | text next more => exact absurd rfl (h next more)
  | _ => rfl

theorem SparesTexts.map_joinText (hg : SparesTexts g) (span : Span) (content : String)
    (nodes : List Node) :
    (joinText span content nodes).map g = joinText span content (nodes.map g) := by
  cases nodes with
  | nil =>
    unfold joinText
    split <;> simp [hg.text]
  | cons node rest =>
    by_cases htext : ∀ span content, node ≠ .text span content
    · rw [List.map_cons, joinText_of_ne_text htext, joinText_of_ne_text (hg.other node htext)]
      split <;> simp [hg.text]
    · simp only [not_forall, not_not] at htext
      obtain ⟨next, more, rfl⟩ := htext
      rw [List.map_cons, hg.text]
      unfold joinText
      split <;> simp [hg.text]

/-- Texts are merged alike before and after such a change. -/
theorem mergeText_map (hg : SparesTexts g) (nodes : List Node) :
    mergeText (nodes.map g) = (mergeText nodes).map g := by
  induction nodes with
  | nil => rfl
  | cons node rest ih =>
    by_cases htext : ∀ span content, node ≠ .text span content
    · rw [List.map_cons, mergeText_of_ne_text (hg.other node htext), mergeText_of_ne_text htext, ih]
      rfl
    · simp only [not_forall, not_not] at htext
      obtain ⟨span, content, rfl⟩ := htext
      rw [List.map_cons, hg.text, mergeText_text, mergeText_text, ih, hg.map_joinText]

theorem change_routedNode_leaf {node : Node} (h : node.IsLeaf) :
    node.change routedNode = routedNode node := by
  cases node with
  | block => exact h.elim
  | _ => rfl

theorem spares_routed : SparesTexts (Node.change routedNode) where
  text _ _ := rfl
  other node hnode span content := by
    cases node with
    | text span content => exact absurd rfl (hnode span content)
    | print => exact nofun
    | block => exact nofun
    | «include» place target clauses =>
      cases target with
      | named target => exact nofun
      | embedded filename index =>
        rw [change_include]
        by_cases hname : filename = ""
        · subst hname
          exact nofun
        · rw [routedNode_embedded place hname]
          exact nofun

theorem routedNode_isLeaf {node : Node} (h : node.IsLeaf) : (routedNode node).IsLeaf := by
  cases node with
  | block => exact h.elim
  | text => trivial
  | print => trivial
  | «include» span target clauses =>
    cases target with
    | named target => trivial
    | embedded filename index =>
      by_cases hname : filename = ""
      · subst hname
        trivial
      · rw [routedNode_embedded span hname]
        trivial

/-- Merging and routing a body, in either order. -/
theorem changeAll_routed_merged (nodes : List Node) :
    Node.changeAll routedNode (Node.changeAll mergeNode nodes) =
      Node.changeAll mergeNode (Node.changeAll routedNode nodes) := by
  induction nodes using body_induction with
  | nil => rfl
  | leaf node rest hleaf ih =>
    simp only [changeAll, change_mergeNode_leaf hleaf, change_routedNode_leaf hleaf,
      change_mergeNode_leaf (routedNode_isLeaf hleaf), ih]
  | block span name body rest ihBody ihRest =>
    have hblock : ∀ body : List Node, Node.change routedNode (.block span name body) =
        .block span name (Node.changeAll routedNode body) := fun _ => rfl
    simp only [changeAll, change_mergeNode_block, hblock, ihRest]
    rw [changeAll_eq_map routedNode (mergeText _), ← mergeText_map spares_routed,
      ← changeAll_eq_map, ihBody]

end Node

/-! ## Trees -/

mutual

/-- Merging and routing a tree, in either order. -/
theorem Tree.merged_routed : ∀ tree : Tree, tree.merged.routed = tree.routed.merged
  | ⟨name, parent, body, embedded, index⟩ => by
    have hbody : Node.changeAll routedNode (mergeText (Node.changeAll mergeNode body)) =
        mergeText (Node.changeAll mergeNode (Node.changeAll routedNode body)) := by
      rw [Node.changeAll_eq_map routedNode (mergeText _), ← Node.mergeText_map Node.spares_routed,
        ← Node.changeAll_eq_map, Node.changeAll_routed_merged]
    simp only [Tree.merged, Tree.routed, Tree.change, mergeTree, routeTree, hbody,
      Tree.mergedAll_routed embedded]

theorem Tree.mergedAll_routed : ∀ trees : List Tree,
    Tree.changeAll routeTree routedNode (Tree.changeAll mergeTree mergeNode trees) =
      Tree.changeAll mergeTree mergeNode (Tree.changeAll routeTree routedNode trees)
  | [] => rfl
  | tree :: rest => by
    have htree := Tree.merged_routed tree
    simp only [Tree.merged, Tree.routed] at htree
    simp only [Tree.changeAll, htree, Tree.mergedAll_routed rest]

end

/-! ## Passes -/

section Passes

variable {m : Type → Type} [Monad m] {τ : Type} [Runs m τ]

/-- The built-in pass at some priority. -/
def mergingAt (priority : Int) : Pass m := { textMerge with priority := priority }

/-- The routing pass at some priority. -/
def routingAt (priority : Int) : Pass m := { routing with priority := priority }

theorem Tree.leaves_mergingAt (priority : Int) (tree : Tree) :
    Pass.Leaves (τ := τ) ((mergingAt priority : Pass m).onTree tree) tree.merged none := by
  have hleaves : Pass.Leaves (τ := τ) ((mergingAt priority : Pass m).onTree tree) tree.merged
      (Pass.firstRefusal? (fun node => .ok (mergeNode node)) tree.tags) :=
    Pass.leaves_onTree mergeNode_changes tree
  have hnone : Pass.firstRefusal? (fun node => .ok (mergeNode node)) tree.tags = none :=
    List.findSome?_eq_none_iff.2 fun _ _ => rfl
  rwa [hnone] at hleaves

theorem Tree.leaves_routingAt (priority : Int) (tree : Tree) :
    Pass.Leaves (τ := τ) ((routingAt priority : Pass m).onTree tree) tree.routed
      (Pass.firstRefusal? routeNode tree.tags) := Pass.leaves_onTree routeNode_changes tree

namespace Engine

/-- Two passes give what the second one leaves of what the first one left, or the first fault. -/
theorem outcome_runPasses_pair {p q : Pass m} {tree middle wanted : Tree}
    {fault fault' : Option MissingPart}
    (hp : Pass.Leaves (τ := τ) (p.onTree tree) middle fault)
    (hq : Pass.Leaves (τ := τ) (q.onTree middle) wanted fault') (s : τ) :
    outcome (runPasses [p, q] tree) s = some (Pass.conclude (fault.or fault') wanted, s) := by
  rw [outcome_runPasses_leaves hp [q] s]
  cases fault with
  | some f => exact outcome_bind_error (outcome_conclude (some f) middle s) _
  | none =>
    rw [Option.none_or, outcome_bind_ok (outcome_conclude none middle s),
      outcome_runPasses_leaves hq [] s]
    have hlast : ∀ tree : Tree, outcome (τ := τ) (runPasses ([] : List (Pass m)) tree) =
        outcome (pure tree : ExceptT MissingPart m Tree) := fun _ => rfl
    rw [outcome_bind_congr _ hlast, outcome_bind_pure]
    exact outcome_conclude fault' wanted s

theorem outcome_merging_routing (a b : Int) (tree : Tree) (s : τ) :
    outcome (runPasses [(mergingAt a : Pass m), routingAt b] tree) s =
      some (Pass.conclude (Pass.firstRefusal? routeNode tree.tags) tree.merged.routed, s) := by
  rw [outcome_runPasses_pair (tree.leaves_mergingAt a) (tree.merged.leaves_routingAt b),
    Tree.tags_merged, Option.none_or]

theorem outcome_routing_merging (a b : Int) (tree : Tree) (s : τ) :
    outcome (runPasses [(routingAt b : Pass m), mergingAt a] tree) s =
      some (Pass.conclude (Pass.firstRefusal? routeNode tree.tags) tree.merged.routed, s) := by
  rw [outcome_runPasses_pair (tree.leaves_routingAt b) (tree.routed.leaves_mergingAt a),
    Tree.merged_routed, Option.or_none]

/-- The two passes do the same in either order, also among other passes. -/
theorem outcome_swapped (a b : Int) (before after : List (Pass m)) (tree : Tree) :
    outcome (τ := τ) (runPasses (before ++ [mergingAt a, routingAt b] ++ after) tree) =
      outcome (runPasses (before ++ [routingAt b, mergingAt a] ++ after) tree) := by
  have hpair : ∀ tree : Tree,
      outcome (τ := τ) (runPasses [(mergingAt a : Pass m), routingAt b] tree) =
        outcome (runPasses [(routingAt b : Pass m), mergingAt a] tree) := by
    intro tree
    funext s
    rw [outcome_merging_routing, outcome_routing_merging]
  rw [outcome_runPasses_append, outcome_runPasses_append]
  refine outcome_bind_of_outcome ?_ _
  rw [outcome_runPasses_append, outcome_runPasses_append]
  exact outcome_bind_congr _ hpair

/-- Wherever the routing pass joins the built-in one, the two do the same. -/
theorem outcome_joined (loader : Loader m) (priority : Int) (tree : Tree) (s : τ) :
    outcome (runPasses
        ((Environment.ofLoader loader).addPass (routingAt priority)).engine.passes tree) s =
      some (Pass.conclude (Pass.firstRefusal? routeNode tree.tags) tree.merged.routed, s) := by
  have hpasses : ((Environment.ofLoader loader).addPass (routingAt priority)).engine.passes =
      if textMergePriority ≤ priority then [mergingAt textMergePriority, routingAt priority]
      else [routingAt priority, mergingAt textMergePriority] := rfl
  rw [hpasses]
  split
  · exact outcome_merging_routing textMergePriority priority tree s
  · exact outcome_routing_merging textMergePriority priority tree s

/-- Engines whose passes do alike compile alike. -/
theorem outcome_compile_congr {e e' : Engine m} {s : τ}
    (h : ∀ tree, outcome (runPasses e.passes tree) s = outcome (runPasses e'.passes tree) s)
    (name source : String) :
    outcome (e.compile name source) s = outcome (e'.compile name source) s := by
  rw [outcome_compile, outcome_compile]
  cases Tree.parse name source.toList with
  | error faults => rfl
  | ok tree =>
    dsimp only
    rw [h]

/-- Merging texts first and then routing through the hooks gives the same tree as the other way
    round, or the same fault, for any tree, among any other passes and at any priorities. So engines
    in which the two have changed places compile alike, and it does not matter at which priority the
    routing pass joins the built-in one. -/
theorem compile_interchange (a b : Int) (s : τ) :
    (∀ (before after : List (Pass m)) (tree : Tree),
      outcome (runPasses (before ++ [mergingAt a, routingAt b] ++ after) tree) s =
        outcome (runPasses (before ++ [routingAt b, mergingAt a] ++ after) tree) s) ∧
    (∀ (e : Engine m) (before after : List (Pass m)) (name source : String),
      outcome (compile { e with passes := before ++ [mergingAt a, routingAt b] ++ after }
          name source) s =
        outcome (compile { e with passes := before ++ [routingAt b, mergingAt a] ++ after }
          name source) s) ∧
    ∀ (loader : Loader m) (name source : String),
      run (((Environment.ofLoader loader).addPass (routingAt a)).compile name source) s =
        run (((Environment.ofLoader loader).addPass (routingAt b)).compile name source) s := by
  have hswapped : ∀ (before after : List (Pass m)) (tree : Tree),
      outcome (runPasses (before ++ [mergingAt a, routingAt b] ++ after) tree) s =
        outcome (runPasses (before ++ [routingAt b, mergingAt a] ++ after) tree) s :=
    fun before after tree => congrFun (outcome_swapped a b before after tree) s
  refine ⟨hswapped, fun e before after => ?swapped, fun loader => ?joined⟩
  case swapped => exact outcome_compile_congr (hswapped before after)
  case joined =>
    refine outcome_compile_congr fun tree => ?_
    rw [outcome_joined loader a tree s, outcome_joined loader b tree s]

end Engine

end Passes

end Stencil
