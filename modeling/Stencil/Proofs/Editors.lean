import Stencil.Proofs.Run
import Stencil.Proofs.Visits
import Stencil.Template.Pass

/-!
# Editors

A pass only looks at what it enters, and changes what it leaves only if it finds no fault. An editor
is what a pass could be: it is handed each tree and each node to change, before its parts and after
them, and it may have changed what it was handed also where it refuses it. The one thing that it may
not do is to change which parts there are, before it has been to them: `Editor.enterNode` and
`Editor.enterTree` keep the shape.

Results:
* `Pass.seen_onTree`: a pass walks over a tree as the editor does that looks where the pass
  looks and changes what the pass changes.
-/

namespace Stencil

/-- A node that is left alone when it is entered. -/
def Node.asEntered (node : Node) : { entered : Node // entered.shape = node.shape } := ⟨node, rfl⟩

/-- A tree that is left alone when it is entered. -/
def Tree.asEntered (tree : Tree) : { entered : Tree // entered.shape = tree.shape } := ⟨tree, rfl⟩

/-! ## Changes one after the other -/

namespace Pass

section Steps

variable {m : Type → Type} [Monad m] {α β γ : Type}

/-- Goes on with what a change leaves, unless a fault ended it. -/
def andThen (first : m (Changed α)) (stop : α → β) (next : α → m (Changed β)) :
    m (Changed β) := do
  match ← first with
  | (a, some fault) => pure (stop a, some fault)
  | (a, none) => next a

/-- Puts what a change leaves into its place. -/
def put (place : α → β) (step : m (Changed α)) : m (Changed β) :=
  andThen step place fun a => pure (place a, none)

theorem both_eq_andThen (first : m (Changed α)) (stop : α → γ) (second : m (Changed β))
    (build : α → β → γ) :
    both first stop second build = andThen first stop fun a => put (build a) second := by
  refine bind_congr fun ⟨a, fault⟩ => ?_
  cases fault with
  | some fault => rfl
  | none =>
    refine bind_congr fun ⟨b, fault⟩ => ?_
    cases fault <;> rfl

variable [LawfulMonad m]

theorem andThen_pure (a : α) (stop : α → β) (next : α → m (Changed β)) :
    andThen (pure (a, none)) stop next = next a := by
  simp [andThen]

theorem andThen_id (step : m (Changed α)) : andThen step id (fun a => pure (a, none)) = step := by
  refine Eq.trans (bind_congr fun ⟨a, fault⟩ => ?_) (bind_pure step)
  cases fault <;> rfl

theorem andThen_andThen (first : m (Changed α)) (stop : α → β) (next : α → m (Changed β))
    (stop' : β → γ) (next' : β → m (Changed γ)) :
    andThen (andThen first stop next) stop' next' =
      andThen first (fun a => stop' (stop a)) fun a => andThen (next a) stop' next' := by
  simp only [andThen, bind_assoc]
  refine bind_congr fun ⟨a, fault⟩ => ?_
  cases fault <;> simp

end Steps

end Pass

open Pass (Changed andThen both put)

/-- An editor is called at every tree and at every node, before its parts and after them (a
    `NodeVisitor`). -/
structure Editor (m : Type → Type) where
  enterTree : (tree : Tree) → m (Changed { entered : Tree // entered.shape = tree.shape })
  leaveTree : Tree → m (Changed Tree)
  enterNode : (node : Node) → m (Changed { entered : Node // entered.shape = node.shape })
  leaveNode : Node → m (Changed Node)

namespace Editor

variable {m : Type → Type} [Monad m]

mutual

/-- Changes a node (`traverse_node`): the nodes in it are those that it has once it is entered. -/
def onNode (e : Editor m) (node : Node) : m (Changed Node) :=
  andThen (e.enterNode node) Subtype.val fun entered =>
    match _hnode : entered.val with
    | .block span name body => andThen (put (.block span name) (e.onNodes body)) id e.leaveNode
    | node => e.leaveNode node
termination_by sizeOf node.shape
decreasing_by
  rw [← entered.property, _hnode, Node.shape]
  decreasing_tactic

/-- Changes the nodes of a body in order. -/
def onNodes (e : Editor m) : List Node → m (Changed (List Node))
  | [] => pure ([], none)
  | node :: rest => both (e.onNode node) (· :: rest) (e.onNodes rest) (· :: ·)
termination_by nodes => sizeOf (Node.shapes nodes)
decreasing_by all_goals rw [Node.shapes]; decreasing_tactic

end

mutual

/-- Changes a tree (`traverse`): its parts are those that it has once it is entered. -/
def onTree (e : Editor m) (tree : Tree) : m (Changed Tree) :=
  andThen (e.enterTree tree) Subtype.val fun
    | ⟨⟨name, parent, body, embedded, index⟩, _hshape⟩ =>
      andThen (both (e.onTrees embedded) (⟨name, parent, body, ·, index⟩) (e.onNodes body)
        fun embedded body => ⟨name, parent, body, embedded, index⟩) id e.leaveTree
termination_by sizeOf tree.shape
decreasing_by
  rw [← _hshape, Tree.shape]
  decreasing_tactic

/-- Changes embedded trees in order. -/
def onTrees (e : Editor m) : List Tree → m (Changed (List Tree))
  | [] => pure ([], none)
  | tree :: rest => both (e.onTree tree) (· :: rest) (e.onTrees rest) (· :: ·)
termination_by trees => sizeOf (Tree.shapes trees)
decreasing_by all_goals rw [Tree.shapes]; decreasing_tactic

end

/-- What is left to do at a node that is entered. -/
def finishNode (e : Editor m) : Node → m (Changed Node)
  | .block span name body => andThen (put (.block span name) (e.onNodes body)) id e.leaveNode
  | node => e.leaveNode node

/-- What is left to do at a tree that is entered. -/
def finishTree (e : Editor m) : Tree → m (Changed Tree)
  | ⟨name, parent, body, embedded, index⟩ =>
    andThen (both (e.onTrees embedded) (⟨name, parent, body, ·, index⟩) (e.onNodes body)
      fun embedded body => ⟨name, parent, body, embedded, index⟩) id e.leaveTree

theorem onNode_eq_finishNode (e : Editor m) (node : Node) :
    e.onNode node =
      andThen (e.enterNode node) Subtype.val fun entered => e.finishNode entered.val := by
  rw [onNode]
  congr 1
  funext ⟨entered, _⟩
  cases entered <;> rfl

theorem onTree_eq_finishTree (e : Editor m) (tree : Tree) :
    e.onTree tree =
      andThen (e.enterTree tree) Subtype.val fun entered => e.finishTree entered.val := by
  rw [onTree]
  congr 1
  funext ⟨entered, _⟩
  cases entered
  rfl

end Editor

/-! ## Passes as editors -/

namespace Pass

variable {m : Type → Type} [Monad m] {τ : Type} [Runs m τ] {α β γ : Type}

/-- A step, by what it does to the state. -/
def seen (step : m α) : StateT τ Option α := StateT.mk (run step)

theorem seen_pure (a : α) : seen (τ := τ) (pure a : m α) = pure a := by
  funext s
  exact run_pure a s

theorem seen_bind (step : m α) (next : α → m β) :
    seen (τ := τ) (step >>= next) = seen step >>= fun a => seen (next a) := by
  funext s
  exact run_bind step next s

theorem seen_both (first : m (Changed α)) (stop : α → γ) (second : m (Changed β))
    (build : α → β → γ) :
    seen (τ := τ) (both first stop second build) = both (seen first) stop (seen second) build := by
  simp only [both, seen_bind]
  refine bind_congr fun ⟨a, fault⟩ => ?_
  cases fault <;> simp only [seen_bind, seen_pure]

/-- What an answer leaves of what it is about. -/
def settle (whole : α) : Except MissingPart α → Changed α
  | .ok changed => (changed, none)
  | .error fault => (whole, some fault)

/-- Looks at something and leaves it as it is. -/
def looking (look : m (Except MissingPart Unit)) (whole : α) : StateT τ Option (Changed α) :=
  (fun answer => settle whole (answer.map fun () => whole)) <$> seen look

/-- Changes something where that is not refused. -/
def replacing (change : α → m (Except MissingPart α)) (whole : α) : StateT τ Option (Changed α) :=
  settle whole <$> seen (change whole)

/-- The editor that looks where a pass looks and changes what the pass changes. -/
def editor (p : Pass m) : Editor (StateT τ Option) where
  enterTree tree := looking (p.enterTree tree) tree.asEntered
  leaveTree := replacing p.leaveTree
  enterNode node := looking (p.enterNode node) node.asEntered
  leaveNode := replacing p.leaveNode

/-- A visit is a look at the whole, the change of its children and then its own. -/
theorem seen_visit {entered : α → Prop} (enter : α → m (Except MissingPart Unit))
    (children : m (Changed α)) (leave : α → m (Except MissingPart α)) (whole : Subtype entered)
    (next : Subtype entered → StateT τ Option (Changed α))
    (hnext : next whole = andThen (seen children) id (replacing leave)) :
    seen (visit enter children leave whole.val) =
      andThen (looking (enter whole.val) whole) Subtype.val next := by
  simp only [visit, looking, andThen, seen_bind, map_eq_pure_bind, bind_assoc, pure_bind]
  refine bind_congr fun answer => ?_
  cases answer with
  | error fault => exact seen_pure _
  | ok =>
    refine Eq.trans ?_ hnext.symm
    simp only [seen_bind, andThen]
    refine bind_congr ?_
    rintro ⟨changed, fault⟩
    cases fault with
    | some fault => exact seen_pure _
    | none =>
      simp only [replacing, map_eq_pure_bind, seen_bind]
      refine bind_congr fun answer => ?_
      cases answer <;> exact seen_pure _

theorem seen_put (place : α → β) (step : m (Changed α)) :
    seen (τ := τ) (do
      let (a, fault) ← step
      pure (place a, fault)) = put place (seen step) := by
  simp only [put, andThen, seen_bind]
  refine bind_congr fun ⟨a, fault⟩ => ?_
  cases fault <;> exact seen_pure _

mutual

/-- A pass changes a node as its editor does. -/
theorem seen_onNode (p : Pass m) : ∀ node : Node,
    seen (τ := τ) (p.onNode node) = p.editor.onNode node
  | .block span name body => by
    rw [onNode, Editor.onNode]
    refine seen_visit _ _ _ (Node.asEntered (.block span name body)) _ ?_
    rw [seen_put, seen_onNodes p body]
    rfl
  | .text .. | .print .. | .«include» .. => by
    rw [onNode, Editor.onNode]
    refine seen_visit _ _ _ (Node.asEntered _) _ ?_
    rw [seen_pure, andThen_pure]
    rfl

theorem seen_onNodes (p : Pass m) : ∀ nodes : List Node,
    seen (τ := τ) (p.onNodes nodes) = p.editor.onNodes nodes
  | [] => by rw [onNodes, Editor.onNodes, seen_pure]
  | node :: rest => by
    rw [onNodes, Editor.onNodes, seen_both, seen_onNode p node, seen_onNodes p rest]

end

mutual

/-- A pass changes a tree as its editor does. -/
theorem seen_onTree (p : Pass m) : ∀ tree : Tree,
    seen (τ := τ) (p.onTree tree) = p.editor.onTree tree
  | ⟨name, parent, body, embedded, index⟩ => by
    rw [onTree, Editor.onTree]
    refine seen_visit _ _ _ (Tree.asEntered ⟨name, parent, body, embedded, index⟩) _ ?_
    rw [seen_both, seen_onTrees p embedded, seen_onNodes p body]
    rfl

theorem seen_onTrees (p : Pass m) : ∀ trees : List Tree,
    seen (τ := τ) (p.onTrees trees) = p.editor.onTrees trees
  | [] => by rw [onTrees, Editor.onTrees, seen_pure]
  | tree :: rest => by
    rw [onTrees, Editor.onTrees, seen_both, seen_onTree p tree, seen_onTrees p rest]

end

end Pass

end Stencil
