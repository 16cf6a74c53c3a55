import Stencil.Proofs.Run
import Stencil.Template.Pass

/-!
# The trees that passes leave

A pass that needs no monad changes every node and every tree of a template, children before parents.
`Tree.change` is that change as a function.

Results:
* `Node.changeAll_eq_map`, `Tree.changeAll_eq_map`: lists are changed item by item.
* `Pass.gives_onTree`: such a pass gives the changed tree, or a fault exactly if it refuses a tag.
-/

namespace Stencil

/-! ## Tags -/

mutual

/-- The prints and includes in a node. -/
def Node.tags : Node → List Node
  | .text .. => []
  | .block _ _ body => Node.tagsIn body
  | node => [node]

/-- The prints and includes in a body. -/
def Node.tagsIn : List Node → List Node
  | [] => []
  | node :: rest => node.tags ++ Node.tagsIn rest

end

theorem Node.tags_include (span : Span) (target : Target) (clauses : Clauses) :
    Node.tags (.«include» span target clauses) = [.«include» span target clauses] := rfl

mutual

/-- The prints and includes in a tree and its embedded trees. -/
def Tree.tags : Tree → List Node
  | ⟨_, _, body, embedded, _⟩ => Tree.tagsInAll embedded ++ Node.tagsIn body

/-- The prints and includes in some trees. -/
def Tree.tagsInAll : List Tree → List Node
  | [] => []
  | tree :: rest => tree.tags ++ Tree.tagsInAll rest

end

theorem Node.tagsIn_append (front back : List Node) :
    Node.tagsIn (front ++ back) = Node.tagsIn front ++ Node.tagsIn back := by
  induction front with
  | nil => rfl
  | cons node rest ih => rw [List.cons_append, Node.tagsIn, Node.tagsIn, ih, List.append_assoc]

theorem Tree.tagsInAll_append (front back : List Tree) :
    Tree.tagsInAll (front ++ back) = Tree.tagsInAll front ++ Tree.tagsInAll back := by
  induction front with
  | nil => rfl
  | cons tree rest ih =>
    rw [List.cons_append, Tree.tagsInAll, Tree.tagsInAll, ih, List.append_assoc]

/-! ## Changing a tree -/

mutual

/-- A node with all nodes in it changed, inner ones first. -/
def Node.change (g : Node → Node) : Node → Node
  | .block span name body => g (.block span name (Node.changeAll g body))
  | node => g node

/-- A body with all nodes in it changed. -/
def Node.changeAll (g : Node → Node) : List Node → List Node
  | [] => []
  | node :: rest => node.change g :: Node.changeAll g rest

end

theorem Node.change_include (g : Node → Node) (span : Span) (target : Target) (clauses : Clauses) :
    Node.change g (.«include» span target clauses) = g (.«include» span target clauses) := rfl

mutual

/-- A tree with all nodes in it changed, then its embedded trees and itself. -/
def Tree.change (f : Tree → Tree) (g : Node → Node) : Tree → Tree
  | ⟨name, parent, body, embedded, index⟩ =>
    f ⟨name, parent, Node.changeAll g body, Tree.changeAll f g embedded, index⟩

/-- Some trees, changed one by one. -/
def Tree.changeAll (f : Tree → Tree) (g : Node → Node) : List Tree → List Tree
  | [] => []
  | tree :: rest => tree.change f g :: Tree.changeAll f g rest

end

theorem Node.changeAll_eq_map (g : Node → Node) (nodes : List Node) :
    Node.changeAll g nodes = nodes.map (Node.change g) := by
  induction nodes with
  | nil => rfl
  | cons node rest ih => rw [Node.changeAll, ih]; rfl

theorem Tree.changeAll_eq_map (f : Tree → Tree) (g : Node → Node) (trees : List Tree) :
    Tree.changeAll f g trees = trees.map (Tree.change f g) := by
  induction trees with
  | nil => rfl
  | cons tree rest ih => rw [Tree.changeAll, ih]; rfl

mutual

/-- Changing nothing. -/
theorem Node.change_id : ∀ node : Node, node.change id = node
  | .text .. => rfl
  | .print .. => rfl
  | .«include» .. => rfl
  | .block span name body => by rw [Node.change, Node.changeAll_id body, id]

theorem Node.changeAll_id : ∀ nodes : List Node, Node.changeAll id nodes = nodes
  | [] => rfl
  | node :: rest => by rw [Node.changeAll, Node.change_id node, Node.changeAll_id rest]

end

mutual

theorem Tree.change_id : ∀ tree : Tree, tree.change id id = tree
  | ⟨name, parent, body, embedded, index⟩ => by
    rw [Tree.change, Node.changeAll_id body, Tree.changeAll_id embedded, id]

theorem Tree.changeAll_id : ∀ trees : List Tree, Tree.changeAll id id trees = trees
  | [] => rfl
  | tree :: rest => by rw [Tree.changeAll, Tree.change_id tree, Tree.changeAll_id rest]

end

namespace Pass

section Gives

variable {n : Type → Type} [Monad n] {τ : Type} [Runs n τ]

/-- A step of a pass leaves the state alone, gives what is wanted unless it finds a fault, and finds
    none exactly under a condition. -/
def Gives {α : Type} (step : n (Changed α)) (wanted : α) (fine : Prop) : Prop :=
  ∀ s : τ, ∃ x fault, run step s = some ((x, fault), s) ∧ (fault = none → x = wanted) ∧
    (fault = none ↔ fine)

theorem Gives.congr {α : Type} {step : n (Changed α)} {wanted : α} {fine fine' : Prop}
    (h : Gives (τ := τ) step wanted fine) (hfine : fine ↔ fine') :
    Gives (τ := τ) step wanted fine' := by
  intro s
  obtain ⟨x, fault, hrun, hx, hf⟩ := h s
  exact ⟨x, fault, hrun, hx, hf.trans hfine⟩

theorem gives_pure {α : Type} (a : α) : Gives (τ := τ) (pure (a, none) : n (Changed α)) a True :=
  fun s => ⟨a, none, run_pure _ s, fun _ => rfl, by simp⟩

/-- A visit gives what is wanted if the children do and leaving does. -/
theorem gives_visit {α : Type} {children : n (Changed α)} {middle wanted whole : α}
    {fine fine' : Prop} {leave : α → Except MissingPart α}
    (hc : Gives (τ := τ) children middle fine) (hl : ∀ w, leave middle = .ok w → w = wanted)
    (hf : (∃ w, leave middle = .ok w) ↔ fine') :
    Gives (τ := τ) (visit (fun _ => pure (.ok ())) children (fun w => pure (leave w)) whole)
      wanted (fine ∧ fine') := by
  intro s
  obtain ⟨x, fault, hrun, hx, hfine⟩ := hc s
  simp only [visit, run_bind, run_pure, Option.bind_some, hrun]
  cases fault with
  | some fault =>
    have hnot : ¬ fine := fun h => Option.some_ne_none fault (hfine.2 h)
    exact ⟨x, some fault, run_pure _ s, nofun, nofun, fun h => (hnot h.1).elim⟩
  | none =>
    obtain rfl := hx rfl
    have hchildren : fine := hfine.1 rfl
    simp only [run_bind, run_pure, Option.bind_some]
    cases hw : leave x with
    | error fault =>
      have hnot : ¬ fine' := by
        intro h
        obtain ⟨w, hw'⟩ := hf.2 h
        rw [hw] at hw'
        cases hw'
      exact ⟨x, some fault, run_pure _ s, nofun, nofun, fun h => (hnot h.2).elim⟩
    | ok w =>
      exact ⟨w, none, run_pure _ s, fun _ => hl w hw, fun _ => ⟨hchildren, hf.1 ⟨w, hw⟩⟩,
        fun _ => rfl⟩

/-- Two changes give what is wanted if each of them does. -/
theorem gives_both {α β γ : Type} {first : n (Changed α)} {second : n (Changed β)} {a : α} {b : β}
    {fine fine' : Prop} (stop : α → γ) (build : α → β → γ) (h₁ : Gives (τ := τ) first a fine)
    (h₂ : Gives (τ := τ) second b fine') :
    Gives (τ := τ) (both first stop second build) (build a b) (fine ∧ fine') := by
  intro s
  obtain ⟨x, fault, hrun, hx, hfine⟩ := h₁ s
  simp only [both, run_bind, hrun, Option.bind_some]
  cases fault with
  | some fault =>
    have hnot : ¬ fine := fun h => Option.some_ne_none fault (hfine.2 h)
    exact ⟨stop x, some fault, run_pure _ s, nofun, nofun, fun h => (hnot h.1).elim⟩
  | none =>
    obtain rfl := hx rfl
    have hfirst : fine := hfine.1 rfl
    obtain ⟨y, fault, hrun, hy, hfine'⟩ := h₂ s
    simp only [run_bind, hrun, Option.bind_some]
    refine ⟨build x y, fault, run_pure _ s, fun h => ?_, fun h => ⟨hfirst, hfine'.1 h⟩,
      fun h => hfine'.2 h.2⟩
    rw [hy h]

variable {priority : Int} {f : Tree → Tree} {g : Node → Node} {g? : Node → Except MissingPart Node}

/-- A pass refuses nothing but tags, and changes the rest as a function does. -/
structure Changes (g? : Node → Except MissingPart Node) (g : Node → Node) : Prop where
  ok : ∀ node node', g? node = .ok node' → node' = g node
  text : ∀ span content, ∃ node, g? (.text span content) = .ok node
  block : ∀ span name body, ∃ node, g? (.block span name body) = .ok node

/-- A pass that refuses none of some tags. -/
def Accepts (g? : Node → Except MissingPart Node) (tags : List Node) : Prop :=
  ∀ tag ∈ tags, ∃ node, g? tag = .ok node

theorem accepts_append {front back : List Node} :
    Accepts g? (front ++ back) ↔ Accepts g? front ∧ Accepts g? back := by
  simp only [Accepts, List.mem_append, or_imp, forall_and]

theorem accepts_nil : Accepts g? [] ↔ True := by simp [Accepts]

theorem accepts_tag {tag : Node} : Accepts g? [tag] ↔ ∃ node, g? tag = .ok node := by simp [Accepts]

mutual

theorem gives_onNode (hg : Changes g? g) : ∀ node : Node,
    Gives (τ := τ) ((changing priority (fun t => .ok (f t)) g? : Pass n).onNode node)
      (node.change g) (Accepts g? node.tags)
  | .text span content => by
    simp only [onNode, Node.change, Node.tags]
    refine (gives_visit (gives_pure _) (hg.ok _) (iff_of_true (hg.text span content) trivial)).congr ?_
    rw [accepts_nil, and_true]
  | .print span expr => by
    simp only [onNode, Node.change, Node.tags]
    refine (gives_visit (gives_pure _) (hg.ok _) Iff.rfl).congr ?_
    rw [accepts_tag, true_and]
  | .«include» span target clauses => by
    simp only [onNode, Node.change, Node.tags]
    refine (gives_visit (gives_pure _) (hg.ok _) Iff.rfl).congr ?_
    rw [accepts_tag, true_and]
  | .block span name body => by
    simp only [onNode, Node.change, Node.tags]
    have hbody : Gives (τ := τ) (do
        let p ← (changing priority (fun t => .ok (f t)) g? : Pass n).onNodes body
        pure (Node.block span name p.1, p.2)) (.block span name (Node.changeAll g body))
        (Accepts g? (Node.tagsIn body)) := by
      intro s
      obtain ⟨x, fault, hrun, hx, hfine⟩ := gives_onNodes hg body s
      refine ⟨.block span name x, fault, ?_, fun h => by rw [hx h], hfine⟩
      simp [hrun]
    have hleave : (∃ w, g? (.block span name (Node.changeAll g body)) = .ok w) ↔ True :=
      iff_of_true (hg.block span name _) trivial
    refine (gives_visit hbody (hg.ok _) hleave).congr ?_
    rw [and_true]

theorem gives_onNodes (hg : Changes g? g) : ∀ nodes : List Node,
    Gives (τ := τ) ((changing priority (fun t => .ok (f t)) g? : Pass n).onNodes nodes)
      (Node.changeAll g nodes) (Accepts g? (Node.tagsIn nodes))
  | [] => by
    simp only [onNodes, Node.changeAll, Node.tagsIn]
    exact (gives_pure _).congr accepts_nil.symm
  | node :: rest => by
    simp only [onNodes, Node.changeAll, Node.tagsIn]
    exact (gives_both (· :: rest) (· :: ·) (gives_onNode hg node)
      (gives_onNodes hg rest)).congr accepts_append.symm

end

mutual

/-- A pass without a monad gives the changed tree, and finds a fault exactly if it refuses a tag. -/
theorem gives_onTree (hg : Changes g? g) : ∀ tree : Tree,
    Gives (τ := τ) ((changing priority (fun t => .ok (f t)) g? : Pass n).onTree tree)
      (tree.change f g) (Accepts g? tree.tags)
  | ⟨name, parent, body, embedded, index⟩ => by
    simp only [onTree, Tree.change, Tree.tags]
    have hembedded : Gives (τ := τ)
        ((changing priority (fun t => .ok (f t)) g? : Pass n).onTrees embedded)
        (Tree.changeAll f g embedded) (Accepts g? (Tree.tagsInAll embedded)) :=
      gives_onTrees hg embedded
    have hbody : Gives (τ := τ) ((changing priority (fun t => .ok (f t)) g? : Pass n).onNodes body)
        (Node.changeAll g body) (Accepts g? (Node.tagsIn body)) := gives_onNodes hg body
    refine Gives.congr (gives_visit (gives_both _ _ hembedded hbody) ?wanted
      (show _ ↔ True from ?fine)) ?tags
    case wanted =>
      intro w h
      cases h
      rfl
    case fine => exact iff_of_true ⟨_, rfl⟩ trivial
    case tags => rw [and_true, accepts_append]

theorem gives_onTrees (hg : Changes g? g) : ∀ trees : List Tree,
    Gives (τ := τ) ((changing priority (fun t => .ok (f t)) g? : Pass n).onTrees trees)
      (Tree.changeAll f g trees) (Accepts g? (Tree.tagsInAll trees))
  | [] => by
    simp only [onTrees, Tree.changeAll, Tree.tagsInAll]
    exact (gives_pure _).congr accepts_nil.symm
  | tree :: rest => by
    simp only [onTrees, Tree.changeAll, Tree.tagsInAll]
    exact (gives_both (· :: rest) (· :: ·) (gives_onTree hg tree)
      (gives_onTrees hg rest)).congr accepts_append.symm

end

end Gives

end Pass

end Stencil
