import Stencil.Proofs.Compiled

/-!
# Which fault ends a pass

A pass that needs no monad and refuses nothing but tags ends with the fault of the first tag that it
refuses, embedded trees before the body; if it refuses none, it gives the changed tree.

Results:
* `Pass.leaves_onTree`: what such a pass leaves.
* `Engine.outcome_standardPasses_eq`, `Engine.outcome_compile_eq`: what the standard passes and the
  engines with these passes make of a tree.
-/

namespace Stencil

open Override

namespace Pass

/-- The fault for which a node is refused. -/
def refusal? (g? : Node → Except MissingPart Node) (node : Node) : Option MissingPart :=
  match g? node with
  | .ok _ => none
  | .error fault => some fault

/-- The fault of the first of some nodes that are refused. -/
def firstRefusal? (g? : Node → Except MissingPart Node) (nodes : List Node) : Option MissingPart :=
  nodes.findSome? (refusal? g?)

/-- A fault if there is one, and otherwise an answer. -/
def conclude {α : Type} (fault : Option MissingPart) (a : α) : Except MissingPart α :=
  match fault with
  | some f => .error f
  | none => .ok a

@[simp] theorem conclude_some {α : Type} (f : MissingPart) (a : α) :
    conclude (some f) a = .error f := rfl

@[simp] theorem conclude_none {α : Type} (a : α) : conclude none a = .ok a := rfl

variable {n : Type → Type} [Monad n] {τ : Type} [Runs n τ]

/-- A step of a pass leaves the state alone and ends with the given fault, or without one and with
    what is wanted. -/
def Leaves {α : Type} (step : n (Changed α)) (wanted : α) (fault : Option MissingPart) : Prop :=
  ∀ s : τ, ∃ x, run step s = some ((x, fault), s) ∧ (fault = none → x = wanted)

theorem leaves_pure {α : Type} (a : α) :
    Leaves (τ := τ) (pure (a, none) : n (Changed α)) a none :=
  fun s => ⟨a, run_pure _ s, fun _ => rfl⟩

/-- A visit ends with a fault of the children, or else with one of its own. -/
theorem leaves_visit {α : Type} {children : n (Changed α)} {middle wanted whole : α}
    {fault own : Option MissingPart} {leave : α → Except MissingPart α}
    (hc : Leaves (τ := τ) children middle fault)
    (hl : leave middle = conclude own wanted) :
    Leaves (τ := τ) (visit (fun _ => pure (.ok ())) children (fun w => pure (leave w)) whole)
      wanted (fault.or own) := by
  intro s
  obtain ⟨x, hrun, hx⟩ := hc s
  simp only [visit, run_bind, run_pure, Option.bind_some, hrun]
  cases fault with
  | some f => exact ⟨x, run_pure _ s, fun h => (Option.some_ne_none f h).elim⟩
  | none =>
    obtain rfl := hx rfl
    simp only [run_pure, run_bind, Option.bind_some, hl, Option.none_or]
    cases own with
    | some f => exact ⟨x, run_pure _ s, fun h => (Option.some_ne_none f h).elim⟩
    | none => exact ⟨wanted, run_pure _ s, fun _ => rfl⟩

/-- A visit that finds no fault of its own ends as the children do. -/
theorem leaves_visit_fine {α : Type} {children : n (Changed α)} {middle wanted whole : α}
    {fault : Option MissingPart} {leave : α → Except MissingPart α}
    (hc : Leaves (τ := τ) children middle fault) (hl : leave middle = .ok wanted) :
    Leaves (τ := τ) (visit (fun _ => pure (.ok ())) children (fun w => pure (leave w)) whole)
      wanted fault := by
  have hvisit : Leaves (τ := τ)
      (visit (fun _ => pure (.ok ())) children (fun w => pure (leave w)) whole)
      wanted (fault.or none) := leaves_visit hc hl
  rwa [Option.or_none] at hvisit

/-- Two changes end with a fault of the first one, or else with one of the second. -/
theorem leaves_both {α β γ : Type} {first : n (Changed α)} {second : n (Changed β)} {a : α} {b : β}
    {fault fault' : Option MissingPart} (stop : α → γ) (build : α → β → γ)
    (h₁ : Leaves (τ := τ) first a fault) (h₂ : Leaves (τ := τ) second b fault') :
    Leaves (τ := τ) (both first stop second build) (build a b) (fault.or fault') := by
  intro s
  obtain ⟨x, hrun, hx⟩ := h₁ s
  simp only [both, run_bind, hrun, Option.bind_some]
  cases fault with
  | some f => exact ⟨stop x, run_pure _ s, fun h => (Option.some_ne_none f h).elim⟩
  | none =>
    obtain rfl := hx rfl
    obtain ⟨y, hrun, hy⟩ := h₂ s
    simp only [run_bind, hrun, Option.bind_some, Option.none_or]
    exact ⟨build x y, run_pure _ s, fun h => by rw [hy h]⟩

variable {priority : Int} {f : Tree → Tree} {g : Node → Node} {g? : Node → Except MissingPart Node}

theorem firstRefusal?_append (front back : List Node) :
    firstRefusal? g? (front ++ back) = (firstRefusal? g? front).or (firstRefusal? g? back) := by
  simp [firstRefusal?, List.findSome?_append]

theorem Changes.leave (hg : Changes g? g) (node : Node) :
    g? node = conclude (refusal? g? node) (g node) := by
  unfold refusal?
  cases h : g? node with
  | error fault => rfl
  | ok node' => exact congrArg Except.ok (hg.ok node node' h)

theorem Changes.refusal?_text (hg : Changes g? g) (span : Span) (content : String) :
    refusal? g? (.text span content) = none := by
  obtain ⟨node, hnode⟩ := hg.text span content
  rw [refusal?, hnode]

theorem Changes.refusal?_block (hg : Changes g? g) (span : Span) (name : String)
    (body : List Node) : refusal? g? (.block span name body) = none := by
  obtain ⟨node, hnode⟩ := hg.block span name body
  rw [refusal?, hnode]

theorem firstRefusal?_singleton (node : Node) : firstRefusal? g? [node] = refusal? g? node := by
  simp only [firstRefusal?, List.findSome?]
  cases refusal? g? node <;> rfl

mutual

theorem leaves_onNode (hg : Changes g? g) : ∀ node : Node,
    Leaves (τ := τ) ((changing priority (fun t => .ok (f t)) g? : Pass n).onNode node)
      (node.change g) (firstRefusal? g? node.tags)
  | .text span content => by
    have hleave := hg.leave (.text span content)
    rw [hg.refusal?_text] at hleave
    simp only [onNode, Node.change, Node.tags]
    exact leaves_visit (leaves_pure _) hleave
  | .print span expr => by
    have hleave := hg.leave (.print span expr)
    simp only [onNode, Node.change, Node.tags, firstRefusal?_singleton]
    exact leaves_visit (leaves_pure _) hleave
  | .«include» span target clauses => by
    have hleave := hg.leave (.«include» span target clauses)
    simp only [onNode, Node.change, Node.tags, firstRefusal?_singleton]
    exact leaves_visit (leaves_pure _) hleave
  | .block span name body => by
    have hleave := hg.leave (.block span name (Node.changeAll g body))
    rw [hg.refusal?_block] at hleave
    have hbody : Leaves (τ := τ) (do
        let p ← (changing priority (fun t => .ok (f t)) g? : Pass n).onNodes body
        pure (Node.block span name p.1, p.2)) (.block span name (Node.changeAll g body))
        (firstRefusal? g? (Node.tagsIn body)) := by
      intro s
      obtain ⟨x, hrun, hx⟩ := leaves_onNodes hg body s
      refine ⟨.block span name x, ?_, fun h => by rw [hx h]⟩
      simp [hrun]
    simp only [onNode, Node.change, Node.tags]
    exact leaves_visit_fine hbody hleave

theorem leaves_onNodes (hg : Changes g? g) : ∀ nodes : List Node,
    Leaves (τ := τ) ((changing priority (fun t => .ok (f t)) g? : Pass n).onNodes nodes)
      (Node.changeAll g nodes) (firstRefusal? g? (Node.tagsIn nodes))
  | [] => by
    simp only [onNodes, Node.changeAll, Node.tagsIn]
    exact leaves_pure _
  | node :: rest => by
    have hnode := leaves_onNode hg node
    have hrest := leaves_onNodes hg rest
    simp only [onNodes, Node.changeAll, Node.tagsIn, firstRefusal?_append]
    exact leaves_both (· :: rest) (· :: ·) hnode hrest

end

mutual

/-- A pass without a monad gives the changed tree, or the fault of the first tag it refuses. -/
theorem leaves_onTree (hg : Changes g? g) : ∀ tree : Tree,
    Leaves (τ := τ) ((changing priority (fun t => .ok (f t)) g? : Pass n).onTree tree)
      (tree.change f g) (firstRefusal? g? tree.tags)
  | ⟨name, parent, body, embedded, index⟩ => by
    have hembedded : Leaves (τ := τ)
        ((changing priority (fun t => .ok (f t)) g? : Pass n).onTrees embedded)
        (Tree.changeAll f g embedded) (firstRefusal? g? (Tree.tagsInAll embedded)) :=
      leaves_onTrees hg embedded
    have hbody : Leaves (τ := τ) ((changing priority (fun t => .ok (f t)) g? : Pass n).onNodes body)
        (Node.changeAll g body) (firstRefusal? g? (Node.tagsIn body)) := leaves_onNodes hg body
    simp only [onTree, Tree.change, Tree.tags, firstRefusal?_append]
    exact leaves_visit_fine (leaves_both _ _ hembedded hbody) rfl

theorem leaves_onTrees (hg : Changes g? g) : ∀ trees : List Tree,
    Leaves (τ := τ) ((changing priority (fun t => .ok (f t)) g? : Pass n).onTrees trees)
      (Tree.changeAll f g trees) (firstRefusal? g? (Tree.tagsInAll trees))
  | [] => by
    simp only [onTrees, Tree.changeAll, Tree.tagsInAll]
    exact leaves_pure _
  | tree :: rest => by
    have htree := leaves_onTree hg tree
    have hrest := leaves_onTrees hg rest
    simp only [onTrees, Tree.changeAll, Tree.tagsInAll, firstRefusal?_append]
    exact leaves_both (· :: rest) (· :: ·) htree hrest

end

end Pass

/-! ## The standard passes -/

/-- An embed is refused if it lacks its name. -/
theorem Override.refusal?_embedded (span : Span) (filename : String) (index : Nat)
    (clauses : Clauses) :
    Pass.refusal? routeNode (.«include» span (.embedded filename index) clauses) =
      if filename.isEmpty then some ⟨"embed", "filename", span⟩ else none := by
  cases h : filename.isEmpty <;> simp [Pass.refusal?, routeNode, h]

/-- The fault with which the standard passes refuse a tree. -/
def Tree.refused? (overridden : Bool) (tree : Tree) : Option MissingPart :=
  if overridden then Pass.firstRefusal? routeNode tree.tags else none

namespace Engine

variable {m : Type → Type} [Monad m] {τ : Type} [Runs m τ]

theorem outcome_conclude (fault : Option MissingPart) (tree : Tree) (s : τ) :
    outcome (ExceptT.mk (pure (Pass.conclude fault tree)) : ExceptT MissingPart m Tree) s =
      some (Pass.conclude fault tree, s) := run_pure _ s

theorem outcome_runPasses_leaves {p : Pass m} {tree wanted : Tree} {fault : Option MissingPart}
    (h : Pass.Leaves (τ := τ) (p.onTree tree) wanted fault) (rest : List (Pass m)) (s : τ) :
    outcome (runPasses (p :: rest) tree) s =
      outcome (ExceptT.mk (pure (Pass.conclude fault wanted)) >>= runPasses rest) s := by
  obtain ⟨x, hrun, hx⟩ := h s
  have hlift : outcome (ExceptT.lift (p.onTree tree) : ExceptT MissingPart m _) s =
      some (.ok (x, fault), s) := by
    rw [outcome_lift, hrun]
    rfl
  rw [runPasses, outcome_bind_ok hlift]
  cases fault with
  | some f =>
    exact (outcome_throw f s).trans (outcome_bind_error (outcome_conclude (some f) wanted s) _).symm
  | none =>
    rw [hx rfl]
    exact (outcome_bind_ok (outcome_conclude none wanted s) _).symm

/-- The standard passes give the compiled tree, or the first fault. -/
theorem outcome_standardPasses_eq (overridden : Bool) (tree : Tree) (s : τ) :
    outcome (runPasses (standardPasses (m := m) overridden) tree) s =
      some (Pass.conclude (tree.refused? overridden) (tree.compiled overridden), s) := by
  have hmerges : Pass.Leaves (τ := τ) ((textMerge : Pass m).onTree tree) tree.merged
      (Pass.firstRefusal? (fun node => .ok (mergeNode node)) tree.tags) :=
    Pass.leaves_onTree mergeNode_changes tree
  have hnone : Pass.firstRefusal? (fun node => .ok (mergeNode node)) tree.tags = none :=
    List.findSome?_eq_none_iff.2 fun _ _ => rfl
  rw [hnone] at hmerges
  have hfirst : ∀ rest : List (Pass m), outcome (runPasses (textMerge :: rest) tree) s =
      outcome (runPasses rest tree.merged) s := by
    intro rest
    rw [outcome_runPasses_leaves hmerges rest s]
    exact outcome_bind_ok (outcome_conclude none tree.merged s) _
  cases overridden with
  | false => exact (hfirst []).trans (outcome_runPasses_nil _ s)
  | true =>
    have hroutes : Pass.Leaves (τ := τ) ((routing : Pass m).onTree tree.merged) tree.merged.routed
        (Pass.firstRefusal? routeNode tree.merged.tags) :=
      Pass.leaves_onTree routeNode_changes tree.merged
    have hlast : ∀ tree : Tree, outcome (τ := τ) (runPasses ([] : List (Pass m)) tree) =
        outcome (pure tree : ExceptT MissingPart m Tree) := fun tree => rfl
    rw [Tree.tags_merged] at hroutes
    refine (hfirst [routing]).trans ?_
    rw [outcome_runPasses_leaves hroutes [] s, outcome_bind_congr _ hlast, outcome_bind_pure]
    exact run_pure _ s

/-- A source that is a tree is compiled to what the passes make of the tree. -/
theorem outcome_compile_eq {e : Engine m} {overridden : Bool}
    (he : e.passes = standardPasses overridden) {name source : String} {tree : Tree}
    (h : Tree.parse name source.toList = .ok tree) (s : τ) :
    outcome (e.compile name source) s =
      some ((Except.mapError (.invalidTree name)
        (Pass.conclude (tree.refused? overridden) (tree.compiled overridden))).map
          (Template.mk name), s) := by
  rw [outcome_compile, h, he]
  dsimp only
  rw [outcome_standardPasses_eq]
  rfl

end Engine

end Stencil
