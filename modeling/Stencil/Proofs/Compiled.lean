import Stencil.Override.Extension
import Stencil.Proofs.Definitions
import Stencil.Proofs.Passes

/-!
# Compiled trees

The tree of a compiled template as a function of the tree of its source, for engines with the
built-in pass alone and with the pass that routes templates through the hooks after it. Neither pass
touches the names of blocks or how they are nested.

Results:
* `Tree.gives_merged`, `Tree.gives_routed`: what the two passes do.
* `SameBlocks.compiled`, `Tree.Tidy.compiled`: blocks stay as they are.
* `Engine.outcome_compile`, `Engine.compile_ok`: what a source is compiled to.
-/

namespace Stencil

open Node Override

/-- The tree after the built-in pass. -/
def Tree.merged (tree : Tree) : Tree := tree.change mergeTree mergeNode

/-- A node that consults the hooks; a node that the pass refuses stays as it is. -/
def Override.routedNode (node : Node) : Node :=
  match routeNode node with
  | .ok routed => routed
  | .error _ => node

theorem Override.routedNode_named (span : Span) (target : Expr) (clauses : Clauses) :
    routedNode (.«include» span (.named target) clauses) =
      .«include» span (.named (routedTarget target clauses)) (routedClauses target span clauses) := rfl

theorem Override.routedNode_embedded (span : Span) {filename : String} (h : filename ≠ "")
    (index : Nat) (clauses : Clauses) :
    routedNode (.«include» span (.embedded filename index) clauses) =
      .«include» span (.embedded filename index)
        (routedClauses (.constant span (.string filename)) span clauses) := by
  have hempty : filename.isEmpty = false := by simpa using h
  simp only [routedNode, routeNode, hempty]
  rfl

/-- The tree after the pass that routes it through the hooks. -/
def Tree.routed (tree : Tree) : Tree := tree.change routeTree routedNode

/-- The tree of a template after the passes of an engine without or with overrides. -/
def Tree.compiled (overridden : Bool) (tree : Tree) : Tree :=
  if overridden then tree.merged.routed else tree.merged

/-- The passes of an engine without or with overrides. -/
def standardPasses {m : Type → Type} [Monad m] (overridden : Bool) : List (Pass m) :=
  if overridden then [textMerge, routing] else [textMerge]

section Environments

variable {m : Type → Type} [Monad m]

theorem Environment.passes_ofLoader (loader : Loader m) :
    (Environment.ofLoader loader).engine.passes = standardPasses false := rfl

/-- Installing the extension of a chain puts its pass behind the built-in one. -/
theorem Environment.passes_install {env : Environment m}
    (h : env.engine.passes = standardPasses false) (c : Chain m) :
    (env.install (extension c)).engine.passes = standardPasses true := by
  change insertPass routing env.engine.passes = standardPasses true
  rw [h]
  rfl

end Environments

/-! ## What the passes do -/

section Gives

variable {n : Type → Type} [Monad n] {τ : Type} [Runs n τ]

theorem mergeNode_changes : Pass.Changes (fun node => .ok (mergeNode node)) mergeNode where
  ok node node' h := by
    cases h
    rfl
  text span content := ⟨_, rfl⟩
  block span name body := ⟨_, rfl⟩

theorem routeNode_changes : Pass.Changes routeNode routedNode where
  ok node node' h := by
    unfold routedNode
    rw [h]
  text span content := ⟨_, rfl⟩
  block span name body := ⟨_, rfl⟩

/-- The built-in pass merges texts and finds no faults. -/
theorem Tree.gives_merged (tree : Tree) :
    Pass.Gives (τ := τ) ((textMerge : Pass n).onTree tree) tree.merged True :=
  (Pass.gives_onTree mergeNode_changes tree).congr
    (iff_of_true (fun tag _ => ⟨mergeNode tag, rfl⟩) trivial)

/-- The other pass routes a tree through the hooks unless it refuses a tag. -/
theorem Tree.gives_routed (tree : Tree) :
    Pass.Gives (τ := τ) ((routing : Pass n).onTree tree) tree.routed
      (Pass.Accepts routeNode tree.tags) :=
  Pass.gives_onTree routeNode_changes tree

end Gives

/-! ## What the passes keep -/

/-- Two bodies have blocks of the same names, nested in the same way. -/
def SameBlocks (nodes nodes' : List Node) : Prop :=
  blockNames nodes' = blockNames nodes ∧ (NestFreshly nodes' ↔ NestFreshly nodes)

namespace SameBlocks

theorem refl (nodes : List Node) : SameBlocks nodes nodes := ⟨rfl, Iff.rfl⟩

theorem trans {x y z : List Node} (hxy : SameBlocks x y) (hyz : SameBlocks y z) :
    SameBlocks x z := ⟨hyz.1.trans hxy.1, hyz.2.trans hxy.2⟩

theorem leaf {node node' : Node} (h : node.IsLeaf) (h' : node'.IsLeaf) {rest rest' : List Node}
    (hrest : SameBlocks rest rest') : SameBlocks (node :: rest) (node' :: rest') := by
  unfold SameBlocks
  rw [blockNames_leaf h, blockNames_leaf h', nestFreshly_leaf h, nestFreshly_leaf h']
  exact hrest

theorem block {span : Span} {name : String} {body body' rest rest' : List Node}
    (hbody : SameBlocks body body') (hrest : SameBlocks rest rest') :
    SameBlocks (.block span name body :: rest) (.block span name body' :: rest') := by
  unfold SameBlocks
  rw [blockNames_block, blockNames_block, nestFreshly_block, nestFreshly_block]
  rw [hbody.1, hbody.2, hrest.1, hrest.2]
  exact ⟨rfl, Iff.rfl⟩

theorem mergeText (nodes : List Node) : SameBlocks nodes (mergeText nodes) := by
  induction nodes with
  | nil => exact refl []
  | cons node rest ih =>
    cases node with
    | text span content =>
      have hdrop : SameBlocks (.text span content :: rest) rest := by
        unfold SameBlocks
        rw [blockNames_leaf (text_isLeaf ..), nestFreshly_leaf (text_isLeaf ..)]
        exact ⟨rfl, Iff.rfl⟩
      simp only [Stencil.mergeText]
      split
      · exact hdrop.trans ih
      · split
        · next next more others h =>
          rw [h] at ih
          refine hdrop.trans (ih.trans ?_)
          exact leaf (text_isLeaf ..) (text_isLeaf ..) (refl others)
        · exact leaf (text_isLeaf ..) (text_isLeaf ..) ih
    | print span expr => exact leaf (print_isLeaf ..) (print_isLeaf ..) ih
    | block span name body => exact block (refl body) ih
    | «include» span target clauses => exact leaf (include_isLeaf ..) (include_isLeaf ..) ih

end SameBlocks

/-- A change of nodes that leaves blocks as they are. -/
structure KeepsBlocks (g : Node → Node) : Prop where
  leaf : ∀ node : Node, node.IsLeaf → (g node).IsLeaf
  block : ∀ span name body, ∃ body', g (.block span name body) = .block span name body' ∧
    SameBlocks body body'

/-- A change of trees that leaves blocks as they are. -/
structure KeepsTrees (f : Tree → Tree) : Prop where
  parent : ∀ tree, (f tree).parent.isSome = tree.parent.isSome
  body : ∀ tree, SameBlocks tree.body (f tree).body
  embedded : ∀ tree, (f tree).embedded = tree.embedded

theorem mergeNode_keeps : KeepsBlocks mergeNode where
  leaf node h := by
    cases node with
    | block => exact h.elim
    | _ => exact h
  block span name body := ⟨_, rfl, .mergeText body⟩

theorem mergeTree_keeps : KeepsTrees mergeTree where
  parent _ := rfl
  body tree := .mergeText tree.body
  embedded _ := rfl

theorem routedNode_keeps : KeepsBlocks routedNode where
  leaf node h := by
    cases node with
    | block => exact h.elim
    | «include» span target clauses =>
      cases target with
      | named expr => exact include_isLeaf ..
      | embedded filename index =>
        by_cases hname : filename = ""
        · subst hname
          exact include_isLeaf ..
        · rw [routedNode_embedded span hname]
          exact include_isLeaf ..
    | _ => exact h
  block span name body := ⟨body, rfl, .refl body⟩

theorem routeTree_keeps : KeepsTrees routeTree where
  parent tree := by
    cases h : tree.parent <;> simp [routeTree, h]
  body tree := .refl tree.body
  embedded _ := rfl

theorem SameBlocks.changeAll {g : Node → Node} (hg : KeepsBlocks g) (nodes : List Node) :
    SameBlocks nodes (Node.changeAll g nodes) := by
  induction nodes using body_induction with
  | nil => exact .refl []
  | leaf node rest hleaf ih =>
    have hchange : node.change g = g node := by
      cases node with
      | block => exact hleaf.elim
      | _ => rfl
    rw [Node.changeAll, hchange]
    exact .leaf hleaf (hg.leaf node hleaf) ih
  | block span name body rest ihBody ihRest =>
    obtain ⟨body', hbody', hsame⟩ := hg.block span name (Node.changeAll g body)
    rw [Node.changeAll, Node.change, hbody']
    exact .block (ihBody.trans hsame) ihRest

/-- A tree that may put definitions in effect has none in which a block contains a block of its own
    name. -/
def Tree.Fresh (tree : Tree) : Prop := tree.parent.isSome → NestFreshly tree.body

/-- A tree of this kind, all of whose embedded trees are. -/
def Tree.Tidy (tree : Tree) : Prop := tree.Fresh ∧ ∀ inner ∈ tree.embedded, inner.Fresh

instance (tree : Tree) : Decidable tree.Fresh :=
  inferInstanceAs (Decidable (tree.parent.isSome → NestFreshly tree.body))

instance (tree : Tree) : Decidable tree.Tidy :=
  inferInstanceAs (Decidable (tree.Fresh ∧ ∀ inner ∈ tree.embedded, inner.Fresh))

section Tidy

variable {f : Tree → Tree} {g : Node → Node} (hf : KeepsTrees f) (hg : KeepsBlocks g)

include hf hg

theorem Tree.change_body (tree : Tree) : SameBlocks tree.body (tree.change f g).body := by
  obtain ⟨name, parent, body, embedded, index⟩ := tree
  exact (SameBlocks.changeAll hg body).trans (hf.body _)

theorem Tree.Fresh.change {tree : Tree} (h : tree.Fresh) : (tree.change f g).Fresh := by
  intro hparent
  rw [(Tree.change_body hf hg tree).2]
  obtain ⟨name, parent, body, embedded, index⟩ := tree
  exact h (by rwa [Tree.change, hf.parent] at hparent)

theorem Tree.Tidy.change {tree : Tree} (h : tree.Tidy) : (tree.change f g).Tidy := by
  refine ⟨h.1.change hf hg, ?_⟩
  obtain ⟨name, parent, body, embedded, index⟩ := tree
  rw [Tree.change, hf.embedded, Tree.changeAll_eq_map]
  intro inner hinner
  obtain ⟨tree, htree, rfl⟩ := List.mem_map.1 hinner
  exact (h.2 tree htree).change hf hg

end Tidy

/-- The passes keep the names and the nesting of blocks. -/
theorem SameBlocks.compiled (overridden : Bool) (tree : Tree) :
    SameBlocks tree.body (tree.compiled overridden).body := by
  have hmerged : SameBlocks tree.body tree.merged.body :=
    Tree.change_body mergeTree_keeps mergeNode_keeps tree
  cases overridden with
  | false => exact hmerged
  | true => exact hmerged.trans (Tree.change_body routeTree_keeps routedNode_keeps tree.merged)

theorem Tree.Tidy.compiled (overridden : Bool) {tree : Tree} (h : tree.Tidy) :
    (tree.compiled overridden).Tidy := by
  have hmerged : tree.merged.Tidy := h.change mergeTree_keeps mergeNode_keeps
  cases overridden with
  | false => exact hmerged
  | true => exact hmerged.change routeTree_keeps routedNode_keeps

/-! ## Tags after the built-in pass -/

theorem tagsIn_mergeText (nodes : List Node) : tagsIn (mergeText nodes) = tagsIn nodes := by
  induction nodes with
  | nil => rfl
  | cons node rest ih =>
    cases node with
    | text span content =>
      simp only [mergeText]
      split
      · simpa only [tagsIn, tags, List.nil_append] using ih
      · split
        · next next more others h =>
          rw [h] at ih
          simpa only [tagsIn, tags, List.nil_append] using ih
        · simpa only [tagsIn, tags, List.nil_append] using ih
    | print span expr => simp only [mergeText, tagsIn, ih]
    | block span name body => simp only [mergeText, tagsIn, ih]
    | «include» span target clauses => simp only [mergeText, tagsIn, ih]

/-- No node but a block has texts to merge. -/
theorem Node.change_mergeNode_leaf {node : Node} (h : node.IsLeaf) :
    node.change mergeNode = node := by
  cases node with
  | block => exact h.elim
  | _ => rfl

theorem Node.change_mergeNode_block (span : Span) (name : String) (body : List Node) :
    Node.change mergeNode (.block span name body) =
      .block span name (mergeText (Node.changeAll mergeNode body)) := rfl

theorem tagsIn_changeAll_mergeNode (nodes : List Node) :
    tagsIn (Node.changeAll mergeNode nodes) = tagsIn nodes := by
  induction nodes using body_induction with
  | nil => rfl
  | leaf node rest hleaf ih =>
    rw [Node.changeAll, change_mergeNode_leaf hleaf, tagsIn, tagsIn, ih]
  | block span name body rest ihBody ihRest =>
    simp only [Node.changeAll, change_mergeNode_block, tagsIn, tags, tagsIn_mergeText, ihBody,
      ihRest]

mutual

/-- Merging texts keeps all tags. -/
theorem Tree.tags_merged : ∀ tree : Tree, tree.merged.tags = tree.tags
  | ⟨name, parent, body, embedded, index⟩ => by
    have hembedded := Tree.tagsInAll_merged embedded
    simp only [Tree.merged, Tree.change, mergeTree, Tree.tags, tagsIn_mergeText,
      tagsIn_changeAll_mergeNode, hembedded]

theorem Tree.tagsInAll_merged : ∀ trees : List Tree,
    Tree.tagsInAll (Tree.changeAll mergeTree mergeNode trees) = Tree.tagsInAll trees
  | [] => rfl
  | tree :: rest => by
    have hfirst := Tree.tags_merged tree
    unfold Tree.merged at hfirst
    rw [Tree.changeAll, Tree.tagsInAll, Tree.tagsInAll, hfirst, Tree.tagsInAll_merged rest]

end

/-- A pass that refuses no tag of some trees refuses none in the body of one of them. -/
theorem Tree.accepts_of_mem {g? : Node → Except MissingPart Node} {trees : List Tree} {tree : Tree}
    (hmem : tree ∈ trees) (h : Pass.Accepts g? (Tree.tagsInAll trees)) :
    Pass.Accepts g? (tagsIn tree.body) := by
  induction trees with
  | nil => simp at hmem
  | cons first rest ih =>
    rw [Tree.tagsInAll, Pass.accepts_append] at h
    rcases List.mem_cons.1 hmem with rfl | hmem
    · obtain ⟨name, parent, body, embedded, index⟩ := tree
      rw [Tree.tags, Pass.accepts_append] at h
      exact h.1.2
    · exact ih hmem h.2

/-! ## What engines compile -/

namespace Engine

variable {m : Type → Type} [Monad m] {τ : Type} [Runs m τ]

theorem outcome_runPasses_nil (tree : Tree) (s : τ) :
    outcome (runPasses ([] : List (Pass m)) tree) s = some (.ok tree, s) := by
  rw [runPasses, outcome_pure]

/-- Some passes after others run over the tree that these leave. -/
theorem outcome_runPasses_append (front back : List (Pass m)) (tree : Tree) :
    outcome (τ := τ) (runPasses (front ++ back) tree) =
      outcome (runPasses front tree >>= runPasses back) := by
  induction front generalizing tree with
  | nil => exact (outcome_pure_bind tree (runPasses back)).symm
  | cons p rest ih =>
    rw [List.cons_append, runPasses, runPasses, outcome_bind_assoc]
    refine outcome_bind_congr _ fun answer => ?_
    obtain ⟨left, fault⟩ := answer
    cases fault with
    | some fault =>
      funext s
      rw [outcome_throw, outcome_bind_error (outcome_throw fault s)]
    | none => exact ih left

/-- After the first pass, the others run over the tree that it leaves, unless it finds a fault. -/
theorem outcome_runPasses_cons {p : Pass m} {tree wanted : Tree} {fine : Prop}
    (h : Pass.Gives (τ := τ) (p.onTree tree) wanted fine) (rest : List (Pass m)) (s : τ) :
    (¬ fine ∧ ∃ fault, outcome (runPasses (p :: rest) tree) s = some (.error fault, s)) ∨
      (fine ∧ outcome (runPasses (p :: rest) tree) s = outcome (runPasses rest wanted) s) := by
  obtain ⟨x, fault, hrun, hx, hfine⟩ := h s
  have hlift : outcome (ExceptT.lift (p.onTree tree) : ExceptT MissingPart m _) s =
      some (.ok (x, fault), s) := by
    rw [outcome_lift, hrun]
    rfl
  rw [runPasses, outcome_bind_ok hlift]
  cases fault with
  | none =>
    rw [hx rfl]
    exact .inr ⟨hfine.1 rfl, rfl⟩
  | some fault =>
    have hnot : ¬ fine := fun h => Option.some_ne_none fault (hfine.2 h)
    exact .inl ⟨hnot, fault, outcome_throw fault s⟩

/-- The standard passes refuse a tree, or not. -/
def Fine (overridden : Bool) (tree : Tree) : Prop :=
  overridden = true → Pass.Accepts routeNode tree.tags

/-- Standard passes give the compiled tree or a fault. -/
theorem outcome_standardPasses (overridden : Bool) (tree : Tree) (s : τ) :
    (¬ Fine overridden tree ∧
      ∃ fault, outcome (runPasses (standardPasses (m := m) overridden) tree) s =
        some (.error fault, s)) ∨
    (Fine overridden tree ∧ outcome (runPasses (standardPasses (m := m) overridden) tree) s =
      some (.ok (tree.compiled overridden), s)) := by
  cases overridden with
  | false =>
    rcases outcome_runPasses_cons (m := m) tree.gives_merged [] s with ⟨hf, -⟩ | ⟨-, h⟩
    · exact (hf trivial).elim
    · exact .inr ⟨nofun, h.trans (outcome_runPasses_nil _ s)⟩
  | true =>
    rcases outcome_runPasses_cons (m := m) tree.gives_merged [routing] s with ⟨hf, -⟩ | ⟨-, h⟩
    · exact (hf trivial).elim
    · have hpasses : standardPasses (m := m) true = [textMerge, routing] := rfl
      rw [hpasses, h]
      rcases outcome_runPasses_cons (m := m) tree.merged.gives_routed [] s with
        ⟨hf, hfault⟩ | ⟨hf, h'⟩
      · rw [Tree.tags_merged] at hf
        exact .inl ⟨fun hfine => hf (hfine rfl), hfault⟩
      · rw [Tree.tags_merged] at hf
        exact .inr ⟨fun _ => hf, h'.trans (outcome_runPasses_nil _ s)⟩

/-- What is compiled depends on the source and on what the passes make of its tree. -/
theorem outcome_compile (e : Engine m) (name source : String) (s : τ) :
    outcome (e.compile name source) s =
      match Tree.parse name source.toList with
      | .error faults => some (.error (.invalidSource name source faults), s)
      | .ok tree => (outcome (runPasses e.passes tree) s).map fun p =>
          ((Except.mapError (.invalidTree name) p.1).map (Template.mk name), p.2) := by
  cases hparse : Tree.parse name source.toList with
  | error faults =>
    rw [compile, hparse]
    exact outcome_throw _ s
  | ok tree =>
    have hcompile : e.compile name source =
        ExceptT.mk (Except.mapError (.invalidTree name) <$> (runPasses e.passes tree).run) >>=
          fun tree => pure ⟨name, tree⟩ := by
      rw [compile, hparse]
    rw [hcompile, outcome_bind, outcome_mapError]
    dsimp only
    cases outcome (runPasses e.passes tree) s with
    | none => rfl
    | some finish =>
      obtain ⟨answer, s'⟩ := finish
      cases answer with
      | error fault => rfl
      | ok tree => exact outcome_pure (Template.mk name tree) s'

variable {e : Engine m} {overridden : Bool}

/-- A source that is no template is not compiled. -/
theorem compile_of_faults {name source : String} {faults : List Syntax.Fault}
    (h : Tree.parse name source.toList = .error faults) (s : τ) :
    outcome (e.compile name source) s = some (.error (.invalidSource name source faults), s) := by
  rw [outcome_compile, h]

/-- A template is compiled to the changed tree of its source, unless the passes refuse it. -/
theorem compile_of_tree (he : e.passes = standardPasses overridden) {name source : String}
    {tree : Tree} (h : Tree.parse name source.toList = .ok tree) (s : τ) :
    (¬ Fine overridden tree ∧
      ∃ fault, outcome (e.compile name source) s = some (.error (.invalidTree name fault), s)) ∨
    (Fine overridden tree ∧
      outcome (e.compile name source) s = some (.ok ⟨name, tree.compiled overridden⟩, s)) := by
  rw [outcome_compile, h]
  dsimp only
  rcases outcome_standardPasses (m := m) overridden tree s with ⟨hf, fault, hrun⟩ | ⟨hf, hrun⟩
  · rw [← he] at hrun
    exact .inl ⟨hf, fault, by rw [hrun]; rfl⟩
  · rw [← he] at hrun
    exact .inr ⟨hf, by rw [hrun]; rfl⟩

/-- Whatever an engine compiles is the changed tree of the source, and compiling leaves the state
    alone. -/
theorem compile_ok (he : e.passes = standardPasses overridden) {name source : String}
    {template : Template} {s s' : τ} (h : outcome (e.compile name source) s = some (.ok template, s')) :
    ∃ tree, Tree.parse name source.toList = .ok tree ∧ Fine overridden tree ∧
      template = ⟨name, tree.compiled overridden⟩ := by
  cases hparse : Tree.parse name source.toList with
  | error faults =>
    rw [compile_of_faults hparse] at h
    cases h
  | ok tree =>
    rcases compile_of_tree he hparse s with ⟨-, fault, hfault⟩ | ⟨hf, hok⟩
    · rw [hfault] at h
      cases h
    · rw [hok] at h
      cases h
      exact ⟨tree, rfl, hf, rfl⟩

end Engine

end Stencil
