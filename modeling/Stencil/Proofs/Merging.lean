import Stencil.Proofs.Pairings

/-!
# Merging text changes no rendering

The built-in pass joins the texts of every body and drops the empty ones. An engine that runs it
after its other passes keeps other trees than one that does not, in the bodies of templates, of
blocks and of embedded trees alike; but each of its trees belongs to the tree that the other engine
has, and so both render the same texts and end in the same failures.

Results:
* `Tree.AllPaired.merged`: a tree belongs to the tree after the built-in pass.
* `Engine.outcome_runPasses_merging`: what passes leave when the built-in one comes after them.
* `Engine.render_merging`: rendering over the trees with and without merged texts.
-/

namespace Stencil

open Node

/-! ## Trees -/

/-- Any two bodies with the same tags and the same text between them. -/
abbrev anyExpr : Expr → Prop := fun _ => True

/-- A body belongs to the body in which the texts of all blocks are merged. -/
theorem Node.paired_changeAll_mergeNode (nodes : List Node) :
    Node.Paired anyExpr nodes (Node.changeAll mergeNode nodes) := by
  induction nodes using body_induction with
  | nil => exact .nil
  | leaf node rest hleaf ih =>
    rw [Node.changeAll, Node.change_mergeNode_leaf hleaf]
    exact .leaf hleaf (fun _ _ => trivial) ih
  | block span name body rest ihBody ihRest =>
    rw [Node.changeAll, Node.change_mergeNode_block]
    exact .block (.mergedRight ihBody) ihRest

theorem Tree.Paired.merged (tree : Tree) : tree.Paired anyExpr tree.merged := by
  obtain ⟨name, parent, body, embedded, index⟩ := tree
  exact ⟨rfl, rfl, fun _ _ => trivial, .mergedRight (paired_changeAll_mergeNode body)⟩

/-- A tree belongs to the tree after the built-in pass. -/
theorem Tree.AllPaired.merged (tree : Tree) : tree.AllPaired anyExpr tree.merged where
  self := .merged tree
  embedded := by
    rw [embedded_merged]
    exact List.forall₂_map_right_iff.2 (List.forall₂_same.2 fun inner _ => .merged inner)

/-! ## Engines -/

namespace Engine

variable {m : Type → Type} [Monad m] {τ : Type} [Runs m τ]

/-- The engine with the built-in pass after all others. Of an engine without any passes, whose
    templates are the trees of their sources, it is the engine with that pass alone. -/
def merging (e : Engine m) : Engine m := { e with passes := e.passes ++ [textMerge] }

/-- The built-in pass after some others merges the texts of the tree that they leave. -/
theorem outcome_runPasses_merging (passes : List (Pass m)) (tree : Tree) :
    outcome (τ := τ) (runPasses (passes ++ [textMerge]) tree) =
      outcome (runPasses passes tree >>= fun tree => pure tree.merged) := by
  refine (outcome_runPasses_append passes [textMerge] tree).trans ?_
  refine outcome_bind_congr _ fun tree => funext fun s => ?_
  rw [outcome_pure]
  rcases outcome_runPasses_cons (m := m) tree.gives_merged [] s with ⟨hfine, -⟩ | ⟨-, hmerged⟩
  · exact (hfine trivial).elim
  · exact hmerged.trans (outcome_runPasses_nil tree.merged s)

/-- Compiling with the built-in pass after the others gives the trees that compiling without it
    gives, with merged texts, and the same failures. -/
theorem outcome_compile_merging (e : Engine m) (name source : String) :
    outcome (τ := τ) (e.merging.compile name source) =
      outcome (e.compile name source >>= fun t => pure ⟨t.name, t.tree.merged⟩) := by
  funext s
  rw [outcome_bind, outcome_compile, outcome_compile]
  cases Tree.parse name source.toList with
  | error faults => rfl
  | ok tree =>
    have hpasses : outcome (runPasses e.merging.passes tree) s =
        outcome (runPasses e.passes tree >>= fun tree => pure tree.merged) s :=
      congrFun (outcome_runPasses_merging e.passes tree) s
    dsimp only
    rw [hpasses, outcome_bind]
    cases outcome (runPasses e.passes tree) s with
    | none => rfl
    | some p =>
      obtain ⟨r, s'⟩ := p
      cases r with
      | ok left =>
        simp only [Option.bind_some, outcome_pure, Option.map_some]
        rfl
      | error fault => rfl

/-- Two templates whose trees belong together. -/
def MergedAlike (t t' : Template) : Prop := t.tree.AllPaired anyExpr t'.tree

theorem compile_follows_merging (e : Engine m) (name source : String) :
    Follows (fun _ => False) (Eq (α := τ)) MergedAlike (e.compile name source)
      (e.merging.compile name source) :=
  .map_right (outcome_compile_merging e name source) fun t => .merged t.tree

theorem merging_compile_follows (e : Engine m) (name source : String) :
    Follows (fun _ => False) (Eq (α := τ)) MergedAlike (e.merging.compile name source)
      (e.compile name source) :=
  .map_left (outcome_compile_merging e name source) fun t => (Tree.AllPaired.merged t.tree).symm

/-- Two engines that differ in their passes alone and compile alike. -/
theorem pairs_of_compile {e₁ e₂ : Engine m} (hloader : e₁.loader = e₂.loader)
    (hpatience : e₁.patience = e₂.patience) (hsettings : e₁.settings = e₂.settings)
    (hfunctions : e₁.functions = e₂.functions)
    (hcompile : ∀ name source, Follows (fun _ => False) (Eq (α := τ)) MergedAlike
      (e₁.compile name source) (e₂.compile name source)) :
    Pairs (τ := τ) (fun _ => False) MergedAlike Eq anyExpr e₁ e₂ := by
  refine pairs hloader hpatience (.inl (congrArg Settings.maxDepth hsettings)) ?_ ?_ ?_ fun _ _ h => h
  · rintro context _ rfl expr -
    exact Host.evaluate_follows hsettings context expr fun name _ =>
      hostOf_function_follows (by rw [hfunctions])
  · rintro context _ rfl only bindings
    rfl
  · intro name
    unfold loadFresh
    rw [hloader]
    refine (Follows.same _).bind ?_
    rintro source _ rfl
    exact hcompile name source

/-- Rendering over trees with merged texts gives the same text as rendering over the trees as they
    are, or ends in the same failure: for every store, settings, functions and patience, for every
    template of the store and for every source that is compiled apart. -/
theorem render_merging (e : Engine m) (context : Context) (s : τ) :
    (∀ name, (run (e.merging.render name context) ([], s)).map (fun p => (p.1, p.2.2)) =
      (run (e.render name context) ([], s)).map fun p => (p.1, p.2.2)) ∧
    ∀ name source,
      (outcome (e.merging.renderSource name source context) ([], s)).map (fun p => (p.1, p.2.2)) =
        (outcome (e.renderSource name source context) ([], s)).map fun p => (p.1, p.2.2) := by
  have hpairs : Pairs (τ := τ) (fun _ => False) MergedAlike Eq anyExpr e e.merging :=
    pairs_of_compile rfl rfl rfl rfl (compile_follows_merging e)
  have hpairs' : Pairs (τ := τ) (fun _ => False) MergedAlike Eq anyExpr e.merging e :=
    pairs_of_compile rfl rfl rfl rfl (merging_compile_follows e)
  have hstart : Keeping MergedAlike (Eq (α := τ)) ([], s) ([], s) := ⟨.nil, rfl⟩
  have hseen : ∀ s t : Cache × τ, Keeping MergedAlike Eq s t → s.2 = t.2 := fun _ _ h => h.2
  constructor
  · intro name
    exact (hpairs.render rfl name).outcome_eq (hpairs'.render rfl name) hstart hstart hseen
  · intro name source
    have hsource := hpairs.renderSource (Eq.refl context)
      (compile_follows_merging e name source)
    have hsource' := hpairs'.renderSource (Eq.refl context)
      (merging_compile_follows e name source)
    exact hsource.outcome_eq hsource' hstart hstart hseen

end Engine

end Stencil
