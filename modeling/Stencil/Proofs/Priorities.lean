import Stencil.Proofs.Compiled
import Stencil.Proofs.Sessions

/-!
# The order of passes

Every new pass is put behind the passes that do not come later than it, which is where it stands
after it is pushed to their end and all of them are sorted again. What a series of registrations
leaves is the stable sort of all passes that were ever added, the built-in one first: they stand in
the order of their priorities, and among equals in the order in which they were added. Compiling runs
them over the tree of the source in that order.

The invariant is that the passes are in order; the passes of one priority are then those that were
added, in the order in which they were, whatever came in between.

Specification: `byPriority` for the sort, `Pass.through` for what one pass makes of a tree.

Results:
* `inOrder_unique`: passes in order are known by those of each priority.
* `insertPass_of_inOrder`: putting a pass among others is pushing it to their end and sorting.
* `foldl_insertPass`: adding passes one by one is sorting them once.
* `Environment.passes_registerAll`: registrations add the passes that they name.
* `Engine.outcome_runPasses_foldlM`: what the passes make of a tree.
* `Environment.compile_by_priority`: the list of passes of an environment and what it compiles.
-/

namespace Stencil

section Order

variable {m : Type → Type}

/-! ## Specification -/

/-- The passes of one priority, in their order. -/
def ofPriority (priority : Int) (passes : List (Pass m)) : List (Pass m) :=
  passes.filter (·.priority = priority)

/-- No pass stands behind one that comes later. -/
def InOrder (passes : List (Pass m)) : Prop :=
  passes.Pairwise fun p q => p.priority ≤ q.priority

/-- The stable sort of passes by their priorities. -/
def byPriority (passes : List (Pass m)) : List (Pass m) :=
  passes.mergeSort fun p q => p.priority ≤ q.priority

/-! ## Adding one pass -/

theorem inOrder_insertPass {passes : List (Pass m)} (h : InOrder passes) (pass : Pass m) :
    InOrder (insertPass pass passes) := by
  induction passes with
  | nil => exact List.pairwise_singleton _ pass
  | cons p rest ih =>
    obtain ⟨hp, hrest⟩ := List.pairwise_cons.1 h
    rw [insertPass]
    split
    · next hle =>
      refine List.pairwise_cons.2 ⟨fun q hq => ?_, ih hrest⟩
      obtain rfl | hq := (mem_insertPass q pass rest).1 hq
      · exact hle
      · exact hp q hq
    · next hlater =>
      have hlt : pass.priority ≤ p.priority := Int.le_of_lt (Int.not_le.1 hlater)
      refine List.pairwise_cons.2 ⟨fun q hq => ?_, h⟩
      obtain rfl | hq := List.mem_cons.1 hq
      · exact hlt
      · exact Int.le_trans hlt (hp q hq)

/-- A new pass is the last of its priority. -/
theorem ofPriority_insertPass {passes : List (Pass m)} (h : InOrder passes) (pass : Pass m)
    (priority : Int) :
    ofPriority priority (insertPass pass passes) = ofPriority priority (passes ++ [pass]) := by
  induction passes with
  | nil => rfl
  | cons p rest ih =>
    obtain ⟨hp, hrest⟩ := List.pairwise_cons.1 h
    rw [insertPass]
    split
    · rw [ofPriority, ofPriority, List.cons_append, List.filter_cons, List.filter_cons]
      rw [ofPriority, ofPriority] at ih
      rw [ih hrest]
    · next hlater =>
      -- None of the passes from here on has the priority of the new one.
      have hlt : pass.priority < p.priority := Int.not_le.1 hlater
      have hnone : ofPriority pass.priority (p :: rest) = [] := by
        refine List.filter_eq_nil_iff.2 fun q hq => ?_
        have hq : p.priority ≤ q.priority := by
          obtain rfl | hq := List.mem_cons.1 hq
          · exact Int.le_refl _
          · exact hp q hq
        simp only [decide_eq_true_eq]
        omega
      rw [ofPriority, ofPriority, List.filter_cons, List.filter_append, List.filter_singleton]
      by_cases hpriority : pass.priority = priority
      · subst hpriority
        rw [ofPriority] at hnone
        simp [hnone]
      · simp [hpriority]

/-! ## Adding passes one by one -/

/-- Passes in order are known by those of each priority. -/
theorem inOrder_unique {passes passes' : List (Pass m)} (h : InOrder passes) (h' : InOrder passes')
    (hof : ∀ priority, ofPriority priority passes = ofPriority priority passes') :
    passes = passes' := by
  have hmem : ∀ p, p ∈ passes ↔ p ∈ passes' := by
    intro p
    have hp : p ∈ ofPriority p.priority passes ↔ p ∈ ofPriority p.priority passes' := by rw [hof]
    simpa [ofPriority] using hp
  induction passes generalizing passes' with
  | nil =>
    cases passes' with
    | nil => rfl
    | cons q rest' => exact absurd ((hmem q).2 List.mem_cons_self) List.not_mem_nil
  | cons p rest ih =>
    cases passes' with
    | nil => exact absurd ((hmem p).1 List.mem_cons_self) List.not_mem_nil
    | cons q rest' =>
      obtain ⟨hp, hrest⟩ := List.pairwise_cons.1 h
      obtain ⟨hq, hrest'⟩ := List.pairwise_cons.1 h'
      -- Each of the first passes stands somewhere in the other list, so they have one priority.
      have hpq : p.priority ≤ q.priority := by
        obtain rfl | hmem := List.mem_cons.1 ((hmem q).2 List.mem_cons_self)
        · exact Int.le_refl _
        · exact hp q hmem
      have hqp : q.priority ≤ p.priority := by
        obtain rfl | hmem := List.mem_cons.1 ((hmem p).1 List.mem_cons_self)
        · exact Int.le_refl _
        · exact hq p hmem
      have hpriority : q.priority = p.priority := Int.le_antisymm hqp hpq
      have hfirst := hof p.priority
      simp only [ofPriority, List.filter_cons, hpriority, decide_true, if_true] at hfirst
      obtain ⟨rfl, -⟩ := List.cons.inj hfirst
      have hrestPriority : ∀ priority, ofPriority priority rest = ofPriority priority rest' := by
        intro priority
        have hpriority := hof priority
        rw [ofPriority, ofPriority, List.filter_cons, List.filter_cons] at hpriority
        split at hpriority
        · exact (List.cons.inj hpriority).2
        · exact hpriority
      refine congrArg (p :: ·) (ih hrest hrest' hrestPriority fun r => ?_)
      have hr : r ∈ ofPriority r.priority rest ↔ r ∈ ofPriority r.priority rest' := by
        rw [hrestPriority]
      simpa [ofPriority] using hr

theorem inOrder_byPriority (passes : List (Pass m)) : InOrder (byPriority passes) := by
  have hsorted : (byPriority passes).Pairwise
      fun p q => decide (p.priority ≤ q.priority) = true :=
    List.pairwise_mergeSort (fun p q r hpq hqr => by simp only [decide_eq_true_eq] at *; omega)
      (fun p q => by simp only [Bool.or_eq_true, decide_eq_true_eq]; omega) passes
  exact hsorted.imp of_decide_eq_true

/-- Sorting is stable. -/
theorem ofPriority_byPriority (passes : List (Pass m)) (priority : Int) :
    ofPriority priority (byPriority passes) = ofPriority priority passes := by
  have hsame : (ofPriority priority passes).Pairwise
      fun p q => decide (p.priority ≤ q.priority) = true := by
    refine List.pairwise_of_forall_mem_list fun p hp q hq => ?_
    simp only [ofPriority, List.mem_filter, decide_eq_true_eq] at hp hq ⊢
    omega
  have hsub : (ofPriority priority passes).Sublist (byPriority passes) :=
    List.sublist_mergeSort (fun p q r hpq hqr => by simp only [decide_eq_true_eq] at *; omega)
      (fun p q => by simp only [Bool.or_eq_true, decide_eq_true_eq]; omega) hsame
      List.filter_sublist
  have hfilter := hsub.filter (·.priority = priority)
  have hlength :
      (ofPriority priority (byPriority passes)).length = (ofPriority priority passes).length :=
    ((List.mergeSort_perm passes _).filter _).length_eq
  rw [ofPriority, List.filter_filter] at hfilter
  simp only [Bool.and_self] at hfilter
  exact (hfilter.eq_of_length hlength.symm).symm

/-- Among passes in order, a new pass goes to where it stands when it is pushed to their end and all
    of them are sorted. -/
theorem insertPass_of_inOrder {passes : List (Pass m)} (h : InOrder passes) (pass : Pass m) :
    insertPass pass passes = byPriority (passes ++ [pass]) := by
  refine inOrder_unique (inOrder_insertPass h pass) (inOrder_byPriority _) fun priority => ?_
  rw [ofPriority_insertPass h, ofPriority_byPriority]

/-- Sorting once more with other passes at the end is sorting all of them once. -/
theorem byPriority_append (front added : List (Pass m)) :
    byPriority (byPriority front ++ added) = byPriority (front ++ added) := by
  refine inOrder_unique (inOrder_byPriority _) (inOrder_byPriority _) fun priority => ?_
  calc ofPriority priority (byPriority (byPriority front ++ added))
    _ = ofPriority priority (byPriority front ++ added) := ofPriority_byPriority _ priority
    _ = ofPriority priority (byPriority front) ++ ofPriority priority added :=
      List.filter_append ..
    _ = ofPriority priority front ++ ofPriority priority added := by rw [ofPriority_byPriority]
    _ = ofPriority priority (front ++ added) := (List.filter_append ..).symm
    _ = ofPriority priority (byPriority (front ++ added)) :=
      (ofPriority_byPriority _ priority).symm

/-- A new pass among sorted ones. -/
theorem insertPass_byPriority (added : List (Pass m)) (pass : Pass m) :
    insertPass pass (byPriority added) = byPriority (added ++ [pass]) := by
  rw [insertPass_of_inOrder (inOrder_byPriority added), byPriority_append]

/-- Adding passes one by one is sorting them once. -/
theorem foldl_insertPass (front added : List (Pass m)) :
    added.foldl (fun passes pass => insertPass pass passes) (byPriority front) =
      byPriority (front ++ added) := by
  induction added generalizing front with
  | nil => rw [List.append_nil]; rfl
  | cons pass rest ih =>
    rw [List.foldl_cons, insertPass_byPriority, ih, List.append_assoc]
    rfl

end Order

/-! ## Registrations -/

namespace Environment

variable {m : Type → Type}

theorem passes_addFunctions (env : Environment m) (extension : Extension m) :
    (env.addFunctions extension).engine.passes = env.engine.passes := by
  unfold addFunctions
  generalize extension.functions = functions
  induction functions generalizing env with
  | nil => rfl
  | cons f rest ih => exact ih (env.addFunction f.1 f.2)

theorem passes_addPasses (env : Environment m) (extension : Extension m) :
    (env.addPasses extension).engine.passes =
      extension.passes.foldl (fun passes pass => insertPass pass passes) env.engine.passes := by
  unfold addPasses
  generalize extension.passes = passes
  induction passes generalizing env with
  | nil => rfl
  | cons p rest ih => exact ih (env.addPass p)

/-- A registration adds the passes that it names. -/
theorem passes_register (env : Environment m) (registration : Registration m) :
    (env.register registration).engine.passes =
      registration.passes.foldl (fun passes pass => insertPass pass passes) env.engine.passes := by
  cases registration with
  | configure => rfl
  | addFunction => rfl
  | addPass => rfl
  | addFunctions extension => exact passes_addFunctions env extension
  | addPasses extension => exact passes_addPasses env extension
  | install extension =>
    have hpasses := passes_addPasses (env.addFunctions extension) extension
    rwa [passes_addFunctions] at hpasses

theorem passes_registerAll (env : Environment m) (registrations : List (Registration m)) :
    (env.registerAll registrations).engine.passes =
      (registrations.flatMap Registration.passes).foldl
        (fun passes pass => insertPass pass passes) env.engine.passes := by
  unfold registerAll
  induction registrations generalizing env with
  | nil => rfl
  | cons registration rest ih =>
    rw [List.foldl_cons, ih, List.flatMap_cons, List.foldl_append, passes_register]

end Environment

/-! ## Compiling -/

section Compiling

variable {m : Type → Type} [Monad m] {τ : Type} [Runs m τ]

/-- What a pass makes of a tree, unless it refuses it. -/
def Pass.through (p : Pass m) (tree : Tree) : ExceptT MissingPart m Tree := do
  match ← ExceptT.lift (p.onTree tree) with
  | (_, some fault) => throw fault
  | (changed, none) => pure changed

namespace Engine

/-- Passes run over a tree one after the other. -/
theorem outcome_runPasses_foldlM (passes : List (Pass m)) (tree : Tree) :
    outcome (τ := τ) (runPasses passes tree) =
      outcome (passes.foldlM (fun tree pass => pass.through tree) tree) := by
  induction passes generalizing tree with
  | nil => rfl
  | cons p rest ih =>
    calc outcome (runPasses (p :: rest) tree)
      _ = outcome (runPasses [p] tree >>= runPasses rest) := outcome_runPasses_append [p] rest tree
      _ = outcome (p.through tree >>= fun tree =>
            rest.foldlM (fun tree pass => pass.through tree) tree) := outcome_bind_congr _ ih
      _ = outcome ((p :: rest).foldlM (fun tree pass => pass.through tree) tree) := rfl

end Engine

namespace Environment

/-- After any registrations in a new environment, its passes are the stable sort by priority of the
    built-in pass and all passes that were added, in the order in which they were. None is lost or
    there twice. Compiling a source that is a template sends its tree through one pass after the
    other in that order, until one refuses it. -/
theorem compile_by_priority (loader : Loader m) (registrations : List (Registration m)) :
    let added := textMerge :: registrations.flatMap Registration.passes
    let env := (ofLoader loader).registerAll registrations
    env.engine.passes = byPriority added ∧ env.engine.passes.Perm added ∧
      InOrder env.engine.passes ∧
      (∀ priority, ofPriority priority env.engine.passes = ofPriority priority added) ∧
      ∀ name source (s : τ), run (env.compile name source) s =
        match Tree.parse name source.toList with
        | .error faults => some (.error (.invalidSource name source faults), s)
        | .ok tree =>
          (outcome ((byPriority added).foldlM (fun tree pass => pass.through tree) tree) s).map
            fun p => ((Except.mapError (.invalidTree name) p.1).map (Template.mk name), p.2) := by
  intro added env
  have hnew : (ofLoader loader).engine.passes = byPriority [textMerge] :=
    (List.mergeSort_singleton textMerge).symm
  have hpasses : env.engine.passes = byPriority added := by
    rw [passes_registerAll, hnew, foldl_insertPass]
    rfl
  have hperm : (byPriority added).Perm added := List.mergeSort_perm added _
  rw [hpasses]
  refine ⟨rfl, hperm, inOrder_byPriority added, ofPriority_byPriority added, ?_⟩
  intro name source s
  have hcompile : run (env.compile name source) s =
      outcome (env.engine.compile name source) s := rfl
  rw [hcompile, Engine.outcome_compile, hpasses]
  cases Tree.parse name source.toList with
  | error faults => rfl
  | ok tree =>
    dsimp only
    rw [Engine.outcome_runPasses_foldlM]

end Environment

end Compiling

end Stencil
