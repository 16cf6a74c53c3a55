import Stencil.Engine.Environment
import Stencil.Proofs.Run

/-!
# Steps without effects

A step without effects gives the same answer from every state and leaves the state alone; it may
also go on forever. What is composed of such steps has no effects either. Compiling a source asks
only the passes, so it has no effects if they have none, and neither has loading a template from a
store that never changes.

Results:
* `Effectless.pure`, `Effectless.map`, `Effectless.bind`, `Effectless.bindError`: such steps can be
  composed.
* `Pass.Quiet.onTree`: passes over trees.
* `Engine.compile_effectless`, `Engine.loadFresh_effectless`: compiling and loading.
-/

namespace Stencil

section Effectless

variable {n : Type → Type} [Monad n] {τ : Type} [Runs n τ] {ε α β : Type}

/-- A step without effects. It has no answer if it goes on forever. -/
def Effectless (x : n α) : Prop :=
  ∃ answer : Option α, ∀ s : τ, run x s = answer.map fun a => (a, s)

namespace Effectless

theorem pure (a : α) : Effectless (pure a : n α) := ⟨some a, fun s => run_pure a s⟩

theorem map {x : n α} (h : Effectless x) (f : α → β) : Effectless (f <$> x) := by
  obtain ⟨answer, hx⟩ := h
  refine ⟨answer.map f, fun s => ?_⟩
  rw [run_map, hx s, Option.map_map, Option.map_map]
  rfl

theorem bind {x : n α} {f : α → n β} (hx : Effectless x) (hf : ∀ a, Effectless (f a)) :
    Effectless (x >>= f) := by
  obtain ⟨answer, hx⟩ := hx
  cases answer with
  | none =>
    refine ⟨none, fun s => ?_⟩
    rw [run_bind, hx s]
    rfl
  | some a =>
    obtain ⟨answer, hfa⟩ := hf a
    refine ⟨answer, fun s => ?_⟩
    rw [run_bind, hx s]
    exact hfa s

/-- A step that may fail, and what is done if it does not. -/
theorem bindError {x : ExceptT ε n α} {f : α → ExceptT ε n β} (hx : Effectless x.run)
    (hf : ∀ a, Effectless (f a).run) : Effectless (x >>= f).run := by
  refine hx.bind fun r => ?_
  cases r with
  | ok a => exact hf a
  | error e => exact .pure _

/-- Without a state all steps are of this kind. -/
theorem of_id (x : Id α) : Effectless x := ⟨some x, fun _ => rfl⟩

end Effectless

end Effectless

/-! ## Passes -/

section Passes

variable {m : Type → Type} [Monad m] {τ : Type} [Runs m τ]

/-- A pass that looks at nodes and trees and changes them without effects. -/
structure Pass.Quiet (p : Pass m) : Prop where
  enterTree : ∀ tree, Effectless (p.enterTree tree)
  leaveTree : ∀ tree, Effectless (p.leaveTree tree)
  enterNode : ∀ node, Effectless (p.enterNode node)
  leaveNode : ∀ node, Effectless (p.leaveNode node)

namespace Pass

theorem visit_effectless {α : Type} {enter : α → m (Except MissingPart Unit)}
    {children : m (Changed α)} {leave : α → m (Except MissingPart α)}
    (henter : ∀ a, Effectless (enter a)) (hchildren : Effectless children)
    (hleave : ∀ a, Effectless (leave a)) (whole : α) :
    Effectless (visit enter children leave whole) := by
  refine (henter whole).bind fun entered => ?_
  cases entered with
  | error fault => exact .pure _
  | ok _ =>
    refine hchildren.bind fun changed => ?_
    obtain ⟨middle, fault⟩ := changed
    cases fault with
    | some fault => exact .pure _
    | none =>
      refine (hleave middle).bind fun left => ?_
      cases left <;> exact .pure _

theorem both_effectless {α β γ : Type} {first : m (Changed α)} {second : m (Changed β)}
    (hfirst : Effectless first) (hsecond : Effectless second) (stop : α → γ)
    (build : α → β → γ) : Effectless (both first stop second build) := by
  refine hfirst.bind fun changed => ?_
  obtain ⟨a, fault⟩ := changed
  cases fault with
  | some fault => exact .pure _
  | none => exact hsecond.bind fun _ => .pure _

namespace Quiet

variable {p : Pass m}

mutual

theorem onNode (h : p.Quiet) : ∀ node : Node, Effectless (p.onNode node)
  | .text .. => by
    simp only [Pass.onNode]
    exact visit_effectless h.enterNode (.pure _) h.leaveNode _
  | .print .. => by
    simp only [Pass.onNode]
    exact visit_effectless h.enterNode (.pure _) h.leaveNode _
  | .«include» .. => by
    simp only [Pass.onNode]
    exact visit_effectless h.enterNode (.pure _) h.leaveNode _
  | .block _ _ body => by
    simp only [Pass.onNode]
    exact visit_effectless h.enterNode ((onNodes h body).bind fun _ => .pure _) h.leaveNode _

theorem onNodes (h : p.Quiet) : ∀ nodes : List Node, Effectless (p.onNodes nodes)
  | [] => by
    rw [onNodes_nil]
    exact .pure _
  | node :: rest => by
    rw [onNodes_cons]
    exact both_effectless (onNode h node) (onNodes h rest) _ _

end

mutual

theorem onTree (h : p.Quiet) : ∀ tree : Tree, Effectless (p.onTree tree)
  | ⟨_, _, body, embedded, _⟩ => by
    simp only [Pass.onTree]
    refine visit_effectless h.enterTree ?_ h.leaveTree _
    exact both_effectless (onTrees h embedded) (h.onNodes body) _ _

theorem onTrees (h : p.Quiet) : ∀ trees : List Tree, Effectless (p.onTrees trees)
  | [] => by
    simp only [Pass.onTrees]
    exact .pure _
  | tree :: rest => by
    simp only [Pass.onTrees]
    exact both_effectless (onTree h tree) (onTrees h rest) _ _

end

end Quiet

/-- Without a state all passes are of this kind. -/
theorem Quiet.of_id (p : Pass Id) : p.Quiet where
  enterTree _ := .of_id _
  leaveTree _ := .of_id _
  enterNode _ := .of_id _
  leaveNode _ := .of_id _

/-- A pass that needs no monad has no effects in any. -/
theorem changing_quiet (priority : Int) (tree : Tree → Except MissingPart Tree)
    (node : Node → Except MissingPart Node) : (changing priority tree node : Pass m).Quiet where
  enterTree _ := .pure _
  leaveTree _ := .pure _
  enterNode _ := .pure _
  leaveNode _ := .pure _

end Pass

/-! ## Engines -/

namespace Engine

theorem runPasses_effectless {passes : List (Pass m)} (h : ∀ p ∈ passes, p.Quiet) (tree : Tree) :
    Effectless (runPasses passes tree).run := by
  induction passes generalizing tree with
  | nil => exact .pure _
  | cons p rest ih =>
    have hp : p.Quiet := h p List.mem_cons_self
    have hrest : ∀ q ∈ rest, q.Quiet := fun q hq => h q (List.mem_cons_of_mem p hq)
    refine Effectless.bindError ((hp.onTree tree).map Except.ok) fun changed => ?_
    obtain ⟨tree, fault⟩ := changed
    cases fault with
    | some fault => exact .pure _
    | none => exact ih hrest tree

variable {e : Engine m}

theorem compile_effectless (h : ∀ p ∈ e.passes, p.Quiet) (name source : String) :
    Effectless (e.compile name source).run := by
  unfold compile
  cases Tree.parse name source.toList with
  | error faults => exact .pure _
  | ok tree => exact Effectless.bindError ((runPasses_effectless h tree).map _) fun _ => .pure _

/-- Loading from a store that never changes. -/
theorem loadFresh_effectless {store : Loader Id} (hloader : e.loader = store.lift)
    (h : ∀ p ∈ e.passes, p.Quiet) (name : String) : Effectless (e.loadFresh name).run := by
  unfold loadFresh
  rw [hloader]
  exact Effectless.bindError (.map (.pure _) _) fun source => compile_effectless h name source

end Engine

end Passes

end Stencil
