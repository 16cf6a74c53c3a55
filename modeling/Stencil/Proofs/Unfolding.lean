import Stencil.Proofs.Definitions
import Stencil.Proofs.Texts

/-!
# Unfolded bodies

Under a choice of definitions, a body unfolds into a list of pieces: texts, prints and includes in
the order of their output, each with the tree its embeds refer to. A block with a chosen definition
stands for the pieces of the definition, any other block for the pieces of its own body.

Results:
* `Unfolds.unique`: a body unfolds in at most one way.
* `exists_unfolds`: under ranked definitions every body unfolds.
* `Access.outcome_renderBody_of_unfolds`, `Access.outcome_renderTree_of_root`: rendering a body is
  rendering the pieces one after the other, and the bound is never reached.
-/

namespace Stencil

/-- A node without a body of its own, with the tree its embeds refer to. -/
structure Piece where
  owner : Tree
  node : Node
deriving Repr, Inhabited

/-- The pieces of a body with the given owner under a choice of definitions. -/
inductive Unfolds (choose : String → Option Definition) : Tree → List Node → List Piece → Prop
  | nil {owner : Tree} : Unfolds choose owner [] []
  | leaf {owner : Tree} {node : Node} {rest : List Node} {pieces : List Piece} :
      node.IsLeaf → Unfolds choose owner rest pieces →
      Unfolds choose owner (node :: rest) (⟨owner, node⟩ :: pieces)
  | own {owner : Tree} {span : Span} {name : String} {body rest : List Node}
      {front back : List Piece} : choose name = none → Unfolds choose owner body front →
      Unfolds choose owner rest back →
      Unfolds choose owner (.block span name body :: rest) (front ++ back)
  | defined {owner : Tree} {span : Span} {name : String} {body rest : List Node} {d : Definition}
      {front back : List Piece} : choose name = some d → Unfolds choose d.owner d.body front →
      Unfolds choose owner rest back →
      Unfolds choose owner (.block span name body :: rest) (front ++ back)

theorem Unfolds.unique {choose : String → Option Definition} {owner : Tree} {body : List Node}
    {pieces pieces' : List Piece} (h : Unfolds choose owner body pieces)
    (h' : Unfolds choose owner body pieces') : pieces = pieces' := by
  induction h generalizing pieces' with
  | nil => cases h'; rfl
  | leaf hleaf _ ih =>
    cases h' with
    | leaf _ hrest => rw [ih hrest]
    | own => exact hleaf.elim
    | defined => exact hleaf.elim
  | own hnone _ _ ihBody ihRest =>
    cases h' with
    | leaf hleaf _ => exact hleaf.elim
    | own _ hbody hrest => rw [ihBody hbody, ihRest hrest]
    | defined hsome _ _ => simp [hnone] at hsome
  | defined hsome _ _ ihBody ihRest =>
    cases h' with
    | leaf hleaf _ => exact hleaf.elim
    | own hnone _ _ => simp [hsome] at hnone
    | defined hsome' hbody hrest =>
      cases hsome.symm.trans hsome'
      rw [ihBody hbody, ihRest hrest]

/-- All definitions that a body leads to have ranks below a bound. -/
def RankedBelow (defined : Definitions) (rank : String → Nat) (bound : Nat) (body : List Node) :
    Prop :=
  ∀ name ∈ Node.blockNames body, ∀ d, Dict.get? defined name = some d → rank name < bound

section RankedBelow

variable {defined : Definitions} {rank : String → Nat} {bound : Nat}

theorem RankedBelow.rest_of_leaf {node : Node} {rest : List Node} (hleaf : node.IsLeaf)
    (h : RankedBelow defined rank bound (node :: rest)) : RankedBelow defined rank bound rest := by
  intro name hname
  exact h name (by rwa [Node.blockNames_leaf hleaf])

theorem RankedBelow.body {span : Span} {name : String} {body rest : List Node}
    (h : RankedBelow defined rank bound (.block span name body :: rest)) :
    RankedBelow defined rank bound body := by
  intro inner hinner
  exact h inner (by simp [hinner])

theorem RankedBelow.rest {span : Span} {name : String} {body rest : List Node}
    (h : RankedBelow defined rank bound (.block span name body :: rest)) :
    RankedBelow defined rank bound rest := by
  intro inner hinner
  exact h inner (by simp [hinner])

theorem RankedBelow.rank_lt {span : Span} {name : String} {body rest : List Node} {d : Definition}
    (h : RankedBelow defined rank bound (.block span name body :: rest))
    (hd : Dict.get? defined name = some d) : rank name < bound :=
  h name (by simp) d hd

theorem RankedBelow.mono {bound' : Nat} {body : List Node} (hle : bound ≤ bound')
    (h : RankedBelow defined rank bound body) : RankedBelow defined rank bound' body :=
  fun name hname d hd => Nat.lt_of_lt_of_le (h name hname d hd) hle

/-- What a definition leads to has smaller ranks than the definition itself. -/
theorem Ranked.below {name : String} {d : Definition} (h : Ranked defined rank)
    (hd : Dict.get? defined name = some d) : RankedBelow defined rank (rank name) d.body :=
  fun inner hinner _ _ => (h name d hd inner hinner).2

end RankedBelow

/-- Under ranked definitions every body unfolds. -/
theorem exists_unfolds {defined : Definitions} {rank : String → Nat} (hr : Ranked defined rank)
    {bound : Nat} (owner : Tree) {body : List Node} (hb : RankedBelow defined rank bound body) :
    ∃ pieces, Unfolds (Dict.get? defined) owner body pieces := by
  -- The bound falls with every definition, the body shrinks with every other step.
  induction bound using Nat.strongRecOn generalizing owner body with
  | _ bound ihBound =>
    induction body using Node.body_induction with
    | nil => exact ⟨[], .nil⟩
    | leaf node rest hleaf ih =>
      obtain ⟨pieces, h⟩ := ih (hb.rest_of_leaf hleaf)
      exact ⟨_, .leaf hleaf h⟩
    | block span name body rest ihBody ihRest =>
      obtain ⟨back, hback⟩ := ihRest hb.rest
      cases hname : Dict.get? defined name with
      | none =>
        obtain ⟨front, hfront⟩ := ihBody hb.body
        exact ⟨_, .own hname hfront hback⟩
      | some d =>
        obtain ⟨front, hfront⟩ := ihBound _ (hb.rank_lt hname) d.owner (hr.below hname)
        exact ⟨_, .defined hname hfront hback⟩

/-! ## Rendering pieces -/

namespace Access

variable {n : Type → Type} [Monad n]

/-- The text of a node without a body of its own. -/
def renderLeaf (a : Access n) (render : Insertion → Rendering n String) (context : Context)
    (owner : Tree) : Node → Rendering n String
  | .text _ content => pure content
  | .print _ expr => a.print context expr
  | .«include» _ target clauses => a.insert render context owner target clauses
  | .block .. => pure ""

/-- The texts of pieces, one after the other. -/
def renderPieces (a : Access n) (render : Insertion → Rendering n String) (context : Context) :
    List Piece → Rendering n String
  | [] => pure ""
  | piece :: rest =>
    join (a.renderLeaf render context piece.owner piece.node) (a.renderPieces render context rest)

theorem renderNode_leaf (a : Access n) (render : Insertion → Rendering n String)
    (context : Context) (defined : Definitions) (bound : Nat) (owner : Tree) {node : Node}
    (h : node.IsLeaf) : a.renderNode render context defined bound owner node =
      a.renderLeaf render context owner node := by
  cases node with
  | text => exact renderNode_text ..
  | print => exact renderNode_print ..
  | «include» => exact renderNode_include ..
  | block => exact h.elim

variable {τ : Type} [Runs n τ] (a : Access n) (render : Insertion → Rendering n String)
  (context : Context)

theorem outcome_renderPieces_append (front back : List Piece) :
    outcome (τ := τ) (a.renderPieces render context (front ++ back)) =
      outcome (join (a.renderPieces render context front)
        (a.renderPieces render context back)) := by
  induction front with
  | nil => exact (outcome_join_empty _).symm
  | cons piece rest ih =>
    rw [List.cons_append, renderPieces, renderPieces, outcome_join_assoc]
    exact outcome_join_congr rfl ih

/-- Rendering a body is rendering its pieces one after the other. -/
theorem outcome_renderBody_of_unfolds {defined : Definitions} {owner : Tree}
    {body : List Node} {pieces : List Piece} (h : Unfolds (Dict.get? defined) owner body pieces)
    {rank : String → Nat} (hr : Ranked defined rank) {bound : Nat}
    (hb : RankedBelow defined rank bound body) :
    outcome (τ := τ) (a.renderBody render context defined bound owner body) =
      outcome (a.renderPieces render context pieces) := by
  induction h generalizing bound with
  | nil => rw [renderBody_nil]; rfl
  | leaf hleaf _ ih =>
    rw [renderBody_cons, renderNode_leaf _ _ _ _ _ _ hleaf]
    exact outcome_join_congr rfl (ih (hb.rest_of_leaf hleaf))
  | own hnone _ _ ihBody ihRest =>
    rw [renderBody_cons, renderNode_own _ _ _ _ _ _ hnone, outcome_renderPieces_append]
    exact outcome_join_congr (ihBody hb.body) (ihRest hb.rest)
  | defined hsome _ _ ihBody ihRest =>
    rw [renderBody_cons, renderNode_defined _ _ _ _ _ _ hsome, outcome_renderPieces_append]
    have hlt := hb.rank_lt hsome
    obtain ⟨bound, rfl⟩ : ∃ b, bound = b + 1 := ⟨bound - 1, by omega⟩
    exact outcome_join_congr (ihBody ((hr.below hsome).mono (by omega))) (ihRest hb.rest)

/-- A tree without a parent renders the pieces of its body, whatever the patience. -/
theorem outcome_renderTree_of_root {defined : Definitions} {rank : String → Nat}
    (hr : Ranked defined rank) {tree : Tree} (h : tree.parent = none) (owner : Tree)
    (patience depth : Nat) :
    ∃ pieces, Unfolds (Dict.get? defined) owner tree.body pieces ∧
      outcome (τ := τ) (a.renderTree patience (depth + 1) defined tree owner context) =
        outcome (a.renderPieces
          (fun i => a.renderTree patience depth [] i.tree i.owner i.context) context pieces) := by
  obtain ⟨rank, hr, hbelow⟩ := hr.bounded
  have hbody : RankedBelow defined rank (defined.length + patience) tree.body :=
    fun name _ d hd => Nat.lt_add_right _ (hbelow name d hd)
  obtain ⟨pieces, hpieces⟩ := exists_unfolds hr owner hbody
  refine ⟨pieces, hpieces, ?_⟩
  rw [renderTree_root _ _ _ _ h, outcome_renderBody_of_unfolds _ _ _ hpieces hr hbody]

end Access

end Stencil
