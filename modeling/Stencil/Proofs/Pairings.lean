import Stencil.Proofs.Direct
import Stencil.Proofs.Engines
import Stencil.Proofs.Routed

/-!
# Renderings of trees that belong together

Two bodies belong together if they have the same tags, nested in blocks of the same names, and the
same text between the tags; how that text is divided into pieces does not matter. Bodies of this
kind are rendered alike, by accesses that print and find alike, in contexts that belong together.
The depth limits need not be the same: it is enough that the second one reaches at least as far,
where a failure of the first one to go deeper is excused.

Results:
* `Access.outcome_renderBody_mergeText`: merging the texts of a body does not change its text.
* `Access.Pairs.renderBody`, `Access.Pairs.renderTree`, `Access.Pairs.render`: rendering trees that
  belong together.
* `Host.pairs`: the accesses of two hosts.
* `Engine.pairs`, `Engine.Pairs.render`, `Engine.Pairs.renderTemplate`,
  `Engine.Pairs.renderSource`: engines.
-/

namespace Stencil

open Node

/-! ## Bodies -/

/-- Merging texts keeps all blocks. -/
theorem Node.blocksIn_mergeText (nodes : List Node) :
    blocksIn (mergeText nodes) = blocksIn nodes := by
  induction nodes with
  | nil => rfl
  | cons node rest ih =>
    by_cases htext : ∃ span content, node = .text span content
    · obtain ⟨span, content, rfl⟩ := htext
      rw [blocksIn_leaf (text_isLeaf ..), mergeText]
      split
      · exact ih
      · split
        · next next more others h =>
          rw [h, blocksIn_leaf (text_isLeaf ..)] at ih
          rw [blocksIn_leaf (text_isLeaf ..), ih]
        · rw [blocksIn_leaf (text_isLeaf ..), ih]
    · rw [mergeText_of_ne_text fun span content h => htext ⟨span, content, h⟩, blocksIn, blocksIn,
        ih]

/-- Two bodies with the same tags, all of whose expressions are allowed, and the same text between
    them. -/
inductive Node.Paired (allowed : Expr → Prop) : List Node → List Node → Prop
  | nil : Node.Paired allowed [] []
  | leaf {node : Node} {rest rest' : List Node} : node.IsLeaf → (∀ e ∈ node.exprs, allowed e) →
      Node.Paired allowed rest rest' → Node.Paired allowed (node :: rest) (node :: rest')
  | block {span : Span} {name : String} {body body' rest rest' : List Node} :
      Node.Paired allowed body body' → Node.Paired allowed rest rest' →
      Node.Paired allowed (.block span name body :: rest) (.block span name body' :: rest')
  | mergedLeft {nodes nodes' : List Node} : Node.Paired allowed nodes nodes' →
      Node.Paired allowed (mergeText nodes) nodes'
  | mergedRight {nodes nodes' : List Node} : Node.Paired allowed nodes nodes' →
      Node.Paired allowed nodes (mergeText nodes')

variable {allowed : Expr → Prop}

namespace Node.Paired

/-- A body with allowed expressions belongs to itself. -/
theorem refl {nodes : List Node} (h : ∀ e ∈ (tagsIn nodes).flatMap Node.exprs, allowed e) :
    Node.Paired allowed nodes nodes := by
  induction nodes using body_induction with
  | nil => exact .nil
  | leaf node rest hleaf ih =>
    rw [tagsIn, List.flatMap_append] at h
    refine .leaf hleaf (fun e he => h e (List.mem_append_left _ ?_))
      (ih fun e he => h e (List.mem_append_right _ he))
    cases node with
    | text span content => cases he
    | block => exact hleaf.elim
    | print span expr => simpa [tags] using he
    | «include» span target clauses => simpa [tags_include] using he
  | block span name body rest ihBody ihRest =>
    rw [tagsIn, List.flatMap_append, tags] at h
    exact .block (ihBody fun e he => h e (List.mem_append_left _ he))
      (ihRest fun e he => h e (List.mem_append_right _ he))

theorem symm {nodes nodes' : List Node} (h : Node.Paired allowed nodes nodes') :
    Node.Paired allowed nodes' nodes := by
  induction h with
  | nil => exact .nil
  | leaf hleaf hexprs _ ih => exact .leaf hleaf hexprs ih
  | block _ _ ihBody ih => exact .block ihBody ih
  | mergedLeft _ ih => exact .mergedRight ih
  | mergedRight _ ih => exact .mergedLeft ih

/-- The blocks in bodies that belong together. -/
theorem blocks {nodes nodes' : List Node} (h : Node.Paired allowed nodes nodes') :
    List.Forall₂ (fun b b' => b.name = b'.name ∧ Node.Paired allowed b.body b'.body)
      (blocksIn nodes) (blocksIn nodes') := by
  induction h with
  | nil =>
    rw [blocksIn_nil]
    exact .nil
  | leaf hleaf _ _ ih =>
    rw [blocksIn_leaf hleaf, blocksIn_leaf hleaf]
    exact ih
  | block hbody _ ihBody ih =>
    rw [blocksIn_block, blocksIn_block]
    exact .cons ⟨rfl, hbody⟩ (List.rel_append ihBody ih)
  | mergedLeft _ ih =>
    rw [blocksIn_mergeText]
    exact ih
  | mergedRight _ ih =>
    rw [blocksIn_mergeText]
    exact ih

end Node.Paired

/-! ## Trees -/

/-- Two trees with the same parent, which is allowed, and bodies that belong together. -/
structure Tree.Paired (allowed : Expr → Prop) (tree tree' : Tree) : Prop where
  name : tree.name = tree'.name
  parent : tree.parent = tree'.parent
  parent_allowed : ∀ e, tree.parent = some e → allowed e
  body : Node.Paired allowed tree.body tree'.body

/-- Two trees of this kind, with embedded trees of this kind. -/
structure Tree.AllPaired (allowed : Expr → Prop) (tree tree' : Tree) : Prop where
  self : tree.Paired allowed tree'
  embedded : List.Forall₂ (Tree.Paired allowed) tree.embedded tree'.embedded

namespace Tree

variable {tree tree' : Tree}

theorem Paired.symm (h : tree.Paired allowed tree') : tree'.Paired allowed tree where
  name := h.name.symm
  parent := h.parent.symm
  parent_allowed e he := h.parent_allowed e (h.parent.trans he)
  body := h.body.symm

theorem AllPaired.symm (h : tree.AllPaired allowed tree') : tree'.AllPaired allowed tree where
  self := h.self.symm
  embedded := (List.Forall₂.imp (fun _ _ => Paired.symm) h.embedded).flip

theorem Paired.refl (h : ∀ e ∈ tree.exprs, allowed e) : tree.Paired allowed tree where
  name := rfl
  parent := rfl
  parent_allowed e he := h e (List.mem_append_left _ (by simp [he]))
  body := .refl fun e he => h e (List.mem_append_right _ he)

/-- A tree with allowed expressions belongs to itself. -/
theorem AllPaired.refl (h : ∀ part ∈ tree :: tree.embedded, ∀ e ∈ part.exprs, allowed e) :
    tree.AllPaired allowed tree where
  self := .refl (h tree List.mem_cons_self)
  embedded := List.forall₂_same.2 fun inner hinner =>
    .refl (h inner (List.mem_cons_of_mem _ hinner))

end Tree

/-- Two definitions of this kind. -/
structure Definition.Paired (allowed : Expr → Prop) (d d' : Definition) : Prop where
  body : Node.Paired allowed d.body d'.body
  owner : d.owner.AllPaired allowed d'.owner

/-- Adding the definitions of trees that belong together. -/
theorem Definition.Paired.add {defined defined' : Definitions}
    (hdefined : Dict.Related (Definition.Paired allowed) defined defined') {owner owner' : Tree}
    (howner : owner.AllPaired allowed owner') {tree tree' : Tree}
    (htree : tree.Paired allowed tree') :
    Dict.Related (Definition.Paired allowed) (addDefinitions defined owner tree.blocks)
      (addDefinitions defined' owner' tree'.blocks) :=
  hdefined.foldl_insertNew
    (htree.body.blocks.imp fun _ _ hb => ⟨hb.1, hb.2, howner⟩)

/-- Two insertions of trees that belong together, in contexts that do. -/
structure Insertion.Paired (C : Context → Context → Prop) (allowed : Expr → Prop)
    (i i' : Insertion) : Prop where
  tree : i.tree.Paired allowed i'.tree
  owner : i.owner.AllPaired allowed i'.owner
  context : C i.context i'.context

theorem Tree.AllPaired.insertion {C : Context → Context → Prop} {tree tree' : Tree}
    (h : tree.AllPaired allowed tree') {context context' : Context}
    (hcontext : C context context') :
    Insertion.Paired C allowed ⟨tree, tree, context⟩ ⟨tree', tree', context'⟩ :=
  ⟨h.self, h, hcontext⟩

/-! ## Rendering -/

namespace Access

/-- Merging the texts of a body does not change its text. -/
theorem outcome_renderBody_mergeText {n : Type → Type} [Monad n] {τ : Type} [Runs n τ]
    (a : Access n) (render : Insertion → Rendering n String) (context : Context)
    (defined : Definitions) (bound : Nat) (owner : Tree) (nodes : List Node) :
    outcome (τ := τ) (a.renderBody render context defined bound owner (mergeText nodes)) =
      outcome (a.renderBody render context defined bound owner nodes) := by
  induction nodes with
  | nil => rfl
  | cons node rest ih =>
    have hcons : ∀ node nodes, a.renderBody render context defined bound owner (node :: nodes) =
        join (a.renderNode render context defined bound owner node)
          (a.renderBody render context defined bound owner nodes) := fun _ _ => renderBody_cons ..
    by_cases htext : ∃ span content, node = .text span content
    · obtain ⟨span, content, rfl⟩ := htext
      rw [hcons, renderNode_text, mergeText]
      split
      · next hempty =>
        rw [String.isEmpty_iff.1 hempty, outcome_join_empty, ih]
      · split
        · next next more others hmerged =>
          rw [hmerged, hcons, renderNode_text] at ih
          have htexts : outcome (τ := τ) (pure (content ++ more) : Rendering n String) =
              outcome (join (pure content : Rendering n String) (pure more)) := by
            funext s
            simp only [outcome_join, outcome_pure, Option.bind_some, Option.map_some, Except.map]
          rw [hcons, renderNode_text, outcome_join_congr htexts rfl, outcome_join_assoc]
          exact outcome_join_congr rfl ih
        · rw [hcons, renderNode_text]
          exact outcome_join_congr rfl ih
    · rw [mergeText_of_ne_text fun span content h => htext ⟨span, content, h⟩, hcons, hcons]
      exact outcome_join_congr rfl ih

variable {n₁ n₂ : Type → Type} [Monad n₁] [Monad n₂] {τ₁ τ₂ : Type} [Runs n₁ τ₁] [Runs n₂ τ₂]
  {excuse : Failure → Prop} {S : τ₁ → τ₂ → Prop} {C : Context → Context → Prop} {a₁ : Access n₁}
  {a₂ : Access n₂}

/-- In contexts that belong together, the second access prints the same texts as the first one and
    finds trees that belong to those that the first one finds. -/
structure Pairs (excuse : Failure → Prop) (S : τ₁ → τ₂ → Prop) (C : Context → Context → Prop)
    (allowed : Expr → Prop) (a₁ : Access n₁) (a₂ : Access n₂) : Prop where
  print : ∀ {context context'}, C context context' → ∀ {e}, allowed e →
    Follows excuse S Eq (a₁.print context e) (a₂.print context' e)
  parent : ∀ {context context'}, C context context' → ∀ {e}, allowed e →
    Follows excuse S (Tree.AllPaired allowed) (a₁.parent context e) (a₂.parent context' e)
  insertion? : ∀ {context context'}, C context context' →
    ∀ {owner owner' : Tree}, owner.AllPaired allowed owner' → ∀ {span target clauses},
    (∀ e ∈ Node.exprs (.«include» span target clauses), allowed e) →
    Follows excuse S (Option.Rel (Insertion.Paired C allowed))
      (a₁.insertion? context owner target clauses) (a₂.insertion? context' owner' target clauses)

/-- The second depth below a limit reaches at least as far as the first one: the two are the same,
    or it does not matter if the first one is exceeded. -/
def Reaches (excuse : Failure → Prop) (limit depth limit' depth' : Nat) : Prop :=
  (limit = limit' ∧ depth = depth') ∨ (depth ≤ depth' ∧ ∀ limit name, excuse (.tooDeep limit name))

namespace Pairs

variable {render₁ : Insertion → Rendering n₁ String} {render₂ : Insertion → Rendering n₂ String}
  {context context' : Context}

theorem insert (h : Pairs excuse S C allowed a₁ a₂)
    (hrender : ∀ i i', Insertion.Paired C allowed i i' →
      Follows excuse S Eq (render₁ i) (render₂ i'))
    (hcontext : C context context') {owner owner' : Tree} (howner : owner.AllPaired allowed owner')
    {span : Span} {target : Target} {clauses : Clauses}
    (hexprs : ∀ e ∈ Node.exprs (.«include» span target clauses), allowed e) :
    Follows excuse S Eq (a₁.insert render₁ context owner target clauses)
      (a₂.insert render₂ context' owner' target clauses) := by
  refine (h.insertion? hcontext howner hexprs).bind ?_
  intro found found' hfound
  cases hfound with
  | none => exact .pure rfl
  | some hinsertion => exact hrender _ _ hinsertion

section Bodies

variable {defined defined' : Definitions}
  (hdefined : Dict.Related (Definition.Paired allowed) defined defined')

include hdefined

/-- Bodies that belong together are rendered alike if definitions are. -/
theorem renderBody_of_follow (h : Pairs excuse S C allowed a₁ a₂)
    (hrender : ∀ i i', Insertion.Paired C allowed i i' →
      Follows excuse S Eq (render₁ i) (render₂ i'))
    (hcontext : C context context') (bound : Nat)
    (hfollow : ∀ name d d', Definition.Paired allowed d d' →
      Follows excuse S Eq (a₁.follow render₁ context defined bound name d)
        (a₂.follow render₂ context' defined' bound name d'))
    {owner owner' : Tree} (howner : owner.AllPaired allowed owner') {nodes nodes' : List Node}
    (hnodes : Node.Paired allowed nodes nodes') :
    Follows excuse S Eq (a₁.renderBody render₁ context defined bound owner nodes)
      (a₂.renderBody render₂ context' defined' bound owner' nodes') := by
  induction hnodes with
  | nil =>
    rw [renderBody_nil, renderBody_nil]
    exact .pure rfl
  | @leaf node rest rest' hleaf hexprs _ ih =>
    rw [renderBody_cons, renderBody_cons]
    refine .join ?_ ih
    cases node with
    | text span content =>
      rw [renderNode_text, renderNode_text]
      exact .pure rfl
    | print span expr =>
      rw [renderNode_print, renderNode_print]
      exact h.print hcontext (hexprs expr List.mem_cons_self)
    | block => exact hleaf.elim
    | «include» span target clauses =>
      rw [renderNode_include, renderNode_include]
      exact h.insert hrender hcontext howner hexprs
  | @block span name body body' rest rest' _ _ ihBody ih =>
    rw [renderBody_cons, renderBody_cons]
    refine .join ?_ ih
    cases hd : Dict.get? defined name with
    | none =>
      rw [renderNode_own _ _ _ _ _ _ hd, renderNode_own _ _ _ _ _ _ (hdefined.get?_none hd)]
      exact ihBody
    | some d =>
      obtain ⟨d', hd', hpaired⟩ := hdefined.get?_some hd
      rw [renderNode_defined _ _ _ _ _ _ hd, renderNode_defined _ _ _ _ _ _ hd']
      exact hfollow name d d' hpaired
  | mergedLeft _ ih => exact ih.congr (outcome_renderBody_mergeText ..) rfl
  | mergedRight _ ih => exact ih.congr rfl (outcome_renderBody_mergeText ..)

theorem renderBody (h : Pairs excuse S C allowed a₁ a₂)
    (hrender : ∀ i i', Insertion.Paired C allowed i i' →
      Follows excuse S Eq (render₁ i) (render₂ i'))
    (hcontext : C context context') (bound : Nat) {owner owner' : Tree}
    (howner : owner.AllPaired allowed owner') {nodes nodes' : List Node}
    (hnodes : Node.Paired allowed nodes nodes') :
    Follows excuse S Eq (a₁.renderBody render₁ context defined bound owner nodes)
      (a₂.renderBody render₂ context' defined' bound owner' nodes') := by
  induction bound generalizing owner owner' nodes nodes' with
  | zero =>
    refine renderBody_of_follow hdefined h hrender hcontext 0 (fun name _ _ _ => ?_) howner hnodes
    exact .throw _
  | succ bound ih =>
    refine renderBody_of_follow hdefined h hrender hcontext _ (fun name d d' hd => ?_) howner hnodes
    exact ih hd.owner hd.body

end Bodies

/-- Trees that belong together are rendered alike, under definitions that belong together. -/
theorem renderTree (h : Pairs excuse S C allowed a₁ a₂) (patience : Nat) {depth depth' : Nat}
    (hdepth : Reaches excuse a₁.maxDepth depth a₂.maxDepth depth') {defined defined' : Definitions}
    (hdefined : Dict.Related (Definition.Paired allowed) defined defined') {tree tree' : Tree}
    (htree : tree.Paired allowed tree') {owner owner' : Tree}
    (howner : owner.AllPaired allowed owner') (hcontext : C context context') :
    Follows excuse S Eq (a₁.renderTree patience depth defined tree owner context)
      (a₂.renderTree patience depth' defined' tree' owner' context') := by
  induction depth generalizing depth' defined defined' tree tree' owner owner' context context' with
  | zero =>
    rw [renderTree_zero]
    rcases hdepth with ⟨hlimit, rfl⟩ | ⟨-, hexcuse⟩
    · rw [renderTree_zero, hlimit, htree.name]
      exact .throw _
    · exact .of_excuse (hexcuse _ _)
  | succ depth ih =>
    obtain ⟨deeper, rfl, hdeeper⟩ : ∃ deeper, depth' = deeper + 1 ∧
        Reaches excuse a₁.maxDepth depth a₂.maxDepth deeper := by
      rcases hdepth with ⟨hlimit, rfl⟩ | ⟨hle, hexcuse⟩
      · exact ⟨depth, rfl, .inl ⟨hlimit, rfl⟩⟩
      · exact ⟨depth' - 1, by omega, .inr ⟨by omega, hexcuse⟩⟩
    cases hparent : tree.parent with
    | none =>
      have hparent' : tree'.parent = none := htree.parent ▸ hparent
      rw [renderTree_root _ _ _ _ hparent, renderTree_root _ _ _ _ hparent', hdefined.length]
      refine renderBody hdefined h ?_ hcontext _ howner htree.body
      intro i i' hi
      exact ih hdeeper .nil hi.tree hi.owner hi.context
    | some parent =>
      have hparent' : tree'.parent = some parent := htree.parent ▸ hparent
      rw [renderTree_child _ _ _ _ hparent, renderTree_child _ _ _ _ hparent']
      refine (h.parent hcontext (htree.parent_allowed parent hparent)).bind ?_
      intro found found' hfound
      exact ih hdeeper (Definition.Paired.add hdefined howner htree) hfound.self hfound hcontext

/-- Templates that belong together are rendered alike. -/
theorem render (h : Pairs excuse S C allowed a₁ a₂) (patience : Nat)
    (hdepth : a₁.maxDepth = a₂.maxDepth ∨
      (a₁.maxDepth ≤ a₂.maxDepth ∧ ∀ limit name, excuse (.tooDeep limit name)))
    {tree tree' : Tree} (htree : tree.AllPaired allowed tree') (hcontext : C context context') :
    Follows excuse S Eq (a₁.render patience tree context)
      (a₂.render patience tree' context') := by
  refine h.renderTree patience ?_ .nil htree.self htree hcontext
  rcases hdepth with hlimit | ⟨hle, hexcuse⟩
  · exact .inl ⟨hlimit, by rw [hlimit]⟩
  · exact .inr ⟨Nat.succ_le_succ hle, hexcuse⟩

end Pairs

end Access

/-! ## Hosts -/

section Hosts

variable {n₁ n₂ : Type → Type} [Monad n₁] [Monad n₂] {τ₁ τ₂ : Type} [Runs n₁ τ₁] [Runs n₂ τ₂]
  {excuse : Failure → Prop} {S : τ₁ → τ₂ → Prop} {C : Context → Context → Prop} {h₁ : Host n₁}
  {h₂ : Host n₂}

namespace Host

/-- Two hosts give allowed expressions the same values, in contexts that belong together. -/
def EvaluateAlike (excuse : Failure → Prop) (S : τ₁ → τ₂ → Prop) (C : Context → Context → Prop)
    (allowed : Expr → Prop) (h₁ : Host n₁) (h₂ : Host n₂) : Prop :=
  ∀ {context context' : Context}, C context context' → ∀ {e : Expr}, allowed e →
    Follows excuse S Eq (h₁.evaluate context e) (h₂.evaluate context' e)

section Pairs

variable (hevaluate : EvaluateAlike excuse S C allowed h₁ h₂)
  (htemplates : TemplatesFollow (fun _ => False) S (Tree.AllPaired allowed) h₁ h₂)
  (hscope : ∀ {context context'}, C context context' → ∀ only bindings,
    C (scope context only bindings) (scope context' only bindings))
  {context context' : Context} (hcontext : C context context')

include hevaluate hcontext

theorem passed_pairs {bindings : Option Expr} (h : ∀ e ∈ bindings.toList, allowed e) :
    Follows excuse S Eq (h₁.passed context bindings) (h₂.passed context' bindings) := by
  cases bindings with
  | none => exact .pure rfl
  | some e =>
    refine (hevaluate hcontext (h e (List.mem_singleton.2 rfl))).bind ?_
    rintro value _ rfl
    exact .of_same _ _ _

include htemplates

theorem included?_pairs {e : Expr} (he : allowed e) (ignoreMissing : Bool) :
    Follows excuse S (Option.Rel (Tree.AllPaired allowed)) (h₁.included? context ignoreMissing e)
      (h₂.included? context' ignoreMissing e) := by
  refine (hevaluate hcontext he).bind ?_
  rintro value _ rfl
  have hresolved := resolve_follows (find_follows htemplates) value e.span
  exact .excused (optional_follows (fun _ => not_false) hresolved ignoreMissing)

include hscope

theorem insertion?_named_pairs (owner owner' : Tree) {e : Expr} {clauses : Clauses}
    (h : ∀ inner ∈ e :: clauses.bindings.toList, allowed inner) :
    Follows excuse S (Option.Rel (Insertion.Paired C allowed))
      (h₁.insertion? context owner (.named e) clauses)
      (h₂.insertion? context' owner' (.named e) clauses) := by
  refine Follows.congr ?_ (outcome_insertion?_named h₁ context owner e clauses)
    (outcome_insertion?_named h₂ context' owner' e clauses)
  refine (included?_pairs hevaluate htemplates hcontext (h e List.mem_cons_self) _).bind ?_
  intro found found' hfound
  cases hfound with
  | none => exact .pure .none
  | some htree =>
    refine (passed_pairs hevaluate hcontext fun e he => h e (List.mem_cons_of_mem _ he)).bind ?_
    rintro bindings _ rfl
    exact .pure (.some (htree.insertion (hscope hcontext clauses.only bindings)))

omit htemplates

/-- An embedded tree has the same index in both owners. -/
theorem insertion?_embedded_pairs {owner owner' : Tree} (howner : owner.AllPaired allowed owner')
    (filename : String) (index : Nat) {clauses : Clauses}
    (h : ∀ e ∈ clauses.bindings.toList, allowed e) :
    Follows excuse S (Option.Rel (Insertion.Paired C allowed))
      (h₁.insertion? context owner (.embedded filename index) clauses)
      (h₂.insertion? context' owner' (.embedded filename index) clauses) := by
  have hlength := howner.embedded.length_eq
  cases htree : owner.embedded[index]? with
  | none =>
    have htree' : owner'.embedded[index]? = none := by
      rw [List.getElem?_eq_none_iff] at htree ⊢
      exact hlength ▸ htree
    exact Follows.congr (.throw _) (outcome_insertion?_missing h₁ context htree filename clauses)
      (outcome_insertion?_missing h₂ context' htree' filename clauses)
  | some tree =>
    obtain ⟨hindex, rfl⟩ := List.getElem?_eq_some_iff.1 htree
    have hindex' : index < owner'.embedded.length := hlength ▸ hindex
    have htree' : owner'.embedded[index]? = some owner'.embedded[index] :=
      List.getElem?_eq_getElem hindex'
    refine Follows.congr ?_ (outcome_insertion?_embedded h₁ context htree filename clauses)
      (outcome_insertion?_embedded h₂ context' htree' filename clauses)
    refine (passed_pairs hevaluate hcontext h).bind ?_
    rintro bindings _ rfl
    have hpaired : owner.embedded[index].Paired allowed owner'.embedded[index] :=
      howner.embedded.get hindex hindex'
    exact .pure (.some ⟨hpaired, howner, hscope hcontext clauses.only bindings⟩)

omit hcontext

include htemplates

/-- Hosts that give allowed expressions the same values, and find templates that belong together. No
    failure to find a template is excused, since it may be forgiven. -/
theorem pairs : h₁.access.Pairs excuse S C allowed h₂.access where
  print hcontext e he := by
    refine (hevaluate hcontext he).bind ?_
    rintro value _ rfl
    exact .of_same _ _ _
  parent hcontext e he := by
    refine (hevaluate hcontext he).bind ?_
    rintro value _ rfl
    exact .excused (resolve_follows (find_follows htemplates) value e.span)
  insertion? := by
    intro context context' hcontext owner owner' howner span target clauses hexprs
    cases target with
    | named e => exact insertion?_named_pairs hevaluate htemplates hscope hcontext _ _ hexprs
    | embedded filename index =>
      exact insertion?_embedded_pairs hevaluate hscope hcontext howner filename index hexprs

end Pairs

end Host

end Hosts

/-! ## Engines -/

namespace Engine

variable {m : Type → Type} [Monad m] {τ : Type} [Runs m τ] {excuse : Failure → Prop}
  {R : Template → Template → Prop} {C : Context → Context → Prop} {e₁ e₂ : Engine m}

/-- Two engines that find alike, and print alike in contexts that belong together. -/
structure Pairs (excuse : Failure → Prop) (R : Template → Template → Prop)
    (C : Context → Context → Prop) (allowed : Expr → Prop) (e₁ e₂ : Engine m) : Prop where
  access : e₁.host.access.Pairs excuse (Keeping R (Eq (α := τ))) C allowed e₂.host.access
  patience : e₁.patience = e₂.patience
  depth : e₁.settings.maxDepth = e₂.settings.maxDepth ∨
    (e₁.settings.maxDepth ≤ e₂.settings.maxDepth ∧ ∀ limit name, excuse (.tooDeep limit name))
  loadFresh : ∀ name, Follows (fun _ => False) (Eq (α := τ)) R (e₁.loadFresh name)
    (e₂.loadFresh name)
  paired : ∀ t t', R t t' → t.tree.AllPaired allowed t'.tree

/-- Engines with the same loader, of which evaluation and loading are known. -/
theorem pairs (hloader : e₁.loader = e₂.loader) (hpatience : e₁.patience = e₂.patience)
    (hdepth : e₁.settings.maxDepth = e₂.settings.maxDepth ∨
      (e₁.settings.maxDepth ≤ e₂.settings.maxDepth ∧ ∀ limit name, excuse (.tooDeep limit name)))
    (hevaluate : ∀ {context context'}, C context context' → ∀ {e}, allowed e →
      Follows excuse (Keeping R (Eq (α := τ))) Eq (e₁.host.evaluate context e)
        (e₂.host.evaluate context' e))
    (hscope : ∀ {context context'}, C context context' → ∀ only bindings,
      C (Host.scope context only bindings) (Host.scope context' only bindings))
    (hload : ∀ name, Follows (fun _ => False) (Eq (α := τ)) R (e₁.loadFresh name)
      (e₂.loadFresh name))
    (hpaired : ∀ t t', R t t' → t.tree.AllPaired allowed t'.tree) :
    Pairs (τ := τ) excuse R C allowed e₁ e₂ where
  access := Host.pairs hevaluate (hostOf_templates_follow hloader hload hpaired) hscope
  patience := hpatience
  depth := hdepth
  loadFresh := hload
  paired := hpaired

namespace Pairs

variable (h : Pairs (τ := τ) excuse R C allowed e₁ e₂) {context context' : Context}
  (hcontext : C context context')

include h hcontext

theorem renderTemplate {t t' : Template} (ht : t.tree.AllPaired allowed t'.tree) :
    Follows excuse (Keeping R (Eq (α := τ))) Eq
      (.ofAction (e₁.renderTemplate t context) : Rendering (StateT Cache m) String)
      (.ofAction (e₂.renderTemplate t' context') : Rendering (StateT Cache m) String) := by
  unfold Engine.renderTemplate
  rw [h.patience]
  exact h.access.render e₂.patience h.depth ht hcontext

theorem render (name : String) :
    Follows excuse (Keeping R (Eq (α := τ))) Eq
      (.ofAction (e₁.render name context) : Rendering (StateT Cache m) String)
      (.ofAction (e₂.render name context') : Rendering (StateT Cache m) String) := by
  have hload : Follows excuse (Keeping R (Eq (α := τ))) R
      (.ofAction (e₁.load name) : Rendering (StateT Cache m) Template)
      (.ofAction (e₂.load name) : Rendering (StateT Cache m) Template) :=
    .excused (keep_follows h.loadFresh name)
  exact hload.bind fun t t' ht => h.renderTemplate hcontext (h.paired t t' ht)

/-- Sources that are compiled apart from the templates that are kept, to trees that belong
    together. -/
theorem renderSource {name source source' : String}
    (hcompile : Follows (fun _ => False) (Eq (α := τ))
      (fun t t' => t.tree.AllPaired allowed t'.tree) (e₁.compile name source)
      (e₂.compile name source')) :
    Follows excuse (Keeping R (Eq (α := τ))) Eq (e₁.renderSource name source context)
      (e₂.renderSource name source' context') :=
  (lift_follows (hcompile.excused)).bind fun _ _ ht => h.renderTemplate hcontext ht

end Pairs

end Engine

end Stencil
