import Stencil.Proofs.Compiled
import Stencil.Proofs.Dictionaries
import Stencil.Proofs.Hosts
import Stencil.Proofs.Texts

/-!
# Trees with and without hooks

A tree that was routed through the hooks has the shape of the tree that it was made from: the same
texts, blocks and prints, and an include for every include. Rendering the one follows rendering the
other if it does so at every place that was routed: at the names of extended templates and at the
includes.

Results:
* `Tree.routed_parent`, `Tree.routed_body`, `Node.blocksIn_routed`: the parts of a routed tree.
* `Tree.Hookless.routable`: trees of sources without calls of hooks can be routed.
* `Access.renderBody_routed`, `Access.renderTree_routed`: rendering with and without hooks.
-/

namespace Stencil

open Override Node

/-! ## Trees that call no hook -/

/-- An expression that calls no hook. -/
def Expr.Hookless (e : Expr) : Prop := ∀ name ∈ e.calls, ∀ hook : Hook, name ≠ hook.name

instance (e : Expr) : Decidable e.Hookless :=
  decidable_of_iff
    (∀ name ∈ e.calls, name ≠ Hook.template.name ∧ name ≠ Hook.parameters.name)
    ⟨fun h name hname hook => match hook with
      | .template => (h name hname).1
      | .parameters => (h name hname).2,
    fun h name hname => ⟨h name hname .template, h name hname .parameters⟩⟩

/-- The expressions of a tag. -/
def Node.exprs : Node → List Expr
  | .print _ expr => [expr]
  | .«include» _ (.named target) clauses => target :: clauses.bindings.toList
  | .«include» _ (.embedded ..) clauses => clauses.bindings.toList
  | _ => []

/-- The expressions of a tree, without those of its embedded trees. -/
def Tree.exprs (tree : Tree) : List Expr :=
  tree.parent.toList ++ (tagsIn tree.body).flatMap Node.exprs

/-- A tree that calls no hook, with its embedded trees. -/
def Tree.Hookless (tree : Tree) : Prop :=
  ∀ part ∈ tree :: tree.embedded, ∀ e ∈ part.exprs, e.Hookless

instance (tree : Tree) : Decidable tree.Hookless :=
  inferInstanceAs (Decidable (∀ part ∈ tree :: tree.embedded, ∀ e ∈ part.exprs, e.Hookless))

/-- Tags that call no hook and that can be routed through the hooks. -/
def Routable (tags : List Node) : Prop :=
  ∀ tag ∈ tags, (∀ e ∈ tag.exprs, e.Hookless) ∧ ∃ node, routeNode tag = .ok node

/-- A tree that calls no hook and that can be routed through the hooks. -/
structure Tree.Routable (tree : Tree) : Prop where
  parent : ∀ e, tree.parent = some e → e.Hookless
  tags : Stencil.Routable (tagsIn tree.body)

/-- A tree of this kind, all of whose embedded trees are. -/
structure Tree.AllRoutable (tree : Tree) : Prop where
  self : tree.Routable
  embedded : ∀ inner ∈ tree.embedded, inner.Routable

section Routable

theorem routable_append {front back : List Node} :
    Routable (front ++ back) ↔ Routable front ∧ Routable back :=
  List.forall_mem_append

theorem Routable.rest {node : Node} {rest : List Node} (h : Routable (tagsIn (node :: rest))) :
    Routable (tagsIn rest) := (routable_append.1 h).2

theorem Routable.body {span : Span} {name : String} {body rest : List Node}
    (h : Routable (tagsIn (.block span name body :: rest))) : Routable (tagsIn body) :=
  (routable_append.1 h).1

theorem Routable.print {span : Span} {expr : Expr} {rest : List Node}
    (h : Routable (tagsIn (.print span expr :: rest))) : expr.Hookless :=
  (h _ List.mem_cons_self).1 expr List.mem_cons_self

theorem Routable.«include» {span : Span} {target : Target} {clauses : Clauses} {rest : List Node}
    (h : Routable (tagsIn (.«include» span target clauses :: rest))) :
    (∀ e ∈ Node.exprs (.«include» span target clauses), e.Hookless) ∧
      ∃ node, routeNode (.«include» span target clauses) = .ok node :=
  h _ List.mem_cons_self

/-- The blocks of a body that can be routed. -/
theorem Routable.blocks {nodes : List Node} (h : Routable (tagsIn nodes)) :
    ∀ b ∈ blocksIn nodes, Routable (tagsIn b.body) := by
  induction nodes using body_induction with
  | nil => simp
  | leaf node rest hleaf ih =>
    rw [blocksIn_leaf hleaf]
    exact ih h.rest
  | block span name body rest ihBody ihRest =>
    intro b hb
    rw [blocksIn_block] at hb
    rcases List.mem_cons.1 hb with rfl | hb
    · exact h.body
    · rcases List.mem_append.1 hb with hb | hb
      · exact ihBody h.body b hb
      · exact ihRest h.rest b hb

theorem tagsIn_merged (tree : Tree) : tagsIn tree.merged.body = tagsIn tree.body := by
  obtain ⟨name, parent, body, embedded, index⟩ := tree
  exact (tagsIn_mergeText _).trans (tagsIn_changeAll_mergeNode body)

theorem parent_merged (tree : Tree) : tree.merged.parent = tree.parent := by
  obtain ⟨name, parent, body, embedded, index⟩ := tree
  rfl

theorem embedded_merged (tree : Tree) :
    tree.merged.embedded = tree.embedded.map Tree.merged := by
  obtain ⟨name, parent, body, embedded, index⟩ := tree
  exact Tree.changeAll_eq_map ..

theorem Tree.routable_of_exprs {tree : Tree} (h : ∀ e ∈ tree.exprs, e.Hookless)
    (haccepts : Pass.Accepts routeNode (tagsIn tree.body)) : tree.Routable where
  parent e he := h e (List.mem_append_left _ (by simp [he]))
  tags tag htag := ⟨fun e he => h e (List.mem_append_right _ (List.mem_flatMap.2 ⟨tag, htag, he⟩)),
    haccepts tag htag⟩

theorem Tree.Routable.merged {tree : Tree} (h : tree.Routable) : tree.merged.Routable where
  parent := by
    rw [parent_merged]
    exact h.parent
  tags := by
    rw [tagsIn_merged]
    exact h.tags

/-- The tree of a source that calls no hook can be routed after the built-in pass, unless a tag is
    refused. -/
theorem Tree.Hookless.routable {tree : Tree} (h : tree.Hookless)
    (hfine : Engine.Fine true tree) : tree.merged.AllRoutable := by
  have haccepts : Pass.Accepts routeNode (Tree.tagsInAll tree.embedded) ∧
      Pass.Accepts routeNode (tagsIn tree.body) := by
    obtain ⟨name, parent, body, embedded, index⟩ := tree
    exact Pass.accepts_append.1 (hfine rfl)
  refine ⟨(routable_of_exprs (h tree List.mem_cons_self) haccepts.2).merged, ?_⟩
  rw [embedded_merged]
  intro inner hinner
  obtain ⟨tree', htree', rfl⟩ := List.mem_map.1 hinner
  exact (routable_of_exprs (h tree' (List.mem_cons_of_mem _ htree'))
    (accepts_of_mem htree' haccepts.1)).merged

end Routable

/-! ## Parts of a routed tree -/

theorem Tree.routed_name (tree : Tree) : tree.routed.name = tree.name := by
  obtain ⟨name, parent, body, embedded, index⟩ := tree
  rfl

theorem Tree.routed_parent (tree : Tree) : tree.routed.parent = tree.parent.map routedParent := by
  obtain ⟨name, parent, body, embedded, index⟩ := tree
  rfl

theorem Tree.routed_body (tree : Tree) :
    tree.routed.body = Node.changeAll routedNode tree.body := by
  obtain ⟨name, parent, body, embedded, index⟩ := tree
  rfl

theorem Tree.routed_embedded (tree : Tree) :
    tree.routed.embedded = tree.embedded.map Tree.routed := by
  obtain ⟨name, parent, body, embedded, index⟩ := tree
  exact Tree.changeAll_eq_map ..

/-- The blocks of a routed body. -/
theorem Node.blocksIn_routed (nodes : List Node) :
    blocksIn (Node.changeAll routedNode nodes) =
      (blocksIn nodes).map fun b => ⟨b.name, Node.changeAll routedNode b.body⟩ := by
  induction nodes using body_induction with
  | nil => simp [Node.changeAll]
  | leaf node rest hleaf ih =>
    have hchange : node.change routedNode = routedNode node := by
      cases node with
      | block => exact hleaf.elim
      | _ => rfl
    rw [Node.changeAll, hchange, blocksIn_leaf hleaf, blocksIn_leaf (routedNode_keeps.leaf _ hleaf),
      ih]
  | block span name body rest ihBody ihRest =>
    have hchange : Node.change routedNode (.block span name body) =
        .block span name (Node.changeAll routedNode body) := rfl
    rw [Node.changeAll, hchange, blocksIn_block, blocksIn_block, ihBody, ihRest, List.map_cons,
      List.map_append]

/-! ## Rendering with and without hooks -/

/-- A routed tree and the tree that it was made from. -/
def RoutedTree (routed plain : Tree) : Prop := routed = plain.routed ∧ plain.AllRoutable

/-- A routed template and the template that it was made from. -/
def RoutedTemplate (routed plain : Template) : Prop :=
  routed.name = plain.name ∧ RoutedTree routed.tree plain.tree

/-- What includes stand for with and without hooks. -/
structure RoutedInsertion (routed plain : Insertion) : Prop where
  tree : routed.tree = plain.tree.routed
  owner : routed.owner = plain.owner.routed
  context : routed.context = plain.context
  routable : plain.tree.Routable
  ownerRoutable : plain.owner.AllRoutable

theorem RoutedTree.insertion {routed plain : Tree} (h : RoutedTree routed plain)
    (context : Context) : RoutedInsertion ⟨routed, routed, context⟩ ⟨plain, plain, context⟩ :=
  ⟨h.1, h.1, rfl, h.2.self, h.2⟩

/-- A definition with and without hooks. -/
structure RoutedDefinition (routed plain : Definition) : Prop where
  body : routed.body = Node.changeAll routedNode plain.body
  owner : routed.owner = plain.owner.routed
  routable : Routable (tagsIn plain.body)
  ownerRoutable : plain.owner.AllRoutable

/-- The definitions of a tree with and without hooks. -/
theorem RoutedDefinition.add {defined defined' : Definitions}
    (h : Dict.Related RoutedDefinition defined defined') {owner tree : Tree}
    (howner : owner.AllRoutable) (htree : tree.Routable) :
    Dict.Related RoutedDefinition (addDefinitions defined owner.routed tree.routed.blocks)
      (addDefinitions defined' owner tree.blocks) := by
  refine h.foldl_insertNew ?_
  rw [Tree.blocks, Tree.routed_body, Node.blocksIn_routed]
  exact List.forall₂_map_left_iff.2 <| List.forall₂_same.2 fun b hb =>
    ⟨rfl, rfl, rfl, htree.tags.blocks b hb, howner⟩

namespace Access

variable {n₁ n₂ : Type → Type} [Monad n₁] [Monad n₂] {τ₁ τ₂ : Type} [Runs n₁ τ₁] [Runs n₂ τ₂]
  {excuse : Failure → Prop} {S : τ₁ → τ₂ → Prop} {a₁ : Access n₁} {a₂ : Access n₂}

/-- What the first access does at every place that was routed, the second one does at the place as
    it was before. -/
structure Mirrors (excuse : Failure → Prop) (S : τ₁ → τ₂ → Prop) (a₁ : Access n₁)
    (a₂ : Access n₂) : Prop where
  maxDepth : a₁.maxDepth = a₂.maxDepth
  print : ∀ context (e : Expr), e.Hookless →
    Follows excuse S Eq (a₁.print context e) (a₂.print context e)
  parent : ∀ context (e : Expr), e.Hookless →
    Follows excuse S RoutedTree (a₁.parent context (routedParent e))
      (a₂.parent context e)
  named : ∀ context owner target clauses, target.Hookless →
    (∀ e, clauses.bindings = some e → e.Hookless) → ∀ owner' span,
    Follows excuse S (Option.Rel RoutedInsertion)
      (a₁.insertion? context owner' (.named (routedTarget target clauses))
        (routedClauses target span clauses))
      (a₂.insertion? context owner (.named target) clauses)
  embedded : ∀ context owner filename index clauses, owner.AllRoutable →
    (∀ e, clauses.bindings = some e → e.Hookless) → ∀ span,
    Follows excuse S (Option.Rel RoutedInsertion)
      (a₁.insertion? context owner.routed (.embedded filename index)
        (routedClauses (.constant span (.string filename)) span clauses))
      (a₂.insertion? context owner (.embedded filename index) clauses)

variable {render₁ : Insertion → Rendering n₁ String} {render₂ : Insertion → Rendering n₂ String}

/-- An include that was routed is rendered as it was before. -/
theorem insert_routed (hm : Mirrors excuse S a₁ a₂)
    (hrender : ∀ i₁ i₂, RoutedInsertion i₁ i₂ →
      Follows excuse S Eq (render₁ i₁) (render₂ i₂))
    (context : Context) {owner : Tree} (howner : owner.AllRoutable) {span : Span}
    {target : Target} {clauses : Clauses}
    (hexprs : ∀ e ∈ Node.exprs (.«include» span target clauses), e.Hookless)
    (haccepts : ∃ node, routeNode (.«include» span target clauses) = .ok node) :
    ∃ target' clauses',
      routedNode (.«include» span target clauses) = .«include» span target' clauses' ∧
      Follows excuse S Eq (a₁.insert render₁ context owner.routed target' clauses')
        (a₂.insert render₂ context owner target clauses) := by
  have hinsert : ∀ {target' clauses'}, Follows excuse S (Option.Rel RoutedInsertion)
      (a₁.insertion? context owner.routed target' clauses')
      (a₂.insertion? context owner target clauses) →
      Follows excuse S Eq (a₁.insert render₁ context owner.routed target' clauses')
        (a₂.insert render₂ context owner target clauses) := by
    intro target' clauses' h
    refine h.bind ?_
    intro found found' hfound
    cases hfound with
    | none => exact .pure rfl
    | some hi => exact hrender _ _ hi
  cases target with
  | named expr =>
    refine ⟨_, _, routedNode_named .., hinsert (hm.named _ _ _ _ ?_ ?_ _ _)⟩
    · exact hexprs expr List.mem_cons_self
    · exact fun e he => hexprs e (List.mem_cons_of_mem _ (Option.mem_toList.2 he))
  | embedded filename index =>
    have hname : filename ≠ "" := by
      rintro rfl
      obtain ⟨node, hnode⟩ := haccepts
      cases hnode
    refine ⟨_, _, routedNode_embedded span hname index clauses,
      hinsert (hm.embedded _ _ _ _ _ howner ?_ _)⟩
    exact fun e he => hexprs e (Option.mem_toList.2 he)

section Bodies

variable {defined₁ defined₂ : Definitions}
  (hdefined : Dict.Related RoutedDefinition defined₁ defined₂)

include hdefined

/-- A routed body is rendered as it was before, if definitions are. -/
theorem renderBody_routed_of_follow (hm : Mirrors excuse S a₁ a₂)
    (hrender : ∀ i₁ i₂, RoutedInsertion i₁ i₂ →
      Follows excuse S Eq (render₁ i₁) (render₂ i₂))
    (context : Context) (bound : Nat)
    (hfollow : ∀ name d₁ d₂, RoutedDefinition d₁ d₂ → Follows excuse S Eq
      (a₁.follow render₁ context defined₁ bound name d₁)
      (a₂.follow render₂ context defined₂ bound name d₂))
    {owner : Tree} (howner : owner.AllRoutable) {nodes : List Node}
    (h : Routable (tagsIn nodes)) :
    Follows excuse S Eq
      (a₁.renderBody render₁ context defined₁ bound owner.routed
        (Node.changeAll routedNode nodes))
      (a₂.renderBody render₂ context defined₂ bound owner nodes) := by
  induction nodes using body_induction with
  | nil =>
    rw [Node.changeAll, renderBody_nil, renderBody_nil]
    exact .pure rfl
  | leaf node rest hleaf ih =>
    rw [Node.changeAll, renderBody_cons, renderBody_cons]
    refine .join ?_ (ih h.rest)
    cases node with
    | text span content =>
      have hchange : Node.change routedNode (.text span content) = .text span content := rfl
      rw [hchange, renderNode_text, renderNode_text]
      exact .pure rfl
    | print span expr =>
      have hchange : Node.change routedNode (.print span expr) = .print span expr := rfl
      rw [hchange, renderNode_print, renderNode_print]
      exact hm.print context expr h.print
    | block => exact hleaf.elim
    | «include» span target clauses =>
      obtain ⟨target', clauses', hrouted, hinsert⟩ :=
        insert_routed hm hrender context howner h.«include».1 h.«include».2
      rw [Node.change_include, hrouted, renderNode_include, renderNode_include]
      exact hinsert
  | block span name body rest ihBody ihRest =>
    have hchange : Node.change routedNode (.block span name body) =
        .block span name (Node.changeAll routedNode body) := rfl
    rw [Node.changeAll, hchange, renderBody_cons, renderBody_cons]
    refine .join ?_ (ihRest h.rest)
    cases hd : Dict.get? defined₁ name with
    | none =>
      rw [renderNode_own _ _ _ _ _ _ hd, renderNode_own _ _ _ _ _ _ (hdefined.get?_none hd)]
      exact ihBody h.body
    | some d₁ =>
      obtain ⟨d₂, hd', hrouted⟩ := hdefined.get?_some hd
      rw [renderNode_defined _ _ _ _ _ _ hd, renderNode_defined _ _ _ _ _ _ hd']
      exact hfollow name d₁ d₂ hrouted

theorem renderBody_routed (hm : Mirrors excuse S a₁ a₂)
    (hrender : ∀ i₁ i₂, RoutedInsertion i₁ i₂ →
      Follows excuse S Eq (render₁ i₁) (render₂ i₂))
    (context : Context) (bound : Nat) {owner : Tree} (howner : owner.AllRoutable)
    {nodes : List Node} (h : Routable (tagsIn nodes)) :
    Follows excuse S Eq
      (a₁.renderBody render₁ context defined₁ bound owner.routed
        (Node.changeAll routedNode nodes))
      (a₂.renderBody render₂ context defined₂ bound owner nodes) := by
  induction bound generalizing owner nodes with
  | zero =>
    refine renderBody_routed_of_follow hdefined hm hrender context 0 (fun name _ _ _ => ?_) howner h
    exact .throw _
  | succ bound ih =>
    refine renderBody_routed_of_follow hdefined hm hrender context _ (fun name d₁ d₂ hd => ?_)
      howner h
    rw [follow_succ, follow_succ, hd.body, hd.owner]
    exact ih hd.ownerRoutable hd.routable

end Bodies

/-- A routed tree is rendered as it was before. -/
theorem renderTree_routed (hm : Mirrors excuse S a₁ a₂) (patience depth : Nat)
    {defined₁ defined₂ : Definitions}
    (hdefined : Dict.Related RoutedDefinition defined₁ defined₂) {tree owner : Tree}
    (htree : tree.Routable) (howner : owner.AllRoutable) (context : Context) :
    Follows excuse S Eq
      (a₁.renderTree patience depth defined₁ tree.routed owner.routed context)
      (a₂.renderTree patience depth defined₂ tree owner context) := by
  induction depth generalizing defined₁ defined₂ tree owner context with
  | zero =>
    rw [renderTree_zero, renderTree_zero, Tree.routed_name, hm.maxDepth]
    exact .throw _
  | succ depth ih =>
    cases hparent : tree.parent with
    | none =>
      have hrouted : tree.routed.parent = none := by rw [Tree.routed_parent, hparent]; rfl
      rw [renderTree_root _ _ _ _ hrouted, renderTree_root _ _ _ _ hparent, Tree.routed_body,
        hdefined.length]
      refine renderBody_routed hdefined hm ?_ context _ howner htree.tags
      intro i₁ i₂ hi
      rw [hi.tree, hi.owner, hi.context]
      exact ih .nil hi.routable hi.ownerRoutable i₂.context
    | some parent =>
      have hrouted : tree.routed.parent = some (routedParent parent) := by
        rw [Tree.routed_parent, hparent]; rfl
      rw [renderTree_child _ _ _ _ hrouted, renderTree_child _ _ _ _ hparent]
      refine (hm.parent context parent (htree.parent parent hparent)).bind ?_
      rintro _ found ⟨rfl, hfound⟩
      exact ih (RoutedDefinition.add hdefined howner htree) hfound.self hfound context

end Access

end Stencil
