import Stencil.Proofs.Compiled
import Stencil.Proofs.Dictionaries
import Stencil.Proofs.Places

/-!
# Trees of one shape

Two trees of one shape have the same texts, blocks and embedded trees, and a tag for every tag. What
may differ are the places and the tags themselves, and these by relations that are known: between
the names of extended templates, between printed expressions and between includes. If two accesses
do alike at tags that belong together, the trees are rendered alike.

Results:
* `Tree.Corresponds.self`: trees that belong to themselves.
* `Node.Corresponds.joinText`, `Node.Corresponds.merged`, `Tree.Corresponds.change`: passes.
* `Node.Corresponds.tags`, `Tree.Corresponds.tags`: tags.
* `Access.Corresponds.renderBody`, `Access.Corresponds.renderTree`, `Access.Corresponds.render`:
  rendering.
-/

namespace Stencil

open Node

/-- What belongs together in two trees of one shape. -/
structure Correspondence where
  /-- The names of extended templates. -/
  parent : Expr → Expr → Prop
  /-- Printed expressions. -/
  print : Expr → Expr → Prop
  /-- Includes and embeds. -/
  «include» : Span → Target → Clauses → Span → Target → Clauses → Prop

variable {r r' : Correspondence}

/-- Two bodies of one shape. -/
inductive Node.Corresponds (r : Correspondence) : List Node → List Node → Prop
  | nil : Node.Corresponds r [] []
  | text {span span' : Span} {content : String} {rest rest' : List Node} :
      Node.Corresponds r rest rest' →
      Node.Corresponds r (.text span content :: rest) (.text span' content :: rest')
  | print {span span' : Span} {e e' : Expr} {rest rest' : List Node} : r.print e e' →
      Node.Corresponds r rest rest' →
      Node.Corresponds r (.print span e :: rest) (.print span' e' :: rest')
  | block {span span' : Span} {name : String} {body body' rest rest' : List Node} :
      Node.Corresponds r body body' → Node.Corresponds r rest rest' →
      Node.Corresponds r (.block span name body :: rest) (.block span' name body' :: rest')
  | «include» {span span' : Span} {target target' : Target} {clauses clauses' : Clauses}
      {rest rest' : List Node} : r.«include» span target clauses span' target' clauses' →
      Node.Corresponds r rest rest' →
      Node.Corresponds r (.«include» span target clauses :: rest)
        (.«include» span' target' clauses' :: rest')

mutual

/-- Two trees of one shape. -/
inductive Tree.Corresponds (r : Correspondence) : Tree → Tree → Prop
  | intro {name : String} {parent parent' : Option Expr} {body body' : List Node}
      {embedded embedded' : List Tree} {index : Option Nat} :
      Option.Rel r.parent parent parent' → Node.Corresponds r body body' →
      Tree.CorrespondAll r embedded embedded' →
      Tree.Corresponds r ⟨name, parent, body, embedded, index⟩
        ⟨name, parent', body', embedded', index⟩

/-- Trees of one shape, one by one. -/
inductive Tree.CorrespondAll (r : Correspondence) : List Tree → List Tree → Prop
  | nil : Tree.CorrespondAll r [] []
  | cons {tree tree' : Tree} {rest rest' : List Tree} : Tree.Corresponds r tree tree' →
      Tree.CorrespondAll r rest rest' → Tree.CorrespondAll r (tree :: rest) (tree' :: rest')

end

/-! ## Bodies -/

/-- A body with merged texts behind a text, which joins the first one of them. -/
def Node.joinText (span : Span) (content : String) (merged : List Node) : List Node :=
  if content.isEmpty then merged
  else match merged with
    | .text next more :: others => .text (span.upTo next) (content ++ more) :: others
    | others => .text span content :: others

theorem mergeText_text (span : Span) (content : String) (rest : List Node) :
    mergeText (.text span content :: rest) = joinText span content (mergeText rest) := rfl

namespace Node.Corresponds

variable {nodes nodes' : List Node}

/-- A body belongs to itself if all that it prints and includes does. -/
theorem self (hprint : ∀ e, r.print e e) {nodes : List Node}
    (hinclude : ∀ span target clauses, .«include» span target clauses ∈ tagsIn nodes →
      r.«include» span target clauses span target clauses) : Node.Corresponds r nodes nodes := by
  induction nodes using body_induction with
  | nil => exact .nil
  | leaf node rest hleaf ih =>
    have hrest : Node.Corresponds r rest rest :=
      ih fun span target clauses h => hinclude span target clauses (List.mem_append_right _ h)
    cases node with
    | text => exact .text hrest
    | block => exact hleaf.elim
    | print span e => exact .print (hprint e) hrest
    | «include» span target clauses =>
      exact .«include» (hinclude span target clauses List.mem_cons_self) hrest
  | block span name body rest ihBody ihRest =>
    exact .block
      (ihBody fun span target clauses h => hinclude span target clauses (List.mem_append_left _ h))
      (ihRest fun span target clauses h => hinclude span target clauses (List.mem_append_right _ h))

/-- A text in front of two bodies of one shape in which texts are merged. -/
theorem joinText (h : Node.Corresponds r nodes nodes') (span span' : Span) (content : String) :
    Node.Corresponds r (Node.joinText span content nodes) (Node.joinText span' content nodes') := by
  unfold Node.joinText
  split
  · exact h
  · cases h with
    | nil => exact .text .nil
    | text h => exact .text h
    | print he h => exact .text (.print he h)
    | block hbody h => exact .text (.block hbody h)
    | «include» hinclude h => exact .text (.«include» hinclude h)

theorem mergeText (h : Node.Corresponds r nodes nodes') :
    Node.Corresponds r (Stencil.mergeText nodes) (Stencil.mergeText nodes') := by
  induction h with
  | nil => exact .nil
  | text _ ih =>
    rw [mergeText_text, mergeText_text]
    exact ih.joinText _ _ _
  | print he _ ih => exact .print he ih
  | block hbody _ _ ih => exact .block hbody ih
  | «include» hinclude _ ih => exact .«include» hinclude ih

theorem merged (h : Node.Corresponds r nodes nodes') :
    Node.Corresponds r (changeAll mergeNode nodes) (changeAll mergeNode nodes') := by
  induction h with
  | nil => exact .nil
  | text _ ih => exact .text ih
  | print he _ ih => exact .print he ih
  | block _ _ ihBody ih => exact .block ihBody.mergeText ih
  | «include» hinclude _ ih => exact .«include» hinclude ih

/-- The tags in bodies of one shape. -/
theorem tags (h : Node.Corresponds r nodes nodes') :
    List.Forall₂ (fun tag tag' => Node.Corresponds r [tag] [tag']) (tagsIn nodes)
      (tagsIn nodes') := by
  induction h with
  | nil => exact .nil
  | text _ ih => exact ih
  | print he _ ih => exact .cons (.print he .nil) ih
  | block _ _ ihBody ih => exact List.rel_append ihBody ih
  | «include» hinclude _ ih => exact .cons (.«include» hinclude .nil) ih

/-- The blocks in bodies of one shape. -/
theorem blocks (h : Node.Corresponds r nodes nodes') :
    List.Forall₂ (fun b b' => b.name = b'.name ∧ Node.Corresponds r b.body b'.body)
      (blocksIn nodes) (blocksIn nodes') := by
  induction h with
  | nil => exact .nil
  | text _ ih => exact ih
  | print _ _ ih => exact ih
  | block hbody _ ihBody ih =>
    rw [blocksIn_block, blocksIn_block]
    exact .cons ⟨rfl, hbody⟩ (List.rel_append ihBody ih)
  | «include» _ _ ih => exact ih

end Node.Corresponds

/-! ## Trees -/

namespace Tree

mutual

/-- A tree belongs to itself if all that it extends, prints and includes does. -/
theorem Corresponds.self (hparent : ∀ e, r.parent e e) (hprint : ∀ e, r.print e e) : ∀ tree : Tree,
    (∀ span target clauses, .«include» span target clauses ∈ tree.tags →
      r.«include» span target clauses span target clauses) → tree.Corresponds r tree
  | ⟨_, parent, _, embedded, _⟩, h => by
    have hparents : Option.Rel r.parent parent parent := by
      cases parent with
      | none => exact .none
      | some e => exact .some (hparent e)
    refine .intro hparents (.self hprint fun span target clauses htag => ?_)
      (CorrespondAll.self hparent hprint embedded fun span target clauses htag => ?_)
    · exact h span target clauses (List.mem_append_right _ htag)
    · exact h span target clauses (List.mem_append_left _ htag)

theorem CorrespondAll.self (hparent : ∀ e, r.parent e e) (hprint : ∀ e, r.print e e) :
    ∀ trees : List Tree, (∀ span target clauses, .«include» span target clauses ∈ tagsInAll trees →
      r.«include» span target clauses span target clauses) → CorrespondAll r trees trees
  | [], _ => .nil
  | tree :: rest, h => by
    refine .cons (Corresponds.self hparent hprint tree fun span target clauses htag => ?_)
      (CorrespondAll.self hparent hprint rest fun span target clauses htag => ?_)
    · exact h span target clauses (List.mem_append_left _ htag)
    · exact h span target clauses (List.mem_append_right _ htag)

end

/-- Changes of both trees, after which other things belong together than before. -/
structure Respects (r r' : Correspondence) (f f' : Tree → Tree) (g g' : Node → Node) : Prop where
  nodes : ∀ {nodes nodes' : List Node}, Node.Corresponds r nodes nodes' →
    Node.Corresponds r' (Node.changeAll g nodes) (Node.changeAll g' nodes')
  tree : ∀ {name : String} {parent parent' : Option Expr} {body body' : List Node}
    {embedded embedded' : List Tree} {index : Option Nat}, Option.Rel r.parent parent parent' →
    Node.Corresponds r' body body' → CorrespondAll r' embedded embedded' →
    (f ⟨name, parent, body, embedded, index⟩).Corresponds r'
      (f' ⟨name, parent', body', embedded', index⟩)

mutual

theorem Corresponds.change {f f' : Tree → Tree} {g g' : Node → Node}
    (h : Respects r r' f f' g g') : ∀ (tree : Tree) {tree' : Tree}, tree.Corresponds r tree' →
    (tree.change f g).Corresponds r' (tree'.change f' g')
  | ⟨_, _, _, embedded, _⟩, _, htree => by
    cases htree with
    | intro hparent hbody hembedded =>
    exact h.tree hparent (h.nodes hbody) (CorrespondAll.change h embedded hembedded)

theorem CorrespondAll.change {f f' : Tree → Tree} {g g' : Node → Node}
    (h : Respects r r' f f' g g') : ∀ (trees : List Tree) {trees' : List Tree},
    CorrespondAll r trees trees' →
    CorrespondAll r' (Tree.changeAll f g trees) (Tree.changeAll f' g' trees')
  | [], _, htrees => by
    cases htrees
    exact .nil
  | tree :: rest, _, htrees => by
    cases htrees with
    | cons htree hrest =>
    exact .cons (Corresponds.change h tree htree) (CorrespondAll.change h rest hrest)

end

/-- The built-in pass respects everything. -/
theorem respects_merge : Respects r r mergeTree mergeTree mergeNode mergeNode where
  nodes h := h.merged
  tree hparent hbody hembedded := .intro hparent hbody.mergeText hembedded

mutual

/-- The tags in trees of one shape. -/
theorem Corresponds.tags : ∀ (tree : Tree) {tree' : Tree}, tree.Corresponds r tree' →
    List.Forall₂ (fun tag tag' => Node.Corresponds r [tag] [tag']) tree.tags tree'.tags
  | ⟨_, _, _, embedded, _⟩, _, htree => by
    cases htree with
    | intro _ hbody hembedded =>
    exact List.rel_append (CorrespondAll.tags embedded hembedded) hbody.tags

theorem CorrespondAll.tags : ∀ (trees : List Tree) {trees' : List Tree},
    CorrespondAll r trees trees' →
    List.Forall₂ (fun tag tag' => Node.Corresponds r [tag] [tag']) (tagsInAll trees)
      (tagsInAll trees')
  | [], _, htrees => by
    cases htrees
    exact .nil
  | tree :: rest, _, htrees => by
    cases htrees with
    | cons htree hrest =>
    exact List.rel_append (Corresponds.tags tree htree) (CorrespondAll.tags rest hrest)

end

variable {tree tree' : Tree}

theorem Corresponds.name (h : tree.Corresponds r tree') : tree.name = tree'.name := by
  cases h
  rfl

theorem Corresponds.parent (h : tree.Corresponds r tree') :
    Option.Rel r.parent tree.parent tree'.parent := by
  cases h with
  | intro hparent => exact hparent

theorem Corresponds.body (h : tree.Corresponds r tree') :
    Node.Corresponds r tree.body tree'.body := by
  cases h with
  | intro _ hbody => exact hbody

theorem CorrespondAll.get {trees trees' : List Tree} (h : CorrespondAll r trees trees')
    (index : Nat) : Option.Rel (Corresponds r) trees[index]? trees'[index]? := by
  induction trees generalizing trees' index with
  | nil =>
    cases h
    exact .none
  | cons tree rest ih =>
    cases h with
    | cons htree hrest =>
    cases index with
    | zero => exact .some htree
    | succ index => exact ih hrest index

/-- The embedded trees of trees of one shape. -/
theorem Corresponds.embedded (h : tree.Corresponds r tree') (index : Nat) :
    Option.Rel (Corresponds r) tree.embedded[index]? tree'.embedded[index]? := by
  cases h with
  | intro _ _ hembedded => exact hembedded.get index

end Tree

/-! ## Rendering -/

/-- Two definitions of one shape. -/
structure Definition.Corresponds (r : Correspondence) (d d' : Definition) : Prop where
  body : Node.Corresponds r d.body d'.body
  owner : d.owner.Corresponds r d'.owner

/-- Adding the definitions of trees of one shape. -/
theorem Definition.Corresponds.add {defined defined' : Definitions}
    (hdefined : Dict.Related (Definition.Corresponds r) defined defined') {owner owner' : Tree}
    (howner : owner.Corresponds r owner') {tree tree' : Tree} (htree : tree.Corresponds r tree') :
    Dict.Related (Definition.Corresponds r) (addDefinitions defined owner tree.blocks)
      (addDefinitions defined' owner' tree'.blocks) :=
  hdefined.foldl_insertNew
    (htree.body.blocks.imp fun _ _ hb => ⟨hb.1, hb.2, howner⟩)

/-- Two insertions of one shape, in the same context. -/
structure Insertion.Corresponds (r : Correspondence) (i i' : Insertion) : Prop where
  tree : i.tree.Corresponds r i'.tree
  owner : i.owner.Corresponds r i'.owner
  context : i.context = i'.context

namespace Access

section Rendering

variable {n₁ n₂ : Type → Type} [Monad n₁] [Monad n₂] {τ₁ τ₂ : Type} [Runs n₁ τ₁] [Runs n₂ τ₂]
  {excuse : Failure → Prop} {F : Failure → Failure → Prop} {S : τ₁ → τ₂ → Prop}

/-- The second access tracks the first one at tags that belong together. -/
structure Corresponds (r : Correspondence) (excuse : Failure → Prop)
    (F : Failure → Failure → Prop) (S : τ₁ → τ₂ → Prop) (a₁ : Access n₁) (a₂ : Access n₂) :
    Prop where
  same : ∀ failure, F failure failure
  maxDepth : a₁.maxDepth = a₂.maxDepth
  print : ∀ context {e e' : Expr}, r.print e e' →
    Tracks excuse F S Eq (a₁.print context e) (a₂.print context e')
  parent : ∀ context {e e' : Expr}, r.parent e e' →
    Tracks excuse F S (Tree.Corresponds r) (a₁.parent context e) (a₂.parent context e')
  insertion? : ∀ context {owner owner' : Tree}, owner.Corresponds r owner' →
    ∀ {span span' target target' clauses clauses'},
    r.«include» span target clauses span' target' clauses' →
    Tracks excuse F S (Option.Rel (Insertion.Corresponds r))
      (a₁.insertion? context owner target clauses) (a₂.insertion? context owner' target' clauses')

namespace Corresponds

variable {a₁ : Access n₁} {a₂ : Access n₂} {render₁ : Insertion → Rendering n₁ String}
  {render₂ : Insertion → Rendering n₂ String} {context : Context} {defined defined' : Definitions}

/-- Bodies of one shape are rendered alike if definitions are. -/
theorem renderBody_of_follow (h : Corresponds r excuse F S a₁ a₂)
    (hdefined : Dict.Related (Definition.Corresponds r) defined defined')
    (hrender : ∀ i i', Insertion.Corresponds r i i' →
      Tracks excuse F S Eq (render₁ i) (render₂ i')) (bound : Nat)
    (hfollow : ∀ name d d', Definition.Corresponds r d d' →
      Tracks excuse F S Eq (a₁.follow render₁ context defined bound name d)
        (a₂.follow render₂ context defined' bound name d'))
    {owner owner' : Tree} (howner : owner.Corresponds r owner') {nodes nodes' : List Node}
    (hnodes : Node.Corresponds r nodes nodes') :
    Tracks excuse F S Eq (a₁.renderBody render₁ context defined bound owner nodes)
      (a₂.renderBody render₂ context defined' bound owner' nodes') := by
  induction hnodes with
  | nil =>
    rw [renderBody_nil, renderBody_nil]
    exact .pure rfl
  | text _ ih =>
    rw [renderBody_cons, renderBody_cons, renderNode_text, renderNode_text]
    exact .join (.pure rfl) ih
  | print he _ ih =>
    rw [renderBody_cons, renderBody_cons, renderNode_print, renderNode_print]
    exact .join (h.print context he) ih
  | @block span span' name body body' rest rest' _ _ ihBody ih =>
    rw [renderBody_cons, renderBody_cons]
    refine .join ?_ ih
    cases hd : Dict.get? defined name with
    | none =>
      rw [renderNode_own _ _ _ _ _ _ hd, renderNode_own _ _ _ _ _ _ (hdefined.get?_none hd)]
      exact ihBody
    | some d =>
      obtain ⟨d', hd', hcorresponds⟩ := hdefined.get?_some hd
      rw [renderNode_defined _ _ _ _ _ _ hd, renderNode_defined _ _ _ _ _ _ hd']
      exact hfollow name d d' hcorresponds
  | «include» hinclude _ ih =>
    rw [renderBody_cons, renderBody_cons, renderNode_include, renderNode_include]
    refine .join ((h.insertion? context howner hinclude).bind ?_) ih
    intro found found' hfound
    cases hfound with
    | none => exact .pure rfl
    | some hinsertion => exact hrender _ _ hinsertion

theorem renderBody (h : Corresponds r excuse F S a₁ a₂)
    (hdefined : Dict.Related (Definition.Corresponds r) defined defined')
    (hrender : ∀ i i', Insertion.Corresponds r i i' →
      Tracks excuse F S Eq (render₁ i) (render₂ i')) (bound : Nat) {owner owner' : Tree}
    (howner : owner.Corresponds r owner') {nodes nodes' : List Node}
    (hnodes : Node.Corresponds r nodes nodes') :
    Tracks excuse F S Eq (a₁.renderBody render₁ context defined bound owner nodes)
      (a₂.renderBody render₂ context defined' bound owner' nodes') := by
  induction bound generalizing owner owner' nodes nodes' with
  | zero =>
    refine h.renderBody_of_follow hdefined hrender 0 (fun name _ _ _ => ?_) howner hnodes
    exact .throw (h.same _)
  | succ bound ih =>
    refine h.renderBody_of_follow hdefined hrender _ (fun name d d' hd => ?_) howner hnodes
    exact ih hd.owner hd.body

/-- Trees of one shape are rendered alike, under definitions of one shape. -/
theorem renderTree (h : Corresponds r excuse F S a₁ a₂) (patience depth : Nat)
    (hdefined : Dict.Related (Definition.Corresponds r) defined defined') {tree tree' : Tree}
    (htree : tree.Corresponds r tree') {owner owner' : Tree} (howner : owner.Corresponds r owner')
    (context : Context) :
    Tracks excuse F S Eq (a₁.renderTree patience depth defined tree owner context)
      (a₂.renderTree patience depth defined' tree' owner' context) := by
  induction depth generalizing defined defined' tree tree' owner owner' context with
  | zero =>
    rw [renderTree_zero, renderTree_zero, h.maxDepth, htree.name]
    exact .throw (h.same _)
  | succ depth ih =>
    have hparents := htree.parent
    generalize hparent : tree.parent = parent at hparents
    generalize hparent' : tree'.parent = parent' at hparents
    cases hparents with
    | none =>
      rw [renderTree_root _ _ _ _ hparent, renderTree_root _ _ _ _ hparent', hdefined.length]
      refine h.renderBody hdefined ?_ _ howner htree.body
      rintro ⟨tree, owner, context⟩ ⟨tree', owner', _⟩ ⟨hinner, hinnerOwner, rfl⟩
      exact ih .nil hinner hinnerOwner context
    | some he =>
      rw [renderTree_child _ _ _ _ hparent, renderTree_child _ _ _ _ hparent']
      refine (h.parent context he).bind ?_
      intro found found' hfound
      exact ih (Definition.Corresponds.add hdefined howner htree) hfound hfound context

theorem render (h : Corresponds r excuse F S a₁ a₂) (patience : Nat) {tree tree' : Tree}
    (htree : tree.Corresponds r tree') (context : Context) :
    Tracks excuse F S Eq (a₁.render patience tree context)
      (a₂.render patience tree' context) := by
  unfold Access.render
  rw [h.maxDepth]
  exact h.renderTree patience _ .nil htree htree context

end Corresponds

end Rendering

end Access

end Stencil
