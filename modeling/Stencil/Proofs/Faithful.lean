import Stencil.Proofs.Extents
import Stencil.Proofs.Numbering
import Stencil.Proofs.Routed

/-!
# The spans of a tree

A tree is assembled from items that stand one after the other, each with its parts in its span. Most
of them keep their span as they become nodes. An embed is taken apart: its include keeps the span,
but the expression of the embed and its body go to an embedded tree, which is found by its number
alone. That tree still lies in the span of the include.

Specification: `Node.Faithful` for a node with all that is in it, `Tree.Faithful` for a tree with
its embedded trees.

Results:
* `Draft.Assembled.append`, `Draft.Assembled.embed`: what a step of the assembly keeps.
* `Item.assembleAll_faithful`, `Item.assembleTop_faithful`: the nodes of faithful items.
* `Tree.parse_faithful`: the tree of a source.
-/

namespace Stencil

/-! ## Specification -/

namespace Node

/-- The nodes of the body of a block. -/
def body : Node → List Node
  | .block _ _ body => body
  | _ => []

/-- What a piece of text says. -/
def text? : Node → Option String
  | .text _ content => some content
  | _ => none

/-- A node is in another one: it is that one, or is in a node of its body. -/
inductive Inside (sub : Node) : Node → Prop
  | self : Inside sub sub
  | part {child node : Node} : child ∈ node.body → Inside sub child → Inside sub node

/-- The span of a node is sound, and holds those of its expressions and of its body. -/
structure Sound (source : List Char) (tokens : List Lexeme) (node : Node) : Prop where
  span : node.span.Sound source tokens
  exprs : ∀ e ∈ node.exprs, e.Faithful source tokens
  /-- This holds at any depth. -/
  exprsWithin : ∀ e ∈ node.exprs, ∀ sub : Expr, sub.Inside e → sub.span.Within node.span
  bodyWithin : ∀ inner ∈ node.body, inner.span.Within node.span
  ordered : (node.body.map Node.span).Pairwise Span.Before
  /-- A text is that of its span. -/
  text : ∀ content ∈ node.text?, node.span.Covers source content

/-- A node is sound, and so are all nodes in it. -/
def Faithful (source : List Char) (tokens : List Lexeme) (node : Node) : Prop :=
  ∀ sub : Node, sub.Inside node → sub.Sound source tokens

end Node

namespace Tree

/-- The expression of the extended template and the nodes of the body are faithful, and the nodes
    stand one after the other. -/
structure Sound (source : List Char) (tokens : List Lexeme) (tree : Tree) : Prop where
  parent : ∀ e ∈ tree.parent, e.Faithful source tokens
  body : ∀ node ∈ tree.body, node.Faithful source tokens
  ordered : (tree.body.map Node.span).Pairwise Span.Before

/-- A tree lies in an extent of the source. -/
structure LiesIn (extent : Span) (tree : Tree) : Prop where
  parent : ∀ e ∈ tree.parent, e.span.Within extent
  body : ∀ node ∈ tree.body, node.span.Within extent

/-- A tree and its embedded trees keep to the source. Embedded trees have none of their own. -/
structure Faithful (source : List Char) (tokens : List Lexeme) (tree : Tree) : Prop where
  sound : ∀ part ∈ tree :: tree.embedded, part.Sound source tokens
  flat : ∀ inner ∈ tree.embedded, inner.embedded = []
  /-- An embedded tree lies in the span of the include that refers to it. -/
  references : ∀ ref ∈ tree.references,
    ∃ inner, tree.embedded[ref.index]? = some inner ∧ inner.LiesIn ref.span

end Tree

variable {source : List Char} {tokens : List Lexeme}

/-! ## Nodes -/

namespace Node

/-- A node is faithful if it is sound and its body is faithful. -/
theorem faithful_of_body {node : Node} (h : node.Sound source tokens)
    (hbody : ∀ inner ∈ node.body, inner.Faithful source tokens) : node.Faithful source tokens := by
  intro sub hsub
  cases hsub with
  | self => exact h
  | part hchild hsub => exact hbody _ hchild sub hsub

/-- A node without a body, with expressions that stand in its span. -/
theorem faithful_of_exprs {node : Node} (hspan : node.span.Sound source tokens)
    (hexprs : ∀ e ∈ node.exprs, e.StandsIn source tokens node.span) (hbody : node.body = [])
    (htext : ∀ content ∈ node.text?, node.span.Covers source content) :
    node.Faithful source tokens := by
  refine faithful_of_body ⟨hspan, fun e he => (hexprs e he).faithful, fun e he sub hsub => ?_,
    ?_, ?_, htext⟩ ?_
  · exact ((hexprs e he).faithful.within hsub).trans (hexprs e he).within
  all_goals simp [hbody]

/-- A block with faithful nodes in its span, one after the other. -/
theorem faithful_block {span : Span} {name : String} {body : List Node}
    (hspan : span.Sound source tokens) (hbody : ∀ inner ∈ body, inner.Faithful source tokens)
    (hwithin : ∀ inner ∈ body, inner.span.Within span)
    (hordered : (body.map Node.span).Pairwise Span.Before) :
    (Node.block span name body).Faithful source tokens :=
  faithful_of_body ⟨hspan, List.forall_mem_nil _, List.forall_mem_nil _, hwithin, hordered,
    fun content h => by cases h⟩ hbody

end Node

/-! ## What a step assembles -/

/-- A reference to one of some trees, which lies in its span. -/
def Reference.Encloses (ref : Reference) (trees : List Tree) : Prop :=
  ∃ inner, trees[ref.index]? = some inner ∧ inner.LiesIn ref.span

theorem Reference.Encloses.mono {ref : Reference} {trees more : List Tree}
    (h : ref.Encloses trees) (hmore : trees <+: more) : ref.Encloses more := by
  obtain ⟨inner, hinner, hlies⟩ := h
  obtain ⟨hlt, -⟩ := List.getElem?_eq_some_iff.mp hinner
  refine ⟨inner, ?_, hlies⟩
  rw [← hinner]
  exact (List.prefix_iff_getElem?.mp hmore _ hlt).trans (List.getElem?_eq_getElem hlt).symm

namespace Draft

/-- The embedded trees of a draft are sound, and each lies in the span of what refers to it. -/
structure Faithful (source : List Char) (tokens : List Lexeme) (d : Draft) : Prop where
  sound : ∀ tree ∈ d.embedded, tree.Sound source tokens
  flat : ∀ tree ∈ d.embedded, tree.embedded = []
  references : ∀ ref ∈ Tree.referencesIn d.embedded, ref.Encloses d.embedded

/-- The faults of a draft do not matter. -/
theorem Faithful.congr {d d' : Draft} (h : d.Faithful source tokens)
    (hd' : d'.embedded = d.embedded) : d'.Faithful source tokens := by
  obtain ⟨hsound, hflat, hrefs⟩ := h
  rw [← hd'] at hsound hflat hrefs
  exact ⟨hsound, hflat, hrefs⟩

/-- A step from one draft to another makes faithful nodes of some items, in the same order. -/
structure Assembled (source : List Char) (tokens : List Lexeme) (d : Draft) (items : List Item)
    (nodes : List Node) (d' : Draft) : Prop where
  draft : d'.Faithful source tokens
  grows : d.embedded <+: d'.embedded
  faithful : ∀ node ∈ nodes, node.Faithful source tokens
  references : ∀ ref ∈ Node.referencesIn nodes, ref.Encloses d'.embedded
  /-- An item that becomes a node keeps its span. -/
  spans : (nodes.map Node.span).Sublist (items.map Item.span)

namespace Assembled

variable {d d₁ d₂ : Draft} {items items' : List Item} {nodes nodes' : List Node}

theorem none (h : d.Faithful source tokens) : Assembled source tokens d items [] d :=
  ⟨h, List.prefix_rfl, List.forall_mem_nil _, List.forall_mem_nil _, List.nil_sublist _⟩

theorem congr (h : Assembled source tokens d items nodes d₁) (hd : d₂.embedded = d₁.embedded) :
    Assembled source tokens d items nodes d₂ where
  draft := h.draft.congr hd
  grows := hd ▸ h.grows
  faithful := h.faithful
  references := hd ▸ h.references
  spans := h.spans

theorem append (h : Assembled source tokens d items nodes d₁)
    (h' : Assembled source tokens d₁ items' nodes' d₂) :
    Assembled source tokens d (items ++ items') (nodes ++ nodes') d₂ where
  draft := h'.draft
  grows := h.grows.trans h'.grows
  faithful := List.forall_mem_append.mpr ⟨h.faithful, h'.faithful⟩
  references := by
    rw [Node.referencesIn_append]
    refine List.forall_mem_append.mpr ⟨fun ref href => ?_, h'.references⟩
    exact (h.references ref href).mono h'.grows
  spans := by
    rw [List.map_append, List.map_append]
    exact h.spans.append h'.spans

/-- Nodes of items in an extent lie in it. -/
theorem within (h : Assembled source tokens d items nodes d₁) {extent : Span}
    (hitems : ∀ item ∈ items, item.span.Within extent) :
    ∀ node ∈ nodes, node.span.Within extent := by
  intro node hnode
  obtain ⟨item, hitem, hspan⟩ :=
    List.mem_map.mp (h.spans.subset (List.mem_map_of_mem (f := Node.span) hnode))
  exact hspan ▸ hitems item hitem

/-- Nodes of items that stand one after the other do so too. -/
theorem ordered (h : Assembled source tokens d items nodes d₁)
    (hitems : (items.map Item.span).Pairwise Span.Before) :
    (nodes.map Node.span).Pairwise Span.Before :=
  hitems.sublist h.spans

/-- An item without a body becomes a node with the same expressions. -/
theorem leaf {item : Item} {node : Node} (hd : d.Faithful source tokens)
    (hitem : item.Faithful source tokens) (hspan : node.span = item.span)
    (hexprs : node.exprs = item.exprs) (hbody : node.body = [])
    (hrefs : node.references = []) (htext : node.text? = item.text?) :
    Assembled source tokens d [item] [node] d where
  draft := hd
  grows := List.prefix_rfl
  faithful := by
    obtain ⟨hsound, hitemExprs, -, -, -, hcovers⟩ := hitem
    rw [← hspan] at hsound
    refine List.forall_mem_singleton.mpr (Node.faithful_of_exprs hsound ?_ hbody ?_)
    · rwa [hspan, hexprs]
    · rwa [hspan, htext]
  references := by
    rw [Node.referencesIn, hrefs]
    exact List.forall_mem_nil _
  spans := by
    rw [List.map_singleton, List.map_singleton, hspan]

/-- A block becomes a block. -/
theorem block {span : Span} {name : String}
    (hitem : (Item.block span name items).Faithful source tokens)
    (h : Assembled source tokens d items nodes d₁) :
    Assembled source tokens d [.block span name items] [.block span name nodes] d₁ where
  draft := h.draft
  grows := h.grows
  faithful := by
    obtain ⟨hspan, -, -, hwithin, hordered, -⟩ := hitem
    exact List.forall_mem_singleton.mpr
      (Node.faithful_block hspan h.faithful (h.within hwithin) (h.ordered hordered))
  references := by
    have hrefs : Node.referencesIn [.block span name nodes] = Node.referencesIn nodes := by
      simp [Node.referencesIn, Node.references]
    rw [hrefs]
    exact h.references
  spans := List.Sublist.refl _

/-- An embed becomes an include in its place, and its expression and body an embedded tree. -/
theorem embed {d' : Draft} {name : String} {span : Span} {target : Expr} {clauses : Clauses}
    (hitem : (Item.embed span target clauses items).Faithful source tokens)
    (h : Assembled source tokens d items nodes d₁)
    (hd' : d'.embedded = d₁.embedded ++
      [⟨name, some target, nodes, [], some d₁.embedded.length⟩]) :
    Assembled source tokens d [.embed span target clauses items]
      [.«include» span (.embedded name d₁.embedded.length) clauses] d' := by
  obtain ⟨hspan, hexprs, -, hwithin, hordered, -⟩ := hitem
  obtain ⟨htarget, hbindings⟩ := List.forall_mem_cons.mp hexprs
  have hgrows : d₁.embedded <+: d'.embedded := ⟨_, hd'.symm⟩
  refine ⟨⟨?sound, ?flat, ?references⟩, h.grows.trans hgrows, ?node, ?reference,
    List.Sublist.refl _⟩
  case sound =>
    rw [hd']
    refine List.forall_mem_append.mpr ⟨h.draft.sound, List.forall_mem_singleton.mpr ?_⟩
    refine ⟨?_, h.faithful, h.ordered hordered⟩
    rintro _ ⟨⟩
    exact htarget.faithful
  case flat =>
    rw [hd']
    exact List.forall_mem_append.mpr ⟨h.draft.flat, List.forall_mem_singleton.mpr rfl⟩
  case references =>
    intro ref href
    rw [hd', Tree.referencesIn_append] at href
    obtain href | href := List.mem_append.mp href
    · exact (h.draft.references ref href).mono hgrows
    · rw [Tree.referencesIn, List.flatMap_singleton] at href
      exact (h.references ref href).mono hgrows
  case node =>
    exact List.forall_mem_singleton.mpr
      (Node.faithful_of_exprs hspan hbindings rfl fun content h => by cases h)
  case reference =>
    have hlies : Tree.LiesIn span ⟨name, some target, nodes, [], some d₁.embedded.length⟩ := by
      refine ⟨?_, h.within hwithin⟩
      rintro _ ⟨⟩
      exact htarget.within
    refine List.forall_mem_singleton.mpr ⟨_, ?_, hlies⟩
    rw [hd']
    exact List.getElem?_concat_length

end Assembled

end Draft

/-! ## Assembling items -/

namespace Item

open Draft (Assembled)

mutual

theorem assemble_faithful (name : String) : ∀ (item : Item) (d : Draft),
    item.Faithful source tokens → d.Faithful source tokens →
      Assembled source tokens d [item] (item.assemble name d).1.toList (item.assemble name d).2
  | .text .., d, h, hd => by
    simp only [assemble]
    exact .leaf hd h rfl rfl rfl rfl rfl
  | .print .., d, h, hd => by
    simp only [assemble]
    exact .leaf hd h rfl rfl rfl rfl rfl
  | .block span blockName body, d, h, hd => by
    have hbody := assembleAll_faithful name body d (by cases h; assumption) hd
    simp only [assemble]
    exact hbody.block h
  | .«include» .., d, h, hd => by
    simp only [assemble]
    exact .leaf hd h rfl rfl rfl rfl rfl
  | .embed span target clauses body, d, h, hd => by
    have hbody := assembleAll_faithful name body d (by cases h; assumption) hd
    have hchecked : Assembled source tokens d body (assembleAll name body d).1
        ((assembleAll name body d).2.checkBody (assembleAll name body d).1) := hbody.congr rfl
    simp only [assemble]
    exact hchecked.embed h rfl
  | .«extends» span _, d, _, hd => by
    simp only [assemble]
    exact (Assembled.none hd).congr rfl

theorem assembleAll_faithful (name : String) : ∀ (items : List Item) (d : Draft),
    (∀ item ∈ items, item.Faithful source tokens) → d.Faithful source tokens →
      Assembled source tokens d items (assembleAll name items d).1 (assembleAll name items d).2
  | [], d, _, hd => by
    simp only [assembleAll]
    exact .none hd
  | item :: rest, d, h, hd => by
    obtain ⟨hitem, hrest⟩ := List.forall_mem_cons.mp h
    have hfirst := assemble_faithful name item d hitem hd
    have hothers := assembleAll_faithful name rest (item.assemble name d).2 hrest hfirst.draft
    simp only [assembleAll]
    exact hfirst.append hothers

end

/-- At the top level an `extends` tag gives its expression. -/
theorem assembleTop_faithful (name : String) (parent : Option Expr) (items : List Item) (d : Draft)
    (hitems : ∀ item ∈ items, item.Faithful source tokens) (hd : d.Faithful source tokens)
    (hparent : ∀ e ∈ parent, e.Faithful source tokens) :
    Assembled source tokens d items (assembleTop name parent items d).1.2
        (assembleTop name parent items d).2 ∧
      ∀ e ∈ (assembleTop name parent items d).1.1, e.Faithful source tokens := by
  induction items generalizing parent d with
  | nil => exact ⟨.none hd, hparent⟩
  | cons item rest ih =>
    obtain ⟨hitem, hrest⟩ := List.forall_mem_cons.mp hitems
    cases hextends : item.extended? with
    | none =>
      have hfirst := assemble_faithful name item d hitem hd
      obtain ⟨hothers, htop⟩ := ih parent (item.assemble name d).2 hrest hfirst.draft hparent
      rw [assembleTop_content name parent hextends]
      exact ⟨hfirst.append hothers, htop⟩
    | some expr =>
      cases item with
      | «extends» span other =>
        have hother : ∀ e ∈ some other, e.Faithful source tokens := by
          obtain ⟨-, hexprs, -⟩ := hitem
          rintro _ ⟨⟩
          exact (hexprs other List.mem_cons_self).faithful
        have hskip : Assembled source tokens d [.«extends» span other] [] d := .none hd
        -- only the first tag counts; another one is at fault, and adds no node either
        cases parent with
        | none =>
          obtain ⟨hothers, htop⟩ := ih (some other) d hrest hd hother
          exact ⟨hskip.append hothers, htop⟩
        | some first =>
          have hfault := hskip.congr (show (d.report span .repeatedExtends).embedded = _ from rfl)
          obtain ⟨hothers, htop⟩ := ih (some first) _ hrest hfault.draft hparent
          exact ⟨hfault.append hothers, htop⟩
      | _ => cases hextends

end Item

/-! ## The tree of a source -/

namespace Tree

/-- Every span of a tree goes from a token to a token of the source, and holds the spans of what
    belongs to it. -/
theorem parse_faithful {name : String} {tree : Tree} (h : Tree.parse name source = .ok tree) :
    ∃ ls, Syntax.lexemes source = .ok ls ∧ tree.Faithful source ls := by
  obtain ⟨items, hitems, htree⟩ := Tree.parse_ok h
  obtain ⟨rfl, -⟩ := Tree.ofItems_ok htree
  obtain ⟨ls, stop, hls, hstand⟩ := Syntax.parseItems_faithful hitems
  have hempty : Draft.Faithful source ls {} :=
    ⟨List.forall_mem_nil _, List.forall_mem_nil _, List.forall_mem_nil _⟩
  obtain ⟨hbody, hparent⟩ :=
    Item.assembleTop_faithful name none items {} hstand.faithful hempty fun e he => by cases he
  refine ⟨ls, hls, List.forall_mem_cons.mpr ⟨⟨hparent, hbody.faithful, ?_⟩, hbody.draft.sound⟩,
    hbody.draft.flat, ?_⟩
  · exact hbody.ordered hstand.ordered
  · exact List.forall_mem_append.mpr ⟨hbody.references, hbody.draft.references⟩

/-- An embed of a field of an expression in parentheses, with another embed in its block. -/
def nestedExtents : List Char :=
  ("é\x7b% embed ('a' ~ b).c with \x7bk: [x, f(1)]\x7d %\x7d\x7b% block b %\x7dü" ++
    "\x7b% embed 'd' %\x7d\x7b% endembed %\x7d\x7b\x7b ('y') ~ z \x7d\x7d" ++
    "\x7b% endblock %\x7d\x7b% endembed %\x7d").toList

/-- The includes have the spans of their embeds, and the expressions of the embeds lie in these. -/
theorem parse_faithful_nestedExtents :
    ∃ tree ls, Tree.parse "page" nestedExtents = .ok tree ∧
      Syntax.lexemes nestedExtents = .ok ls ∧ tree.Faithful nestedExtents ls ∧
      tree.references = [⟨⟨2, 132⟩, "page", 1⟩, ⟨⟨60, 89⟩, "page", 0⟩] ∧
      tree.embedded.map (fun inner => inner.parent.map Expr.span) =
        [some ⟨69, 72⟩, some ⟨12, 22⟩] := by
  have hspans : (Tree.parse "page" nestedExtents).toOption.map (fun tree =>
      (tree.references, tree.embedded.map fun inner => inner.parent.map Expr.span)) =
        some ([⟨⟨2, 132⟩, "page", 1⟩, ⟨⟨60, 89⟩, "page", 0⟩], [some ⟨69, 72⟩, some ⟨12, 22⟩]) := by
    decide +kernel
  cases htree : Tree.parse "page" nestedExtents with
  | error faults =>
    rw [htree] at hspans
    cases hspans
  | ok tree =>
    rw [htree] at hspans
    obtain ⟨ls, hls, hfaithful⟩ := parse_faithful htree
    have hpair := Prod.mk.inj (Option.some.inj hspans)
    exact ⟨tree, ls, rfl, hls, hfaithful, hpair.1, hpair.2⟩

end Tree

end Stencil
