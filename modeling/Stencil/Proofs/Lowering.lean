import Mathlib.Data.List.Forall2
import Stencil.Proofs.Compiled
import Stencil.Proofs.InPlace

/-!
# Trees and the pages they stand for

A body of nodes stands for items if every include of an embedded tree is an embed whose body is the
body of that tree. The relation is stated by the items and the embedded trees alone, and assembling
a source and both passes respect it.

Results:
* `Stands.mono`: more embedded trees behind the others change nothing.
* `Stands.blocks`, `Stands.blockNames`: the blocks of nodes and of items.
* `Item.assembleAll_stands`: assembling items.
* `Stands.merged`, `Stands.routed`: the two passes.
* `Tree.shows_compiled`: the tree of a compiled template shows the page of its source.
-/

namespace Stencil

open Override Pass

/-- Nodes that stand for items of the template of the given name. The trees are those that its
    includes refer to. -/
inductive Stands (name : String) (trees : List Tree) : List Node → List Item → Prop
  | nil : Stands name trees [] []
  | text {span : Span} {content : String} {nodes : List Node} {items : List Item} :
      Stands name trees nodes items →
      Stands name trees (.text span content :: nodes) (.text span content :: items)
  | print {span : Span} {expr : Expr} {nodes : List Node} {items : List Item} :
      Stands name trees nodes items →
      Stands name trees (.print span expr :: nodes) (.print span expr :: items)
  | block {span : Span} {block : String} {body nodes : List Node} {inner items : List Item} :
      Stands name trees body inner → Stands name trees nodes items →
      Stands name trees (.block span block body :: nodes) (.block span block inner :: items)
  | «include» {span : Span} {target : Expr} {clauses : Clauses} {nodes : List Node}
      {items : List Item} : Stands name trees nodes items →
      Stands name trees (.«include» span (.named target) clauses :: nodes)
        (.«include» span target clauses :: items)
  | embed {span : Span} {clauses : Clauses} {index : Nat} {tree : Tree} {parent : Expr}
      {nodes : List Node} {inner items : List Item} :
      trees[index]? = some tree → tree.name = name → tree.parent = some parent →
      Stands name trees tree.body inner → Stands name trees nodes items →
      Stands name trees (.«include» span (.embedded name index) clauses :: nodes)
        (.embed span parent clauses inner :: items)

namespace Stands

variable {name : String} {trees : List Tree} {nodes : List Node} {items : List Item}

/-- More embedded trees behind the others change nothing. -/
theorem mono {more : List Tree} (hmore : trees <+: more) (h : Stands name trees nodes items) :
    Stands name more nodes items := by
  induction h with
  | nil => exact .nil
  | text _ ih => exact .text ih
  | print _ ih => exact .print ih
  | block _ _ ihBody ih => exact .block ihBody ih
  | «include» _ ih => exact .«include» ih
  | embed htree hname hparent _ _ ihBody ih =>
    obtain ⟨back, rfl⟩ := hmore
    have hsame : (trees ++ back)[_]? = trees[_]? :=
      List.getElem?_append_left (List.getElem?_eq_some_iff.1 htree).1
    exact .embed (hsame.trans htree) hname hparent ihBody ih

theorem append {nodes' : List Node} {items' : List Item} (h : Stands name trees nodes items)
    (h' : Stands name trees nodes' items') :
    Stands name trees (nodes ++ nodes') (items ++ items') := by
  induction h with
  | nil => exact h'
  | text _ ih => exact .text ih
  | print _ ih => exact .print ih
  | block hbody _ _ ih => exact .block hbody ih
  | «include» _ ih => exact .«include» ih
  | embed htree hname hparent hbody _ _ ih => exact .embed htree hname hparent hbody ih

/-- The blocks in nodes stand for the blocks in items. -/
theorem blocks (h : Stands name trees nodes items) :
    List.Forall₂ (fun b q => b.name = q.1 ∧ Stands name trees b.body q.2) (Node.blocksIn nodes)
      (Item.blocksIn items) := by
  induction h with
  | nil => exact .nil
  | text _ ih => rwa [Node.blocksIn_leaf (Node.text_isLeaf ..)]
  | print _ ih => rwa [Node.blocksIn_leaf (Node.print_isLeaf ..)]
  | @block span block body nodes inner items hbody _ ihBody ih =>
    have hitems : Item.blocksIn (.block span block inner :: items) =
        (block, inner) :: (Item.blocksIn inner ++ Item.blocksIn items) := by
      simp only [Item.blocksIn, Item.blocks, List.cons_append]
    rw [Node.blocksIn_block, hitems]
    exact .cons ⟨rfl, hbody⟩ (List.rel_append ihBody ih)
  | «include» _ ih => rwa [Node.blocksIn_leaf (Node.include_isLeaf ..)]
  | embed _ _ _ _ _ _ ih => rwa [Node.blocksIn_leaf (Node.include_isLeaf ..)]

/-- The blocks of the nodes have the names of the blocks of the items. -/
theorem blockNames (h : Stands name trees nodes items) :
    Node.blockNames nodes = (Item.blocksIn items).map Prod.fst := by
  have hblocks := h.blocks
  unfold Node.blockNames
  revert hblocks
  generalize Node.blocksIn nodes = blocks
  generalize Item.blocksIn items = blocks'
  intro hblocks
  induction hblocks with
  | nil => rfl
  | cons hbq _ ih => rw [List.map_cons, List.map_cons, hbq.1, ih]

end Stands

/-! ## Assembling -/

namespace Item

mutual

/-- Assembling an item adds to what is there already, and gives a node that stands for the item
    unless there are faults. -/
theorem assemble_stands (name : String) : ∀ (item : Item) (d : Draft),
    d.embedded <+: (item.assemble name d).2.embedded ∧ d.faults <+: (item.assemble name d).2.faults ∧
      ((item.assemble name d).2.faults = [] →
        Stands name (item.assemble name d).2.embedded (item.assemble name d).1.toList [item])
  | .text .., d => by
    simp only [assemble]
    exact ⟨List.prefix_rfl, List.prefix_rfl, fun _ => .text .nil⟩
  | .print .., d => by
    simp only [assemble]
    exact ⟨List.prefix_rfl, List.prefix_rfl, fun _ => .print .nil⟩
  | .block span blockName body, d => by
    obtain ⟨hembedded, hfaults, hstands⟩ := assembleAll_stands name body d
    simp only [assemble]
    exact ⟨hembedded, hfaults, fun h => .block (hstands h) .nil⟩
  | .«include» .., d => by
    simp only [assemble]
    exact ⟨List.prefix_rfl, List.prefix_rfl, fun _ => .«include» .nil⟩
  | .embed span target clauses body, d => by
    obtain ⟨hembedded, hfaults, hstands⟩ := assembleAll_stands name body d
    simp only [assemble, Draft.checkBody]
    refine ⟨hembedded.trans (List.prefix_append ..), hfaults.trans (List.prefix_append ..), ?_⟩
    intro h
    have hbody := (hstands (List.append_eq_nil_iff.1 h).1).mono (List.prefix_append _
      [⟨name, some target, (assembleAll name body d).1, [],
        some (assembleAll name body d).2.embedded.length⟩])
    exact .embed List.getElem?_concat_length rfl rfl hbody .nil
  | .«extends» span _, d => by
    simp only [assemble, Draft.report]
    exact ⟨List.prefix_rfl, List.prefix_append .., fun h => by simp at h⟩

theorem assembleAll_stands (name : String) : ∀ (items : List Item) (d : Draft),
    d.embedded <+: (assembleAll name items d).2.embedded ∧
      d.faults <+: (assembleAll name items d).2.faults ∧
      ((assembleAll name items d).2.faults = [] →
        Stands name (assembleAll name items d).2.embedded (assembleAll name items d).1 items)
  | [], d => by
    simp only [assembleAll]
    exact ⟨List.prefix_rfl, List.prefix_rfl, fun _ => .nil⟩
  | item :: rest, d => by
    obtain ⟨hembedded, hfaults, hitem⟩ := assemble_stands name item d
    obtain ⟨hembedded', hfaults', hrest⟩ := assembleAll_stands name rest (item.assemble name d).2
    simp only [assembleAll]
    refine ⟨hembedded.trans hembedded', hfaults.trans hfaults', fun h => ?_⟩
    have hnone : (item.assemble name d).2.faults = [] := List.prefix_nil.1 (h ▸ hfaults')
    exact ((hitem hnone).mono hembedded').append (hrest h)

end

theorem assembleTop_content (name : String) (parent : Option Expr) {item : Item}
    (h : item.extended? = none) (rest : List Item) (d : Draft) :
    assembleTop name parent (item :: rest) d =
      ((((assembleTop name parent rest (item.assemble name d).2).1.1),
        (item.assemble name d).1.toList ++
          (assembleTop name parent rest (item.assemble name d).2).1.2),
        (assembleTop name parent rest (item.assemble name d).2).2) := by
  cases item with
  | «extends» => cases h
  | _ => rfl

/-- Assembling the items at the top level gives the first extended template, and nodes that stand for
    all items but the `extends` tags unless there are faults. -/
theorem assembleTop_stands (name : String) (parent : Option Expr) (items : List Item) (d : Draft) :
    d.faults <+: (assembleTop name parent items d).2.faults ∧
      d.embedded <+: (assembleTop name parent items d).2.embedded ∧
      (assembleTop name parent items d).1.1 = parent.or (items.findSome? extended?) ∧
      ((assembleTop name parent items d).2.faults = [] →
        Stands name (assembleTop name parent items d).2.embedded
          (assembleTop name parent items d).1.2 (items.filter (·.extended?.isNone))) := by
  induction items generalizing parent d with
  | nil => exact ⟨List.prefix_rfl, List.prefix_rfl, Option.or_none.symm, fun _ => .nil⟩
  | cons item rest ih =>
    cases hitem : item.extended? with
    | none =>
      obtain ⟨hembedded, hfaults, hstands⟩ := assemble_stands name item d
      obtain ⟨hfaults', hembedded', hparent, hrest⟩ := ih parent (item.assemble name d).2
      rw [assembleTop_content name parent hitem]
      refine ⟨hfaults.trans hfaults', hembedded.trans hembedded', ?_, fun h => ?_⟩
      · rw [hparent, List.findSome?_cons_of_isNone (by simp [hitem])]
      · have hnone : (item.assemble name d).2.faults = [] := List.prefix_nil.1 (h ▸ hfaults')
        have hfilter : (item :: rest).filter (·.extended?.isNone) =
            [item] ++ rest.filter (·.extended?.isNone) := by simp [hitem]
        rw [hfilter]
        exact ((hstands hnone).mono hembedded').append (hrest h)
    | some expr =>
      cases item with
      | «extends» span other =>
        cases hitem
        have hfilter : (Item.«extends» span expr :: rest).filter (·.extended?.isNone) =
            rest.filter (·.extended?.isNone) := by simp [extended?]
        have hfind : (Item.«extends» span expr :: rest).findSome? extended? = some expr := rfl
        rw [hfilter, hfind]
        cases parent with
        | none =>
          obtain ⟨hfaults, hembedded, hparent, hrest⟩ := ih (some expr) d
          exact ⟨hfaults, hembedded, hparent, hrest⟩
        | some first =>
          obtain ⟨hfaults, hembedded, hparent, hrest⟩ := ih (some first) (d.report span .repeatedExtends)
          exact ⟨(List.prefix_append ..).trans hfaults, hembedded, hparent, hrest⟩
      | _ => cases hitem

end Item

/-! ## Trees that show pages -/

/-- A tree with the given owner of the embedded trees in it shows a page. -/
structure Tree.Shows (tree owner : Tree) (page : Page) : Prop where
  name : tree.name = page.name
  parent : tree.parent = page.parent
  body : Stands page.name owner.embedded tree.body page.body

/-- The tree of a template shows the page of its items. -/
theorem Tree.shows_ofItems {name : String} {items : List Item} {tree : Tree}
    (h : Tree.ofItems name items = .ok tree) : tree.Shows tree (Page.ofItems name items) := by
  obtain ⟨rfl, hfaults⟩ := Tree.ofItems_ok h
  obtain ⟨-, -, hparent, hstands⟩ := Item.assembleTop_stands name none items {}
  exact ⟨rfl, hparent.trans Option.none_or, hstands hfaults⟩

/-! ## The passes -/

namespace Stands

variable {name : String} {trees : List Tree} {nodes : List Node} {items : List Item}

theorem mergeText (h : Stands name trees nodes items) :
    Stands name trees (Stencil.mergeText nodes) (Item.mergeText items) := by
  induction h with
  | nil => exact .nil
  | @text span content nodes items _ ih =>
    simp only [Stencil.mergeText, Item.mergeText]
    split
    · exact ih
    · revert ih
      generalize Stencil.mergeText nodes = nodes'
      generalize Item.mergeText items = items'
      intro ih
      cases ih with
      | text h => exact .text h
      | nil => exact .text .nil
      | print h => exact .text (.print h)
      | block hbody h => exact .text (.block hbody h)
      | «include» h => exact .text (.«include» h)
      | embed htree hname hparent hbody h => exact .text (.embed htree hname hparent hbody h)
  | print _ ih => exact .print ih
  | block hbody _ _ ih => exact .block hbody ih
  | «include» _ ih => exact .«include» ih
  | embed htree hname hparent hbody _ _ ih => exact .embed htree hname hparent hbody ih

theorem merged (h : Stands name trees nodes items) :
    Stands name (Tree.changeAll mergeTree mergeNode trees) (Node.changeAll mergeNode nodes)
      (Item.mergedAll items) := by
  induction h with
  | nil => exact .nil
  | text _ ih => exact .text ih
  | print _ ih => exact .print ih
  | block _ _ ihBody ih => exact .block ihBody.mergeText ih
  | «include» _ ih => exact .«include» ih
  | @embed span clauses index tree parent nodes inner items htree hname hparent _ _ ihBody ih =>
    have htree' : (Tree.changeAll mergeTree mergeNode trees)[index]? = some tree.merged := by
      rw [Tree.changeAll_eq_map, List.getElem?_map, htree]
      rfl
    obtain ⟨_, _, body, embedded, _⟩ := tree
    exact .embed htree' hname hparent ihBody.mergeText ih

/-- A pass that refuses no include of an embedded tree finds a name in it. -/
theorem name_of_accepts {filename : String} {span : Span} {index : Nat} {clauses : Clauses}
    (h : Accepts routeNode [.«include» span (.embedded filename index) clauses]) :
    filename ≠ "" := by
  rintro rfl
  obtain ⟨node, hnode⟩ := accepts_tag.1 h
  cases hnode

/-- The second pass changes nodes and items alike, if it refuses no tag. -/
theorem routed (h : Stands name trees nodes items) (htrees : Accepts routeNode (Tree.tagsInAll trees))
    (hnodes : Accepts routeNode (Node.tagsIn nodes)) :
    Stands name (Tree.changeAll routeTree routedNode trees) (Node.changeAll routedNode nodes)
      (Item.routedAll name items) := by
  induction h with
  | nil => exact .nil
  | text _ ih => exact .text (ih hnodes)
  | print _ ih =>
    rw [Node.tagsIn, accepts_append] at hnodes
    exact .print (ih hnodes.2)
  | block _ _ ihBody ih =>
    rw [Node.tagsIn, Node.tags, accepts_append] at hnodes
    exact .block (ihBody hnodes.1) (ih hnodes.2)
  | «include» _ ih =>
    rw [Node.tagsIn, accepts_append] at hnodes
    exact .«include» (ih hnodes.2)
  | @embed span clauses index tree parent nodes inner items htree hname hparent _ _ ihBody ih =>
    rw [Node.tagsIn, Node.tags_include, accepts_append] at hnodes
    have hinner := ihBody (Tree.accepts_of_mem (List.mem_of_getElem? htree) htrees)
    have htree' : (Tree.changeAll routeTree routedNode trees)[index]? = some tree.routed := by
      rw [Tree.changeAll_eq_map, List.getElem?_map, htree]
      rfl
    obtain ⟨_, _, body, embedded, _⟩ := tree
    have hparent' : (Option.map routedParent _) = some (routedParent parent) :=
      congrArg (Option.map routedParent) hparent
    rw [Node.changeAll, Node.change_include, routedNode_embedded span (name_of_accepts hnodes.1)]
    exact .embed htree' hname hparent' hinner (ih hnodes.2)

end Stands

namespace Tree.Shows

variable {tree : Tree} {page : Page}

theorem merged (h : tree.Shows tree page) : tree.merged.Shows tree.merged page.merged := by
  obtain ⟨name, parent, body, embedded, index⟩ := tree
  exact ⟨h.name, h.parent, h.body.merged.mergeText⟩

theorem routed (h : tree.Shows tree page) (haccepts : Accepts routeNode tree.tags) :
    tree.routed.Shows tree.routed page.routed := by
  obtain ⟨name, parent, body, embedded, index⟩ := tree
  rw [Tree.tags, accepts_append] at haccepts
  exact ⟨h.name, congrArg (Option.map routedParent) h.parent,
    h.body.routed haccepts.1 haccepts.2⟩

/-- The tree after the passes shows the page after the passes. -/
theorem compiled {overridden : Bool} (h : tree.Shows tree page)
    (hfine : Engine.Fine overridden tree) :
    (tree.compiled overridden).Shows (tree.compiled overridden) (page.compiled overridden) := by
  cases overridden with
  | false => exact h.merged
  | true =>
    have haccepts : Accepts routeNode tree.merged.tags := by
      rw [Tree.tags_merged]
      exact hfine rfl
    exact h.merged.routed haccepts

end Tree.Shows

/-- The tree of a compiled template shows the page of its source. -/
theorem Tree.shows_compiled {overridden : Bool} {name source : String} {tree : Tree}
    (h : Tree.parse name source.toList = .ok tree) (hfine : Engine.Fine overridden tree) :
    (tree.compiled overridden).Shows (tree.compiled overridden)
      (Page.ofSource overridden name source) := by
  obtain ⟨items, hitems, htree⟩ := Tree.parse_ok h
  rw [Page.ofSource, hitems]
  exact (Tree.shows_ofItems htree).compiled hfine

end Stencil
