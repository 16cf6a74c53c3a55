import Stencil.Proofs.Lowering
import Stencil.Proofs.Unfolding

/-!
# Inheritance

A tree extends another one, which may extend a third one, and so on: its lineage ends with the first
tree that extends none. What is rendered is the body of that tree. A block in it, however deep it
stands, is replaced by its definition in the nearest descendant that has one, and so are the blocks
in the definition.

The definitions in effect are collected on the way up, the nearest descendant first, while the choice
of a definition is stated here as a search through the descendants.

Results:
* `get?_addDefinitions_lineage`: the definitions collected from a tree and its ancestors.
* `Access.renderTree_lineage`: a tree with any definitions in effect renders the pieces of the last
  tree of its lineage.
* `Item.blockNames_tree`: blocks in the body of an embed are no blocks of the template.
* `Access.renderTree_inherits`: inheritance picks the most derived definition.
-/

namespace Stencil

/-! ## Lineages -/

/-- A tree with the owner of the embedded trees in it. -/
structure Owned where
  tree : Tree
  owner : Tree
deriving Repr, Inhabited

/-- The definition of a block in the first of some trees that has one. In one tree the first block
    of the name counts, an outer block before the ones in it. -/
def definitionIn : List Owned → String → Option Definition
  | [], _ => none
  | m :: rest, name =>
    match Node.firstBlock? m.tree.body name with
    | some block => some ⟨block.body, m.owner⟩
    | none => definitionIn rest name

namespace Access

variable {n : Type → Type} [Monad n] {τ : Type} [Runs n τ]

/-- The trees that a tree leads to in a context: its descendants of the last one, each of which
    extends the next one, and the last one, which extends none. Evaluating the names of the extended
    templates leads from one state to another. -/
inductive Lineage (a : Access n) (context : Context) :
    Owned → τ → List Owned → Owned → τ → Prop
  | base {m : Owned} {s : τ} : m.tree.parent = none → Lineage a context m s [] m s
  | derived {m base : Owned} {parent : Expr} {found : Tree} {rest : List Owned} {s s₁ s' : τ} :
      m.tree.parent = some parent →
      outcome (a.parent context parent) s = some (.ok found, s₁) →
      Lineage a context ⟨found, found⟩ s₁ rest base s' →
      Lineage a context m s (m :: rest) base s'

end Access

/-- Collecting the definitions of a tree puts it before its ancestors. -/
theorem get?_addDefinitions_lineage (defined : Definitions) (m : Owned) (rest : List Owned)
    (name : String) :
    (Dict.get? (addDefinitions defined m.owner m.tree.blocks) name).or (definitionIn rest name) =
      (Dict.get? defined name).or (definitionIn (m :: rest) name) := by
  rw [get?_addDefinitions_tree, Option.or_assoc, definitionIn]
  cases Node.firstBlock? m.tree.body name <;> rfl

namespace Access

variable {n : Type → Type} [Monad n] {τ : Type} [Runs n τ] {a : Access n} {context : Context}

/-- A tree renders the pieces of the last tree of its lineage, under the definitions in effect and
    those of its descendants. -/
theorem renderTree_lineage {m base : Owned} {s s' : τ} {derived : List Owned}
    (h : Lineage a context m s derived base s')
    (hfresh : ∀ d ∈ derived, Node.NestFreshly d.tree.body) {defined : Definitions}
    {rank : String → Nat} (hrank : Ranked defined rank) (patience remaining : Nat) :
    ∃ pieces,
      Unfolds (fun name => (Dict.get? defined name).or (definitionIn derived name)) base.owner
        base.tree.body pieces ∧
      outcome (a.renderTree patience (derived.length + remaining + 1) defined m.tree m.owner context)
          s =
        outcome (a.renderPieces
          (fun i => a.renderTree patience remaining [] i.tree i.owner i.context) context pieces)
          s' := by
  induction h generalizing defined rank with
  | @base m s hroot =>
    -- All definitions are in effect now; the body unfolds under them.
    obtain ⟨pieces, hpieces, hrun⟩ :=
      outcome_renderTree_of_root (τ := τ) a context hrank hroot m.owner patience remaining
    have hchoose : (fun name => (Dict.get? defined name).or (definitionIn [] name)) =
        Dict.get? defined := by
      funext name
      exact Option.or_none
    refine ⟨pieces, by rwa [hchoose], ?_⟩
    rw [List.length_nil, Nat.zero_add, hrun]
  | @derived m base parent found rest s s₁ s' hparent hfound _ ih =>
    obtain ⟨rank, hrank⟩ := hrank.add m.owner (hfresh m List.mem_cons_self)
    obtain ⟨pieces, hpieces, hrun⟩ := ih (fun d hd => hfresh d (List.mem_cons_of_mem m hd)) hrank
    have hchoose : (fun name =>
        (Dict.get? (addDefinitions defined m.owner m.tree.blocks) name).or
          (definitionIn rest name)) =
        fun name => (Dict.get? defined name).or (definitionIn (m :: rest) name) := by
      funext name
      exact get?_addDefinitions_lineage defined m rest name
    refine ⟨pieces, by rwa [hchoose] at hpieces, ?_⟩
    have hlength : (m :: rest).length + remaining + 1 = rest.length + remaining + 1 + 1 := by
      rw [List.length_cons]
      omega
    rw [hlength, renderTree_child _ _ _ _ hparent, outcome_bind_ok hfound, hrun]

end Access

/-! ## Blocks of a source -/

mutual

/-- The names of the blocks in an item. An embed has blocks of its own. -/
def Item.blockNames : Item → List String
  | .block _ name body => name :: Item.blockNamesIn body
  | _ => []

/-- The names of the blocks in some items. -/
def Item.blockNamesIn : List Item → List String
  | [] => []
  | item :: rest => item.blockNames ++ Item.blockNamesIn rest

end

namespace Item

mutual

/-- The blocks of an item have its names. -/
theorem map_blocks : ∀ item : Item, item.blocks.map Prod.fst = item.blockNames
  | .block _ name body => by
    have hbody := map_blocksIn body
    simp only [blocks, blockNames, List.map_cons, hbody]
  | .text .. | .print .. | .«include» .. | .embed .. | .«extends» .. => by
    simp only [blocks, blockNames, List.map_nil]

/-- The blocks of some items have their names. -/
theorem map_blocksIn : ∀ items : List Item, (blocksIn items).map Prod.fst = blockNamesIn items
  | [] => by simp only [blocksIn, blockNamesIn, List.map_nil]
  | item :: rest => by
    have hitem := map_blocks item
    have hrest := map_blocksIn rest
    simp only [blocksIn, blockNamesIn, List.map_append, hitem, hrest]

end

/-- There are no blocks in the `extends` tags. -/
theorem blockNamesIn_content (items : List Item) :
    blockNamesIn (items.filter (·.extended?.isNone)) = blockNamesIn items := by
  induction items with
  | nil => rfl
  | cons item rest ih =>
    cases item with
    | «extends» span expr =>
      have hfilter : (Item.«extends» span expr :: rest).filter (·.extended?.isNone) =
          rest.filter (·.extended?.isNone) := by simp [extended?]
      rw [hfilter, ih]
      simp only [blockNamesIn, blockNames, List.nil_append]
    | _ =>
      rw [List.filter_cons_of_pos rfl]
      simp only [blockNamesIn, ih]

/-- Blocks in the body of an embed are no blocks of the template. -/
theorem blockNames_tree {name : String} {items : List Item} {tree : Tree}
    (h : Tree.ofItems name items = .ok tree) :
    Node.blockNames tree.body = blockNamesIn items :=
  calc Node.blockNames tree.body
      = (blocksIn (Page.ofItems name items).body).map Prod.fst :=
        (Tree.shows_ofItems h).body.blockNames
    _ = blockNamesIn (items.filter (·.extended?.isNone)) := map_blocksIn _
    _ = blockNamesIn items := blockNamesIn_content items

end Item

namespace Access

variable {n : Type → Type} [Monad n] {τ : Type} [Runs n τ] {a : Access n} {context : Context}

/-- Inheritance picks the most derived definition. Rendering a tree is rendering the only pieces
    that the last tree of its lineage has if a block stands for its definition in the nearest
    descendant that has one, and for its own body if there is none. What a descendant defines are
    the blocks of its source, and not those in the body of an embed. -/
theorem renderTree_inherits {m base : Owned} {s s' : τ} {derived : List Owned}
    (h : Lineage a context m s derived base s')
    (hfresh : ∀ d ∈ derived, Node.NestFreshly d.tree.body) (patience remaining : Nat) :
    (∃ pieces,
      (∀ pieces', Unfolds (definitionIn derived) base.owner base.tree.body pieces' ↔
        pieces' = pieces) ∧
      outcome (a.renderTree patience (derived.length + remaining + 1) [] m.tree m.owner context) s =
        outcome (a.renderPieces
          (fun i => a.renderTree patience remaining [] i.tree i.owner i.context) context pieces)
          s') ∧
    ∀ (name : String) (items : List Item) (tree : Tree) (overridden : Bool),
      Tree.ofItems name items = .ok tree →
      Node.blockNames (tree.compiled overridden).body = Item.blockNamesIn items := by
  refine ⟨?_, fun name items tree overridden htree => ?_⟩
  · obtain ⟨pieces, hpieces, hrun⟩ :=
      renderTree_lineage h hfresh (ranked_nil fun _ => 0) patience remaining
    have hchoose : (fun name => (Dict.get? ([] : Definitions) name).or (definitionIn derived name)) =
        definitionIn derived := by
      funext name
      exact Option.none_or
    rw [hchoose] at hpieces
    refine ⟨pieces, fun pieces' => ⟨fun h' => h'.unique hpieces, ?_⟩, hrun⟩
    rintro rfl
    exact hpieces
  · rw [(SameBlocks.compiled overridden tree).1, Item.blockNames_tree htree]

/-- A tree that extends the one of the given name with two definitions, one in the other. -/
def extending (name parent inner : String) : Tree :=
  ⟨name, some (.constant default (.string parent)),
    [.block default "x" [.text default name, .block default "y" [.text default inner]]], [], none⟩

/-- A tree that extends another one, which extends a third one. -/
def descendants : List Owned :=
  [extending "youngest" "middle" "1", extending "middle" "oldest" "2"].map fun t => ⟨t, t⟩

/-- The tree that extends none. -/
def oldest : Tree :=
  ⟨"oldest", none, [.block default "y" [], .text default ", ", .block default "x" []], [], none⟩

/-- A host of these trees. -/
def family : Host Id where
  settings := {}
  function? _ := none
  has _ := true
  load name := .ok (if name = "middle" then extending "middle" "oldest" "2" else oldest)

theorem renderTree_inherits_family :
    ∃ pieces, Unfolds (definitionIn descendants) oldest oldest.body pieces ∧
      outcome (family.access.renderTree 0 8 [] (extending "youngest" "middle" "1")
          (extending "youngest" "middle" "1") []) () =
        outcome (family.access.renderPieces
          (fun i => family.access.renderTree 0 5 [] i.tree i.owner i.context) [] pieces) () := by
  have hlineage : Lineage family.access [] descendants.head! () descendants ⟨oldest, oldest⟩ () :=
    .derived rfl rfl (.derived rfl rfl (.base rfl))
  have hfresh : ∀ d ∈ descendants, Node.NestFreshly d.tree.body := by decide
  obtain ⟨pieces, hpieces, hrun⟩ := (renderTree_inherits hlineage hfresh 0 5).1
  exact ⟨pieces, (hpieces pieces).2 rfl, hrun⟩

end Access

end Stencil
