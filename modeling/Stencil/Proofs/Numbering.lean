import Stencil.Proofs.Lowering
import Stencil.Proofs.Placement

/-!
# The numbers of embedded trees

An embed leaves its body to an embedded tree and an include in its place. The tree is numbered by
how many there were when its body had been assembled, so inner embeds come before outer ones, and
all trees come in the order of the tags that close the embeds. No number is left out, and none is
used for two includes.

Specification: `Reference` for the include of an embedded tree, `Tree.Numbered` for a tree whose
references match the tags of its source.

Results:
* `Item.assembleAll_adds`, `Item.assembleTop_adds`: the references and the embedded trees that a
  step adds.
* `Item.assembleAll_ordered`, `Item.assembleTop_ordered`: the embedded trees are numbered in order,
  and refer to those before them.
* `Tree.parse_numbered`: the tree of a source.
-/

namespace Stencil

/-! ## Specification -/

/-- An include of an embedded tree. -/
structure Reference where
  span : Span
  filename : String
  index : Nat
deriving DecidableEq, Repr

mutual

/-- The includes of embedded trees in a node, at any depth of blocks. -/
def Node.references : Node → List Reference
  | .«include» span (.embedded filename index) _ => [⟨span, filename, index⟩]
  | .block _ _ body => Node.referencesIn body
  | _ => []

/-- The includes of embedded trees in a body. -/
def Node.referencesIn : List Node → List Reference
  | [] => []
  | node :: rest => node.references ++ Node.referencesIn rest

end

/-- The includes of embedded trees in the body of a tree and in those of its embedded trees. -/
def Tree.references (tree : Tree) : List Reference :=
  Node.referencesIn tree.body ++ tree.embedded.flatMap (Node.referencesIn ·.body)

/-- An embedded tree of a template, at its position. -/
structure Tree.EmbeddedAt (name : String) (position : Nat) (tree : Tree) : Prop where
  index : tree.index = some position
  name : tree.name = name
  parent : tree.parent.isSome
  embedded : tree.embedded = []
  /-- It refers to trees before it only. -/
  earlier : ∀ ref ∈ Node.referencesIn tree.body, ref.index < position

/-- The references of a template match the tags of its source. -/
structure Tree.Numbered (tree : Tree) (source : List Lexeme) : Prop where
  embedded : ∀ (position : Nat) (inner : Tree), tree.embedded[position]? = some inner →
    inner.EmbeddedAt tree.name position
  filename : ∀ ref ∈ tree.references, ref.filename = tree.name
  /-- Every embedded tree is referred to once. -/
  once : (tree.references.map Reference.index).Perm (List.range tree.embedded.length)
  number : tree.references.length = (embedTags source).length
  /-- The references stand where the embed tags do. -/
  starts : (tree.references.map (·.span.start)).Perm (embedTags source)
  /-- The number of a reference is that of the tag that closes its embed. -/
  ends : ∀ ref ∈ tree.references, (endTags source)[ref.index]? = some ref.span.stop

/-! ## References -/

namespace Reference

/-- References at the given places, with numbers from the first one on. -/
def numbered (name : String) (first : Nat) (spans : List Span) : List Reference :=
  (spans.zipIdx first).map fun entry => ⟨entry.1, name, entry.2⟩

theorem numbered_append (name : String) (first : Nat) (front back : List Span) :
    numbered name first (front ++ back) =
      numbered name first front ++ numbered name (first + front.length) back := by
  simp [numbered, List.zipIdx_append]

theorem mem_numbered {name : String} {first : Nat} {spans : List Span} {ref : Reference}
    (h : ref ∈ numbered name first spans) :
    ref.filename = name ∧ first ≤ ref.index ∧ spans[ref.index - first]? = some ref.span := by
  simp only [numbered, List.mem_map, Prod.exists] at h
  obtain ⟨span, index, hentry, rfl⟩ := h
  obtain ⟨hle, hspan⟩ := List.mk_mem_zipIdx_iff_le_and_getElem?_sub.mp hentry
  exact ⟨rfl, hle, hspan⟩

theorem index_lt {name : String} {first : Nat} {spans : List Span} {ref : Reference}
    (h : ref ∈ numbered name first spans) : ref.index < first + spans.length := by
  obtain ⟨-, hle, hspan⟩ := mem_numbered h
  have hlt := (List.getElem?_eq_some_iff.mp hspan).1
  omega

theorem map_index_numbered (name : String) (first : Nat) (spans : List Span) :
    (numbered name first spans).map index = List.range' first spans.length := by
  rw [numbered, List.map_map]
  exact List.zipIdx_map_snd first spans

theorem map_span_numbered (name : String) (first : Nat) (spans : List Span) :
    (numbered name first spans).map span = spans := by
  rw [numbered, List.map_map]
  exact List.zipIdx_map_fst first spans

end Reference

theorem Node.referencesIn_append (front back : List Node) :
    Node.referencesIn (front ++ back) = Node.referencesIn front ++ Node.referencesIn back := by
  induction front with
  | nil => rfl
  | cons node rest ih =>
    rw [List.cons_append, Node.referencesIn, Node.referencesIn, ih, List.append_assoc]

/-- References in some trees. -/
def Tree.referencesIn (trees : List Tree) : List Reference :=
  trees.flatMap (Node.referencesIn ·.body)

theorem Tree.referencesIn_append (front back : List Tree) :
    Tree.referencesIn (front ++ back) = Tree.referencesIn front ++ Tree.referencesIn back :=
  List.flatMap_append

/-! ## What a step adds -/

/-- A step from one draft to another adds the embedded trees of embeds at the given places, and
    each is referred to once, in the nodes of the step or in the added trees. -/
def Draft.Adds (name : String) (d : Draft) (spans : List Span) (nodes : List Node) (d' : Draft) :
    Prop :=
  ∃ added, d'.embedded = d.embedded ++ added ∧ added.length = spans.length ∧
    (Node.referencesIn nodes ++ Tree.referencesIn added).Perm
      (Reference.numbered name d.embedded.length spans)

namespace Draft.Adds

variable {name : String} {d d₁ d₂ : Draft} {spans spans' : List Span} {nodes nodes' : List Node}

theorem none (h : Node.referencesIn nodes = []) : Adds name d [] nodes d := by
  refine ⟨[], (List.append_nil _).symm, rfl, ?_⟩
  rw [h]
  exact List.Perm.refl _

theorem append (h : Adds name d spans nodes d₁) (h' : Adds name d₁ spans' nodes' d₂) :
    Adds name d (spans ++ spans') (nodes ++ nodes') d₂ := by
  obtain ⟨added, hembedded, hlength, hrefs⟩ := h
  obtain ⟨added', hembedded', hlength', hrefs'⟩ := h'
  refine ⟨added ++ added', ?_, ?_, ?_⟩
  · rw [hembedded', hembedded, List.append_assoc]
  · rw [List.length_append, List.length_append, hlength, hlength']
  · have hfirst : d₁.embedded.length = d.embedded.length + spans.length := by
      rw [hembedded, List.length_append, hlength]
    rw [hfirst] at hrefs'
    rw [Reference.numbered_append, Node.referencesIn_append, Tree.referencesIn_append,
      List.perm_iff_count]
    intro ref
    have hcount := hrefs.count_eq ref
    have hcount' := hrefs'.count_eq ref
    simp only [List.count_append] at hcount hcount' ⊢
    omega

/-- All references in the nodes are to trees that are there. -/
theorem index_lt (h : Adds name d spans nodes d₁) :
    ∀ ref ∈ Node.referencesIn nodes, ref.index < d₁.embedded.length := by
  obtain ⟨added, hembedded, hlength, hrefs⟩ := h
  intro ref href
  have hmem : ref ∈ Reference.numbered name d.embedded.length spans :=
    hrefs.mem_iff.mp (List.mem_append_left _ href)
  have hlt := Reference.index_lt hmem
  rw [hembedded, List.length_append, hlength]
  exact hlt

/-- The tree of an embed is added after those of the embeds in its body. -/
theorem embed {d' : Draft} (h : Adds name d spans nodes d₁) (span : Span) (parent : Expr)
    (clauses : Clauses)
    (hd' : d'.embedded = d₁.embedded ++
      [⟨name, some parent, nodes, [], some d₁.embedded.length⟩]) :
    Adds name d (spans ++ [span])
      [.«include» span (.embedded name d₁.embedded.length) clauses] d' := by
  obtain ⟨added, hembedded, hlength, hrefs⟩ := h
  have hindex : d₁.embedded.length = d.embedded.length + spans.length := by
    rw [hembedded, List.length_append, hlength]
  refine ⟨added ++ [⟨name, some parent, nodes, [], some d₁.embedded.length⟩], ?_, ?_, ?_⟩
  · rw [hd', hembedded, List.append_assoc]
  · rw [List.length_append, List.length_append, hlength]
    rfl
  · have hnode : Node.referencesIn [.«include» span (.embedded name d₁.embedded.length) clauses] =
        [⟨span, name, d₁.embedded.length⟩] := rfl
    have hnumbered : Reference.numbered name (d.embedded.length + spans.length) [span] =
        [⟨span, name, d₁.embedded.length⟩] := by
      rw [← hindex]
      rfl
    have hadded : ∀ tree : Tree, Tree.referencesIn [tree] = Node.referencesIn tree.body := by
      intro tree
      simp [Tree.referencesIn]
    rw [Reference.numbered_append, hnumbered, hnode, Tree.referencesIn_append, hadded,
      List.perm_iff_count]
    intro ref
    have hcount := hrefs.count_eq ref
    simp only [List.count_append] at hcount ⊢
    omega

end Draft.Adds

/-- The embedded trees of a draft are numbered in order, and refer to those before them. -/
def Draft.Ordered (name : String) (d : Draft) : Prop :=
  ∀ (position : Nat) (tree : Tree), d.embedded[position]? = some tree →
    tree.EmbeddedAt name position

theorem Draft.Ordered.concat {name : String} {d d' : Draft} {tree : Tree} (h : d.Ordered name)
    (hd' : d'.embedded = d.embedded ++ [tree]) (htree : tree.EmbeddedAt name d.embedded.length) :
    d'.Ordered name := by
  intro position inner hinner
  rw [hd'] at hinner
  obtain hlt | hle := Nat.lt_or_ge position d.embedded.length
  · rw [List.getElem?_append_left hlt] at hinner
    exact h position inner hinner
  · rw [List.getElem?_append_right hle, List.getElem?_singleton] at hinner
    split at hinner
    · next hzero =>
      cases hinner
      have hposition : position = d.embedded.length := by omega
      exact hposition ▸ htree
    · cases hinner

namespace Item

mutual

theorem assemble_adds (name : String) : ∀ (item : Item) (d : Draft),
    d.Adds name item.embeds (item.assemble name d).1.toList (item.assemble name d).2
  | .text .., d => by
    simp only [assemble, embeds]
    exact .none rfl
  | .print .., d => by
    simp only [assemble, embeds]
    exact .none rfl
  | .block span blockName body, d => by
    obtain ⟨added, hembedded, hlength, hrefs⟩ := assembleAll_adds name body d
    simp only [assemble, embeds]
    refine ⟨added, hembedded, hlength, ?_⟩
    simpa [Node.referencesIn, Node.references] using hrefs
  | .«include» .., d => by
    simp only [assemble, embeds]
    exact .none rfl
  | .embed span target clauses body, d => by
    have hbody := assembleAll_adds name body d
    simp only [assemble, embeds]
    exact hbody.embed span target clauses rfl
  | .«extends» span _, d => by
    simp only [assemble, embeds]
    exact ⟨[], (List.append_nil _).symm, rfl, List.Perm.refl _⟩

theorem assembleAll_adds (name : String) : ∀ (items : List Item) (d : Draft),
    d.Adds name (embedsIn items) (assembleAll name items d).1 (assembleAll name items d).2
  | [], d => by
    simp only [assembleAll, embedsIn]
    exact .none rfl
  | item :: rest, d => by
    have hitem := assemble_adds name item d
    have hrest := assembleAll_adds name rest (item.assemble name d).2
    simp only [assembleAll, embedsIn]
    exact hitem.append hrest

end

mutual

theorem assemble_ordered (name : String) : ∀ (item : Item) (d : Draft),
    d.Ordered name → (item.assemble name d).2.Ordered name
  | .text .., d, h => by simpa only [assemble] using h
  | .print .., d, h => by simpa only [assemble] using h
  | .block span blockName body, d, h => by
    have hbody := assembleAll_ordered name body d h
    simpa only [assemble] using hbody
  | .«include» .., d, h => by simpa only [assemble] using h
  | .embed span target clauses body, d, h => by
    have hbody := assembleAll_ordered name body d h
    have hadds := assembleAll_adds name body d
    simp only [assemble]
    exact hbody.concat rfl ⟨rfl, rfl, rfl, rfl, hadds.index_lt⟩
  | .«extends» span _, d, h => by
    simp only [assemble]
    exact h

theorem assembleAll_ordered (name : String) : ∀ (items : List Item) (d : Draft),
    d.Ordered name → (assembleAll name items d).2.Ordered name
  | [], d, h => by simpa only [assembleAll] using h
  | item :: rest, d, h => by
    have hitem := assemble_ordered name item d h
    have hrest := assembleAll_ordered name rest (item.assemble name d).2 hitem
    simpa only [assembleAll] using hrest

end

/-- At the top level an `extends` tag adds nothing, and the other items what they add in a body. -/
theorem assembleTop_adds (name : String) (parent : Option Expr) (items : List Item) (d : Draft) :
    d.Adds name (embedsIn items) (assembleTop name parent items d).1.2
      (assembleTop name parent items d).2 := by
  induction items generalizing parent d with
  | nil =>
    simp only [assembleTop, embedsIn]
    exact .none rfl
  | cons item rest ih =>
    rw [embedsIn]
    cases hitem : item.extended? with
    | none =>
      have hadds := assemble_adds name item d
      rw [assembleTop_content name parent hitem]
      exact hadds.append (ih parent (item.assemble name d).2)
    | some expr =>
      cases item with
      | «extends» span other =>
        have hnone : (Item.«extends» span other).embeds = [] := by simp only [embeds]
        rw [hnone, List.nil_append]
        -- a fault leaves the embedded trees as they are
        cases parent with
        | none => exact ih (some other) d
        | some first => exact ih (some first) (d.report span .repeatedExtends)
      | _ => cases hitem

theorem assembleTop_ordered (name : String) (parent : Option Expr) (items : List Item) (d : Draft)
    (h : d.Ordered name) : (assembleTop name parent items d).2.Ordered name := by
  induction items generalizing parent d with
  | nil => exact h
  | cons item rest ih =>
    cases hitem : item.extended? with
    | none =>
      rw [assembleTop_content name parent hitem]
      exact ih parent (item.assemble name d).2 (assemble_ordered name item d h)
    | some expr =>
      cases item with
      | «extends» span other =>
        cases parent with
        | none => exact ih (some other) d h
        | some first => exact ih (some first) (d.report span .repeatedExtends) h
      | _ => cases hitem

end Item

/-! ## The tree of a source -/

namespace Tree

/-- The references of a tree are those of the embeds among its items, in the order of their ends. -/
theorem ofItems_references {name : String} {items : List Item} {tree : Tree}
    (h : Tree.ofItems name items = .ok tree) :
    tree.name = name ∧ tree.embedded.length = (Item.embedsIn items).length ∧
      tree.references.Perm (Reference.numbered name 0 (Item.embedsIn items)) ∧
      ∀ (position : Nat) (inner : Tree), tree.embedded[position]? = some inner →
        inner.EmbeddedAt name position := by
  obtain ⟨rfl, -⟩ := Tree.ofItems_ok h
  obtain ⟨added, hembedded, hlength, hrefs⟩ := Item.assembleTop_adds name none items {}
  have hordered := Item.assembleTop_ordered name none items {} nofun
  rw [List.nil_append] at hembedded
  subst hembedded
  exact ⟨rfl, hlength, hrefs, hordered⟩

/-- Embeds are numbered in the order of the tags that close them: every embedded tree is at its
    number, and is referred to once, from where its embed stands in the source. -/
theorem parse_numbered {name : String} {source : List Char} {tree : Tree}
    (h : Tree.parse name source = .ok tree) :
    tree.name = name ∧ ∃ ls, Syntax.lexemes source = .ok ls ∧ tree.Numbered ls := by
  obtain ⟨items, hitems, htree⟩ := Tree.parse_ok h
  obtain ⟨hname, hlength, hrefs, hordered⟩ := ofItems_references htree
  obtain ⟨ls, hls, hread⟩ := Syntax.parseItems_readAs hitems
  have hstarts := hread.embedTags
  have hnumbered (ref : Reference) (href : ref ∈ tree.references) :=
    Reference.mem_numbered (hrefs.mem_iff.mp href)
  have hspans : (tree.references.map (·.span.start)).Perm
      ((Item.embedsIn items).map Span.start) := by
    have hmap := (hrefs.map Reference.span).map Span.start
    rwa [Reference.map_span_numbered, List.map_map] at hmap
  refine ⟨hname, ls, hls, ?_⟩
  rw [← hname] at hordered
  constructor
  · exact hordered
  · intro ref href
    rw [hname]
    exact (hnumbered ref href).1
  · have hindex := hrefs.map Reference.index
    rw [Reference.map_index_numbered, ← hlength, ← List.range_eq_range'] at hindex
    exact hindex
  · have hcount := (hspans.trans hstarts.symm).length_eq
    rwa [List.length_map] at hcount
  · exact hspans.trans hstarts.symm
  · intro ref href
    obtain ⟨-, -, hspan⟩ := hnumbered ref href
    rw [Nat.sub_zero] at hspan
    rw [hread.endTags, List.getElem?_map, hspan]
    rfl

/-- Two embeds in a block of another one. -/
def nestedEmbeds : List Char :=
  ("\x7b% embed 'a' %\x7d\x7b% block b %\x7d" ++
    "\x7b% embed 'c' %\x7d\x7b% endembed %\x7d" ++ "\x7b% embed 'd' %\x7d\x7b% endembed %\x7d" ++
    "\x7b% endblock %\x7d\x7b% endembed %\x7d").toList

/-- The outer embed starts before the others, and has the last number. -/
theorem parse_numbered_nestedEmbeds :
    ∃ tree ls, Tree.parse "page" nestedEmbeds = .ok tree ∧
      Syntax.lexemes nestedEmbeds = .ok ls ∧ tree.Numbered ls ∧
      tree.references.map Reference.index = [2, 0, 1] := by
  have hindices : (Tree.parse "page" nestedEmbeds).toOption.map
      (fun tree => tree.references.map Reference.index) = some [2, 0, 1] := by decide +kernel
  cases htree : Tree.parse "page" nestedEmbeds with
  | error faults =>
    rw [htree] at hindices
    cases hindices
  | ok tree =>
    rw [htree] at hindices
    obtain ⟨-, ls, hls, hnumbered⟩ := parse_numbered htree
    exact ⟨tree, ls, rfl, hls, hnumbered, Option.some.inj hindices⟩

end Tree

end Stencil
