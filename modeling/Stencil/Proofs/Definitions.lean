import Mathlib.Data.List.Count
import Stencil.Engine.Render

/-!
# Definitions in effect

The definitions in effect when a body is rendered come from the trees that have a parent, the
nearest one first. A definition leads to another one if a block of that name stands in its body. In
a body in which no block contains a block of its own name, the first definitions of the names never
lead around a circle, although they may lead to definitions before and after themselves: the block
of the second definition always ends before that of the first.

Results:
* `get?_addDefinitions`: which definition of a name is in effect.
* `closingIn_lt_closingIn`: a definition leads only to blocks that end earlier.
* `Ranked.add`: the definitions of another tree leave a rank that falls from one definition to the
  next.
* `Ranked.bounded`: such a rank can be chosen below the number of defined names.
-/

namespace Stencil

namespace Node

/-- A node without a body of its own. -/
def IsLeaf : Node → Prop
  | .block .. => False
  | _ => True

theorem text_isLeaf (span : Span) (content : String) : (text span content).IsLeaf := trivial

theorem print_isLeaf (span : Span) (expr : Expr) : (print span expr).IsLeaf := trivial

theorem include_isLeaf (span : Span) (target : Target) (clauses : Clauses) :
    («include» span target clauses).IsLeaf := trivial

/-- Induction over a body and the bodies of the blocks in it. -/
theorem body_induction {motive : List Node → Prop} (nil : motive [])
    (leaf : ∀ node rest, node.IsLeaf → motive rest → motive (node :: rest))
    (block : ∀ span name body rest, motive body → motive rest →
      motive (.block span name body :: rest)) : ∀ nodes, motive nodes
  | [] => nil
  | .text span content :: rest =>
    leaf _ _ (text_isLeaf ..) (body_induction nil leaf block rest)
  | .print span expr :: rest =>
    leaf _ _ (print_isLeaf ..) (body_induction nil leaf block rest)
  | .«include» span target clauses :: rest =>
    leaf _ _ (include_isLeaf ..) (body_induction nil leaf block rest)
  | .block span name body :: rest =>
    block span name body rest (body_induction nil leaf block body)
      (body_induction nil leaf block rest)

/-! ## Names of blocks -/

theorem IsLeaf.blocks_eq {node : Node} (h : node.IsLeaf) : node.blocks = [] := by
  cases node with
  | block => exact h.elim
  | _ => simp only [blocks]

@[simp] theorem blocksIn_nil : blocksIn [] = [] := by simp only [blocksIn]

theorem blocksIn_leaf {node : Node} (h : node.IsLeaf) (rest : List Node) :
    blocksIn (node :: rest) = blocksIn rest := by
  simp only [blocksIn, h.blocks_eq, List.nil_append]

@[simp] theorem blocksIn_block (span : Span) (name : String) (body rest : List Node) :
    blocksIn (.block span name body :: rest) =
      ⟨name, body⟩ :: (blocksIn body ++ blocksIn rest) := by
  simp only [blocksIn, blocks, List.cons_append]

/-- The names of the blocks in a body. -/
def blockNames (nodes : List Node) : List String := (blocksIn nodes).map (·.name)

@[simp] theorem blockNames_nil : blockNames [] = [] := by simp [blockNames]

theorem blockNames_leaf {node : Node} (h : node.IsLeaf) (rest : List Node) :
    blockNames (node :: rest) = blockNames rest := by
  simp only [blockNames, blocksIn_leaf h]

@[simp] theorem blockNames_block (span : Span) (name : String) (body rest : List Node) :
    blockNames (.block span name body :: rest) = name :: (blockNames body ++ blockNames rest) := by
  simp [blockNames]

/-- The first block of a name, an outer block before the ones inside it. -/
def firstBlock? (nodes : List Node) (name : String) : Option Block :=
  (blocksIn nodes).find? (·.name = name)

theorem firstBlock?_leaf {node : Node} (h : node.IsLeaf) (rest : List Node) (name : String) :
    firstBlock? (node :: rest) name = firstBlock? rest name := by
  simp only [firstBlock?, blocksIn_leaf h]

theorem firstBlock?_block (span : Span) (outer : String) (body rest : List Node) (name : String) :
    firstBlock? (.block span outer body :: rest) name =
      if outer = name then some ⟨outer, body⟩
      else (firstBlock? body name).or (firstBlock? rest name) := by
  by_cases h : outer = name <;> simp [firstBlock?, h]

theorem firstBlock?_isSome {nodes : List Node} {name : String} :
    (firstBlock? nodes name).isSome ↔ name ∈ blockNames nodes := by
  simp [firstBlock?, blockNames]

theorem firstBlock?_eq_none {nodes : List Node} {name : String} :
    firstBlock? nodes name = none ↔ name ∉ blockNames nodes := by
  simp [firstBlock?, blockNames]

/-- The blocks inside the first block of a name are blocks of the whole body. -/
theorem blockNames_firstBlock? {nodes : List Node} {name : String} {b : Block}
    (h : firstBlock? nodes name = some b) : blockNames b.body ⊆ blockNames nodes := by
  induction nodes using body_induction with
  | nil => simp [firstBlock?] at h
  | leaf node rest hleaf ih =>
    rw [firstBlock?_leaf hleaf] at h
    rw [blockNames_leaf hleaf]
    exact ih h
  | block span outer body rest ihBody ihRest =>
    rw [firstBlock?_block] at h
    intro inner hinner
    simp only [blockNames_block, List.mem_cons, List.mem_append]
    split at h
    · cases h
      exact .inr (.inl hinner)
    · rcases Option.or_eq_some_iff.1 h with h | ⟨-, h⟩
      · exact .inr (.inl (ihBody h hinner))
      · exact .inr (.inr (ihRest h hinner))

mutual

/-- No block in a node contains a block of its own name. -/
def NestsFreshly : Node → Prop
  | .block _ name body => name ∉ blockNames body ∧ NestFreshly body
  | _ => True

/-- No block in a body contains a block of its own name. -/
def NestFreshly : List Node → Prop
  | [] => True
  | node :: rest => node.NestsFreshly ∧ NestFreshly rest

end

@[simp] theorem nestFreshly_nil : NestFreshly [] := by simp only [NestFreshly]

theorem nestFreshly_leaf {node : Node} (h : node.IsLeaf) (rest : List Node) :
    NestFreshly (node :: rest) ↔ NestFreshly rest := by
  cases node with
  | block => exact h.elim
  | _ => simp only [NestFreshly, NestsFreshly, true_and]

@[simp] theorem nestFreshly_block (span : Span) (name : String) (body rest : List Node) :
    NestFreshly (.block span name body :: rest) ↔
      (name ∉ blockNames body ∧ NestFreshly body) ∧ NestFreshly rest := by
  simp only [NestFreshly, NestsFreshly]

mutual

/-- Whether a block in a node contains a block of its own name can be computed. -/
def decidableNestsFreshly : ∀ node : Node, Decidable node.NestsFreshly
  | .block _ name body =>
    have := decidableNestFreshly body
    decidable_of_iff (name ∉ blockNames body ∧ NestFreshly body) (by simp only [NestsFreshly])
  | .text .. => isTrue (by simp only [NestsFreshly])
  | .print .. => isTrue (by simp only [NestsFreshly])
  | .«include» .. => isTrue (by simp only [NestsFreshly])

/-- Whether a block in a body contains a block of its own name can be computed. -/
def decidableNestFreshly : ∀ nodes : List Node, Decidable (NestFreshly nodes)
  | [] => isTrue nestFreshly_nil
  | node :: rest =>
    have := decidableNestsFreshly node
    have := decidableNestFreshly rest
    decidable_of_iff (node.NestsFreshly ∧ NestFreshly rest) (by simp only [NestFreshly])

end

instance (nodes : List Node) : Decidable (NestFreshly nodes) := decidableNestFreshly nodes

/-! ## The order in which blocks end -/

mutual

/-- How many blocks of a node end before its first block of a name does. -/
def closing (name : String) : Node → Nat
  | .block _ outer body =>
    if outer = name then (blocksIn body).length else closingIn name body
  | _ => 0

/-- How many blocks of a body end before its first block of a name does. -/
def closingIn (name : String) : List Node → Nat
  | [] => 0
  | node :: rest =>
    if name ∈ node.blocks.map (·.name) then closing name node
    else node.blocks.length + closingIn name rest

end

theorem closingIn_leaf (name : String) {node : Node} (h : node.IsLeaf) (rest : List Node) :
    closingIn name (node :: rest) = closingIn name rest := by
  simp [closingIn, h.blocks_eq]

theorem closingIn_block (name : String) (span : Span) (outer : String) (body rest : List Node) :
    closingIn name (.block span outer body :: rest) =
      if outer = name then (blocksIn body).length
      else if name ∈ blockNames body then closingIn name body
      else (blocksIn body).length + 1 + closingIn name rest := by
  by_cases h : outer = name
  · simp [closingIn, closing, blocks, h]
  · have h' : name ≠ outer := fun e => h e.symm
    simp only [closingIn, blocks, List.map_cons, List.mem_cons, h', false_or, List.length_cons,
      closing, if_neg h]
    rfl

/-- A block ends before the body does in which it stands. -/
theorem closingIn_lt_length {nodes : List Node} {name : String} (h : name ∈ blockNames nodes) :
    closingIn name nodes < (blocksIn nodes).length := by
  induction nodes using body_induction with
  | nil => simp at h
  | leaf node rest hleaf ih =>
    rw [closingIn_leaf name hleaf, blocksIn_leaf hleaf]
    rw [blockNames_leaf hleaf] at h
    exact ih h
  | block span outer body rest ihBody ihRest =>
    rw [closingIn_block, blocksIn_block, List.length_cons, List.length_append]
    split_ifs with houter hbody
    · omega
    · have := ihBody hbody
      omega
    · have hrest : name ∈ blockNames rest := by
        simp only [blockNames_block, List.mem_cons, List.mem_append] at h
        rcases h with rfl | h | h
        · exact (houter rfl).elim
        · exact (hbody h).elim
        · exact h
      have := ihRest hrest
      omega

/-- The first definition of a name leads only to blocks that end before it does. -/
theorem closingIn_lt_closingIn {nodes : List Node} (hn : NestFreshly nodes) {name : String}
    {b : Block} (hb : firstBlock? nodes name = some b) {inner : String}
    (hi : inner ∈ blockNames b.body) : closingIn inner nodes < closingIn name nodes := by
  induction nodes using body_induction with
  | nil => simp [firstBlock?] at hb
  | leaf node rest hleaf ih =>
    rw [firstBlock?_leaf hleaf] at hb
    rw [closingIn_leaf _ hleaf, closingIn_leaf _ hleaf]
    exact ih ((nestFreshly_leaf hleaf rest).1 hn) hb
  | block span outer body rest ihBody ihRest =>
    obtain ⟨⟨hfresh, hbody⟩, hrest⟩ := (nestFreshly_block ..).1 hn
    rw [firstBlock?_block] at hb
    rw [closingIn_block name, closingIn_block inner]
    split_ifs at hb with hname
    · -- The block itself: what it contains has another name and ends inside it.
      cases hb
      have hne : outer ≠ inner := fun e => hfresh (e ▸ hi)
      rw [if_neg hne, if_pos hi, if_pos hname]
      exact closingIn_lt_length hi
    · rw [if_neg hname]
      rcases Option.or_eq_some_iff.1 hb with hb | ⟨hnone, hb⟩
      · -- Inside the block: so is all that the definition leads to.
        have hin : inner ∈ blockNames body := blockNames_firstBlock? hb hi
        have hne : outer ≠ inner := fun e => hfresh (e ▸ hin)
        rw [if_neg hne, if_pos hin, if_pos (firstBlock?_isSome.1 (by simp [hb]))]
        exact ihBody hbody hb
      · -- After the block: what does not lie after it has ended already.
        rw [if_neg (firstBlock?_eq_none.1 hnone)]
        have hlt := ihRest hrest hb
        split_ifs with houter hin
        · omega
        · have := closingIn_lt_length hin
          omega
        · omega

end Node

/-! ## Which definitions are in effect -/

theorem get?_addDefinitions (defined : Definitions) (owner : Tree) (blocks : List Block)
    (name : String) : Dict.get? (addDefinitions defined owner blocks) name =
      (Dict.get? defined name).or
        ((blocks.find? (·.name = name)).map fun b => ⟨b.body, owner⟩) := by
  induction blocks generalizing defined with
  | nil => simp [addDefinitions_nil]
  | cons b rest ih =>
    rw [addDefinitions_cons, ih, Dict.get?_insertNew]
    by_cases h : b.name = name <;> cases Dict.get? defined name <;> simp [h]

theorem get?_addDefinitions_tree (defined : Definitions) (owner tree : Tree) (name : String) :
    Dict.get? (addDefinitions defined owner tree.blocks) name =
      (Dict.get? defined name).or
        ((Node.firstBlock? tree.body name).map fun b => ⟨b.body, owner⟩) :=
  get?_addDefinitions defined owner tree.blocks name

/-- The rank falls from every definition in effect to those it leads to, and these are in effect
    as well. -/
def Ranked (defined : Definitions) (rank : String → Nat) : Prop :=
  ∀ name d, Dict.get? defined name = some d → ∀ inner ∈ Node.blockNames d.body,
    (Dict.get? defined inner).isSome ∧ rank inner < rank name

theorem ranked_nil (rank : String → Nat) : Ranked [] rank := by
  intro name d h
  simp at h

/-- Some number lies above the ranks of all names that are defined. -/
theorem exists_rank_lt (defined : Definitions) (rank : String → Nat) :
    ∃ top, ∀ name d, Dict.get? defined name = some d → rank name < top := by
  suffices h : ∃ top, ∀ p ∈ defined, rank p.1 < top by
    obtain ⟨top, htop⟩ := h
    exact ⟨top, fun name d hd => htop _ (Dict.mem_of_get? hd)⟩
  induction defined with
  | nil => exact ⟨0, by simp⟩
  | cons p rest ih =>
    obtain ⟨top, htop⟩ := ih
    refine ⟨max (rank p.1 + 1) top, fun q hq => ?_⟩
    rcases List.mem_cons.1 hq with rfl | hq
    · omega
    · have := htop q hq
      omega

/-- The definitions of another tree get ranks above all others, in the order in which their blocks
    end. -/
theorem Ranked.add {defined : Definitions} {rank : String → Nat} (h : Ranked defined rank)
    (owner : Tree) {tree : Tree} (hn : Node.NestFreshly tree.body) :
    ∃ rank', Ranked (addDefinitions defined owner tree.blocks) rank' := by
  obtain ⟨top, htop⟩ := exists_rank_lt defined rank
  refine ⟨fun name => if (Dict.get? defined name).isSome then rank name
    else top + Node.closingIn name tree.body, fun name d hd inner hi => ?_⟩
  rw [get?_addDefinitions_tree] at hd ⊢
  rcases Option.or_eq_some_iff.1 hd with hold | ⟨hnone, hnew⟩
  · obtain ⟨hinner, hlt⟩ := h name d hold inner hi
    exact ⟨by simp [hinner], by simpa [hold, hinner] using hlt⟩
  · obtain ⟨b, hb, rfl⟩ := Option.map_eq_some_iff.1 hnew
    have hmem : inner ∈ Node.blockNames tree.body := Node.blockNames_firstBlock? hb hi
    refine ⟨by simp [Node.firstBlock?_isSome.2 hmem], ?_⟩
    have hlt := Node.closingIn_lt_closingIn hn hb hi
    cases hinner : Dict.get? defined inner with
    | none => simpa [hnone, hinner] using hlt
    | some d =>
      have := htop inner d hinner
      simp only [hnone, hinner, Option.isSome_some, Option.isSome_none, if_true]
      simp
      omega

theorem countP_lt_countP {α : Type} {p q : α → Bool} {l : List α}
    (h : ∀ a ∈ l, p a → q a) {a : α} (ha : a ∈ l) (hq : q a) (hp : p a = false) :
    l.countP p < l.countP q := by
  obtain ⟨front, back, rfl⟩ := List.append_of_mem ha
  have hfront : front.countP p ≤ front.countP q :=
    List.countP_mono_left fun x hx => h x (List.mem_append_left _ hx)
  have hback : back.countP p ≤ back.countP q :=
    List.countP_mono_left fun x hx => h x (List.mem_append_right _ (List.mem_cons_of_mem _ hx))
  simp only [List.countP_append, List.countP_cons, hq, hp]
  simp
  omega

/-- A rank can be chosen below the number of defined names: count the names of smaller rank. -/
theorem Ranked.bounded {defined : Definitions} {rank : String → Nat} (h : Ranked defined rank) :
    ∃ rank', Ranked defined rank' ∧
      ∀ name d, Dict.get? defined name = some d → rank' name < defined.length := by
  refine ⟨fun name => defined.countP fun p => rank p.1 < rank name, ?_, ?_⟩
  · intro name d hd inner hi
    obtain ⟨hinner, hlt⟩ := h name d hd inner hi
    obtain ⟨d', hd'⟩ := Option.isSome_iff_exists.1 hinner
    refine ⟨hinner, countP_lt_countP ?_ (Dict.mem_of_get? hd') (by simpa using hlt) (by simp)⟩
    intro p _ hp
    simp only [decide_eq_true_eq] at hp ⊢
    omega
  · intro name d hd
    exact List.countP_lt_length_iff.2 ⟨_, Dict.mem_of_get? hd, by simp⟩

end Stencil
