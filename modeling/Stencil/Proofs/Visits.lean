import Stencil.Template.Tree
import Mathlib.Data.List.Basic

/-!
# The visits of a walk

A walk over a tree enters it, walks over its embedded trees and then over the nodes of its body, and
leaves it. A walk over a node enters it, walks over the nodes in it if it is a block, and leaves it.
Which visits these are, and in which order, depends on the shape of the tree alone.

Results:
* `Shape.pairwise_visits`: no visit comes twice, and none in a part comes after the whole is left.
* `Visit.left_outside`: what is not left yet is in nothing that is.
* `Tree.mem_visits`: the visits are at the addresses at which the tree has something.
-/

namespace Stencil

/-! ## Shapes -/

/-- How the parts of a tree or of a node are nested: the embedded trees and the nodes of a body. -/
inductive Shape where
  | mk (embedded parts : List Shape)

mutual

/-- The shape of a node. Only a block has parts. -/
def Node.shape : Node → Shape
  | .block _ _ body => ⟨[], Node.shapes body⟩
  | _ => ⟨[], []⟩

/-- The shapes of the nodes of a body. -/
def Node.shapes : List Node → List Shape
  | [] => []
  | node :: rest => node.shape :: Node.shapes rest

end

mutual

/-- The shape of a tree. -/
def Tree.shape : Tree → Shape
  | ⟨_, _, body, embedded, _⟩ => ⟨Tree.shapes embedded, Node.shapes body⟩

/-- The shapes of embedded trees. -/
def Tree.shapes : List Tree → List Shape
  | [] => []
  | tree :: rest => tree.shape :: Tree.shapes rest

end

theorem Node.shapes_eq_map (nodes : List Node) : Node.shapes nodes = nodes.map Node.shape := by
  induction nodes with
  | nil => rfl
  | cons node rest ih => rw [Node.shapes, ih, List.map_cons]

theorem Tree.shapes_eq_map (trees : List Tree) : Tree.shapes trees = trees.map Tree.shape := by
  induction trees with
  | nil => rfl
  | cons tree rest ih => rw [Tree.shapes, ih, List.map_cons]

theorem Node.sizeOf_shape_lt {node : Node} {body : List Node} (h : node ∈ body) :
    sizeOf node.shape < sizeOf (Node.shapes body) := by
  rw [Node.shapes_eq_map]
  exact List.sizeOf_lt_of_mem (List.mem_map_of_mem h)

theorem Tree.sizeOf_shape_lt {tree : Tree} {trees : List Tree} (h : tree ∈ trees) :
    sizeOf tree.shape < sizeOf (Tree.shapes trees) := by
  rw [Tree.shapes_eq_map]
  exact List.sizeOf_lt_of_mem (List.mem_map_of_mem h)

/-! ## Visits -/

/-- A way into a tree or a node: to an embedded tree, or to a node of the body. -/
inductive Branch where
  | embedded (position : Nat)
  | part (position : Nat)
deriving DecidableEq, Repr

theorem Branch.embedded_ne_part (i j : Nat) : Branch.embedded i ≠ Branch.part j := nofun

/-- The way to a tree or a node in a tree, from the outside. -/
abbrev Address := List Branch

/-- A walk is at an address before it is at the parts of what is there, and again after them. -/
inductive Visit where
  | enter (address : Address)
  | leave (address : Address)
deriving DecidableEq, Repr

namespace Visit

/-- Where a visit is. -/
def address : Visit → Address
  | .enter address => address
  | .leave address => address

/-- A visit in a part, as a visit in the whole. -/
def under (branch : Branch) : Visit → Visit
  | .enter address => .enter (branch :: address)
  | .leave address => .leave (branch :: address)

@[simp] theorem address_under (branch : Branch) (visit : Visit) :
    (visit.under branch).address = branch :: visit.address := by
  cases visit <;> rfl

@[simp] theorem under_inj {branch branch' : Branch} {visit visit' : Visit} :
    visit.under branch = visit'.under branch' ↔ branch = branch' ∧ visit = visit' := by
  cases visit <;> cases visit' <;> simp [under]

theorem exists_under {visit : Visit} {branch : Branch} {address : Address}
    (h : visit.address = branch :: address) :
    ∃ within : Visit, within.address = address ∧ visit = within.under branch := by
  cases visit with
  | enter _ => exact ⟨.enter address, rfl, congrArg enter h⟩
  | leave _ => exact ⟨.leave address, rfl, congrArg leave h⟩

/-- A visit may come before another one. After something is left, there are no more visits to it or
    to its parts. -/
def MayPrecede : Visit → Visit → Prop
  | .leave left, visit => ¬ left <+: visit.address
  | .enter entered, visit => visit ≠ .enter entered

theorem MayPrecede.ne {visit visit' : Visit} (h : MayPrecede visit visit') : visit ≠ visit' := by
  rintro rfl
  cases visit with
  | enter entered => exact h rfl
  | leave left => exact h List.prefix_rfl

theorem MayPrecede.under {visit visit' : Visit} (h : MayPrecede visit visit') (branch : Branch) :
    MayPrecede (visit.under branch) (visit'.under branch) := by
  cases visit with
  | enter entered => exact fun heq => h (under_inj.1 heq).2
  | leave left =>
    intro hprefix
    rw [address_under, List.cons_prefix_cons] at hprefix
    exact h hprefix.2

theorem mayPrecede_of_branch_ne {branch branch' : Branch} (h : branch ≠ branch')
    (visit visit' : Visit) : MayPrecede (visit.under branch) (visit'.under branch') := by
  cases visit with
  | enter entered =>
    intro (heq : visit'.under branch' = Visit.under branch (.enter entered))
    exact h (under_inj.1 heq).1.symm
  | leave left =>
    intro hprefix
    rw [address_under, List.cons_prefix_cons] at hprefix
    exact h hprefix.1

theorem enter_mayPrecede_under (branch : Branch) (visit : Visit) :
    MayPrecede (.enter []) (visit.under branch) := by
  cases visit <;> exact nofun

theorem under_mayPrecede_leave (branch : Branch) (visit : Visit) :
    MayPrecede (visit.under branch) (.leave []) := by
  cases visit with
  | enter entered => exact nofun
  | leave left => exact fun hprefix => List.cons_ne_nil _ _ (List.prefix_nil.1 hprefix)

end Visit

mutual

/-- The visits of a walk: enter, those to the embedded trees, those to the parts, and leave. -/
def Shape.visits : Shape → List Visit
  | ⟨embedded, parts⟩ =>
    .enter [] :: (Shape.visitsIn .embedded 0 embedded ++ Shape.visitsIn .part 0 parts) ++
      [.leave []]

/-- The visits to some parts in their order, the first of which is at a position. -/
def Shape.visitsIn (branch : Nat → Branch) (position : Nat) : List Shape → List Visit
  | [] => []
  | shape :: rest =>
    shape.visits.map (Visit.under (branch position)) ++ Shape.visitsIn branch (position + 1) rest

end

/-- The visits of a walk over a tree. -/
def Tree.visits (tree : Tree) : List Visit := tree.shape.visits

namespace Shape

/-- The visits to the parts of a shape. -/
def inside : Shape → List Visit
  | ⟨embedded, parts⟩ => visitsIn .embedded 0 embedded ++ visitsIn .part 0 parts

theorem visits_eq (shape : Shape) : shape.visits = .enter [] :: shape.inside ++ [.leave []] := by
  cases shape
  rw [visits, inside]

theorem mem_visitsIn {branch : Nat → Branch} {visit : Visit} {position : Nat}
    {shapes : List Shape} :
    visit ∈ visitsIn branch position shapes ↔ ∃ (i : Nat) (shape : Shape) (within : Visit),
      shapes[i]? = some shape ∧ within ∈ shape.visits ∧
        visit = within.under (branch (position + i)) := by
  induction shapes generalizing position with
  | nil => simp [visitsIn]
  | cons first rest ih =>
    rw [visitsIn, List.mem_append, List.mem_map, ih]
    constructor
    · rintro (⟨within, hwithin, rfl⟩ | ⟨i, shape, within, hshape, hwithin, rfl⟩)
      · exact ⟨0, first, within, rfl, hwithin, rfl⟩
      · exact ⟨i + 1, shape, within, hshape, hwithin, by rw [Nat.add_assoc, Nat.add_comm 1]⟩
    · rintro ⟨i, shape, within, hshape, hwithin, rfl⟩
      cases i with
      | zero =>
        obtain rfl := Option.some.inj hshape
        exact .inl ⟨within, hwithin, rfl⟩
      | succ i =>
        exact .inr ⟨i, shape, within, hshape, hwithin, by rw [Nat.add_assoc, Nat.add_comm 1]⟩

theorem exists_of_mem_inside {shape : Shape} {visit : Visit} (h : visit ∈ shape.inside) :
    ∃ branch within, visit = Visit.under branch within := by
  obtain ⟨embedded, parts⟩ := shape
  rw [inside, List.mem_append, mem_visitsIn, mem_visitsIn] at h
  obtain ⟨_, _, within, _, _, rfl⟩ | ⟨_, _, within, _, _, rfl⟩ := h <;> exact ⟨_, within, rfl⟩

/-! ## Their order -/

mutual

/-- The visits of a walk are in an order in which they may come, each of them once. -/
theorem pairwise_visits : ∀ shape : Shape, shape.visits.Pairwise Visit.MayPrecede
  | ⟨embedded, parts⟩ => by
    have hinside : (inside ⟨embedded, parts⟩).Pairwise Visit.MayPrecede := by
      rw [inside, List.pairwise_append]
      refine ⟨pairwise_visitsIn (fun _ _ => Branch.embedded.inj) 0 embedded,
        pairwise_visitsIn (fun _ _ => Branch.part.inj) 0 parts,
        fun visit hvisit visit' hvisit' => ?_⟩
      obtain ⟨_, _, visit, _, _, rfl⟩ := mem_visitsIn.1 hvisit
      obtain ⟨_, _, visit', _, _, rfl⟩ := mem_visitsIn.1 hvisit'
      exact Visit.mayPrecede_of_branch_ne (Branch.embedded_ne_part _ _) visit visit'
    rw [visits_eq, List.cons_append, List.pairwise_cons, List.pairwise_append]
    refine ⟨fun visit hvisit => ?enter, hinside, List.pairwise_singleton _ _,
      fun visit hvisit visit' hvisit' => ?leave⟩
    case enter =>
      rcases List.mem_append.1 hvisit with hvisit | hvisit
      · obtain ⟨branch, visit, rfl⟩ := exists_of_mem_inside hvisit
        exact Visit.enter_mayPrecede_under branch visit
      · obtain rfl := List.mem_singleton.1 hvisit
        exact nofun
    case leave =>
      obtain ⟨branch, visit, rfl⟩ := exists_of_mem_inside hvisit
      obtain rfl := List.mem_singleton.1 hvisit'
      exact Visit.under_mayPrecede_leave branch visit

theorem pairwise_visitsIn {branch : Nat → Branch} (hbranch : Function.Injective branch)
    (position : Nat) :
    ∀ shapes : List Shape, (visitsIn branch position shapes).Pairwise Visit.MayPrecede
  | [] => List.Pairwise.nil
  | shape :: rest => by
    rw [visitsIn, List.pairwise_append]
    refine ⟨(pairwise_visits shape).map _ fun _ _ h => h.under _,
      pairwise_visitsIn hbranch (position + 1) rest, fun visit hvisit visit' hvisit' => ?_⟩
    obtain ⟨visit, _, rfl⟩ := List.mem_map.1 hvisit
    obtain ⟨i, _, visit', _, _, rfl⟩ := mem_visitsIn.1 hvisit'
    refine Visit.mayPrecede_of_branch_ne (fun heq => ?_) visit visit'
    have := hbranch heq
    omega

end

end Shape

/-- What is not left in the first part of a walk is in nothing that is. -/
theorem Visit.left_outside {tree : Tree} {received : List Visit} (h : received <+: tree.visits)
    {left address : Address} (hleft : .leave left ∈ received)
    (haddress : .leave address ∈ tree.visits) (hnot : .leave address ∉ received) :
    ¬ left <+: address := by
  obtain ⟨later, hvisits⟩ := h
  have hpairwise := tree.shape.pairwise_visits
  rw [← Tree.visits, ← hvisits, List.pairwise_append] at hpairwise
  rw [← hvisits, List.mem_append] at haddress
  exact hpairwise.2.2 _ hleft _ (haddress.resolve_left hnot)

/-! ## Their addresses -/

/-- A node without its parts. -/
def Node.own : Node → Node
  | .block span name _ => .block span name []
  | node => node

/-- A tree without its parts. -/
def Tree.own (tree : Tree) : Tree := { tree with body := [], embedded := [] }

/-- What a node has at an address, without its parts. -/
def Node.own? : Address → Node → Option Node
  | [], node => some node.own
  | .part position :: address, .block _ _ body => body[position]?.bind (Node.own? address)
  | _, _ => none

/-- What a tree has at an address, without its parts. -/
def Tree.own? : Address → Tree → Option (Tree ⊕ Node)
  | [], tree => some (.inl tree.own)
  | .embedded position :: address, tree => tree.embedded[position]?.bind (Tree.own? address)
  | .part position :: address, tree => (tree.body[position]?.bind (Node.own? address)).map .inr

namespace Shape

theorem under_mem_visitsIn {α : Type} {branch : Nat → Branch} (hbranch : Function.Injective branch)
    {items : List α} {shape : α → Shape} {i : Nat} {within : Visit} :
    within.under (branch i) ∈ visitsIn branch 0 (items.map shape) ↔
      ∃ item, items[i]? = some item ∧ within ∈ (shape item).visits := by
  rw [mem_visitsIn]
  constructor
  · rintro ⟨j, part, visit, hpart, hvisit, heq⟩
    obtain ⟨hij, rfl⟩ := Visit.under_inj.1 heq
    obtain rfl : i = j := by simpa using hbranch hij
    rw [List.getElem?_map, Option.map_eq_some_iff] at hpart
    obtain ⟨item, hitem, rfl⟩ := hpart
    exact ⟨item, hitem, hvisit⟩
  · rintro ⟨item, hitem, hwithin⟩
    exact ⟨i, shape item, within, by rw [List.getElem?_map, hitem, Option.map_some], hwithin,
      by rw [Nat.zero_add]⟩

theorem under_not_mem_visitsIn {branch : Nat → Branch} {other : Branch}
    (h : ∀ i, other ≠ branch i) (within : Visit) (position : Nat) (shapes : List Shape) :
    within.under other ∉ visitsIn branch position shapes := by
  rw [mem_visitsIn]
  rintro ⟨i, _, _, _, _, heq⟩
  exact h _ (Visit.under_inj.1 heq).1

theorem under_mem_visits {branch : Branch} {within : Visit} {shape : Shape} :
    within.under branch ∈ shape.visits ↔ within.under branch ∈ shape.inside := by
  rw [visits_eq, List.cons_append, List.mem_cons, List.mem_append, List.mem_singleton]
  cases within <;> simp [Visit.under]

theorem mem_visits_of_address_eq_nil {visit : Visit} (h : visit.address = []) (shape : Shape) :
    visit ∈ shape.visits := by
  rw [visits_eq]
  cases visit with
  | enter entered =>
    obtain rfl : entered = [] := h
    exact List.mem_cons_self
  | leave left =>
    obtain rfl : left = [] := h
    exact List.mem_append_right _ List.mem_cons_self

end Shape

theorem Node.mem_visits {address : Address} {visit : Visit} (h : visit.address = address)
    (node : Node) : visit ∈ node.shape.visits ↔ (node.own? address).isSome := by
  induction address generalizing visit node with
  | nil => exact iff_of_true (Shape.mem_visits_of_address_eq_nil h _) (by rw [own?]; rfl)
  | cons branch address ih =>
    obtain ⟨within, hwithin, rfl⟩ := Visit.exists_under h
    rw [Shape.under_mem_visits]
    cases node with
    | block span name body =>
      rw [shape, Shape.inside, Shape.visitsIn, List.nil_append, shapes_eq_map]
      cases branch with
      | embedded position =>
        have hnot := Shape.under_not_mem_visitsIn (Branch.embedded_ne_part position) within 0
        exact iff_of_false (hnot _) (by simp [own?])
      | part position =>
        rw [Shape.under_mem_visitsIn fun _ _ => Branch.part.inj, own?]
        cases body[position]? with
        | none => simp
        | some item => simpa using ih hwithin item
    | text | print | «include» => simp [shape, Shape.inside, Shape.visitsIn, own?]

/-- There is a visit at every address at which the tree has something, and no other one. -/
theorem Tree.mem_visits (tree : Tree) (visit : Visit) :
    visit ∈ tree.visits ↔ (tree.own? visit.address).isSome := by
  rw [visits]
  generalize h : visit.address = address
  induction address generalizing visit tree with
  | nil => exact iff_of_true (Shape.mem_visits_of_address_eq_nil h _) (by rw [own?]; rfl)
  | cons branch address ih =>
    obtain ⟨within, hwithin, rfl⟩ := Visit.exists_under h
    obtain ⟨name, parent, body, embedded, index⟩ := tree
    rw [Shape.under_mem_visits, shape, Shape.inside, List.mem_append, shapes_eq_map,
      Node.shapes_eq_map]
    cases branch with
    | embedded position =>
      have hnot := Shape.under_not_mem_visitsIn (Branch.embedded_ne_part position) within 0
      rw [Shape.under_mem_visitsIn fun _ _ => Branch.embedded.inj, or_iff_left (hnot _), own?]
      cases embedded[position]? with
      | none => simp
      | some item => simpa using ih item within hwithin
    | part position =>
      have hnot := Shape.under_not_mem_visitsIn
        (fun i => (Branch.embedded_ne_part i position).symm) within 0
      rw [Shape.under_mem_visitsIn fun _ _ => Branch.part.inj, or_iff_right (hnot _), own?]
      cases body[position]? with
      | none => simp
      | some item => simpa using Node.mem_visits hwithin item

end Stencil
