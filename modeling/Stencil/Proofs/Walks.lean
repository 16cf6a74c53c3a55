import Stencil.Proofs.Editors

/-!
# What an editor receives of a walk

The walk of an editor over a tree is a recursion over the tree as the editor changes it. It comes to
the same as calling the editor at the visits of the tree one after the other, each time at what has
become of the tree by then, up to the first call that fails.

Results:
* `Editor.onTree_eq_callAll`: walking is calling at all visits, as long as there is no fault.
* `Editor.Receives`: how the visits are received, and what it means that one of them is the last.
* `Editor.onTree_visits`: what is received of the visits of a tree, and what it can change.
-/

namespace Stencil

open Pass (Changed andThen both put)

/-! ## Calls -/

section Calls

variable {m : Type → Type} [Monad m] {α β : Type}

namespace Editor

/-- Changes one of some items. -/
def atPosition (change : α → m (Changed α)) (position : Nat) (items : List α) :
    m (Changed (List α)) :=
  match items[position]? with
  | some item => put (items.set position) (change item)
  | none => pure (items, none)

/-- Changes some items one by one. -/
def changeEach (change : α → m (Changed α)) : List α → m (Changed (List α))
  | [] => pure ([], none)
  | item :: rest => both (change item) (· :: rest) (changeEach change rest) (· :: ·)

/-- Calls one after the other, as long as there is no fault. -/
def callAll (call : Visit → α → m (Changed α)) : List Visit → α → m (Changed α)
  | [], a => pure (a, none)
  | visit :: rest, a => andThen (call visit a) id (callAll call rest)

end Editor

open Editor (atPosition changeEach callAll)

/-- Changes the node at an address in a node. -/
def Node.atAddress (change : Node → m (Changed Node)) : Address → Node → m (Changed Node)
  | [], node => change node
  | .part position :: address, .block span name body =>
    put (.block span name) (atPosition (Node.atAddress change address) position body)
  | _, node => pure (node, none)

/-- Changes the tree or the node at an address in a tree. -/
def Tree.atAddress (changeTree : Tree → m (Changed Tree)) (changeNode : Node → m (Changed Node)) :
    Address → Tree → m (Changed Tree)
  | [], tree => changeTree tree
  | .embedded position :: address, tree =>
    put (fun embedded => { tree with embedded := embedded })
      (atPosition (Tree.atAddress changeTree changeNode address) position tree.embedded)
  | .part position :: address, tree =>
    put (fun body => { tree with body := body })
      (atPosition (Node.atAddress changeNode address) position tree.body)

namespace Editor

/-- The call of an editor at a visit in a node. -/
def callIn (e : Editor m) : Visit → Node → m (Changed Node)
  | .enter address => Node.atAddress (fun node => put Subtype.val (e.enterNode node)) address
  | .leave address => Node.atAddress e.leaveNode address

/-- The call of an editor at a visit in a tree. -/
def call (e : Editor m) : Visit → Tree → m (Changed Tree)
  | .enter address =>
    Tree.atAddress (fun tree => put Subtype.val (e.enterTree tree))
      (fun node => put Subtype.val (e.enterNode node)) address
  | .leave address => Tree.atAddress e.leaveTree e.leaveNode address

theorem callIn_part (e : Editor m) (span : Span) (name : String) (position : Nat) (visit : Visit)
    (body : List Node) :
    e.callIn (visit.under (.part position)) (.block span name body) =
      put (.block span name) (atPosition (e.callIn visit) position body) := by
  cases visit <;> rfl

theorem call_embedded (e : Editor m) (name : String) (parent : Option Expr) (body : List Node)
    (index : Option Nat) (position : Nat) (visit : Visit) (embedded : List Tree) :
    e.call (visit.under (.embedded position)) ⟨name, parent, body, embedded, index⟩ =
      put (⟨name, parent, body, ·, index⟩) (atPosition (e.call visit) position embedded) := by
  cases visit <;> rfl

theorem call_part (e : Editor m) (name : String) (parent : Option Expr) (embedded : List Tree)
    (index : Option Nat) (position : Nat) (visit : Visit) (body : List Node) :
    e.call (visit.under (.part position)) ⟨name, parent, body, embedded, index⟩ =
      put (⟨name, parent, ·, embedded, index⟩) (atPosition (e.callIn visit) position body) := by
  cases visit <;> rfl

theorem onNodes_eq_changeEach (e : Editor m) (nodes : List Node) :
    e.onNodes nodes = changeEach e.onNode nodes := by
  induction nodes with
  | nil => rw [onNodes, changeEach]
  | cons node rest ih => rw [onNodes, changeEach, ih]

theorem onTrees_eq_changeEach (e : Editor m) (trees : List Tree) :
    e.onTrees trees = changeEach e.onTree trees := by
  induction trees with
  | nil => rw [onTrees, changeEach]
  | cons tree rest ih => rw [onTrees, changeEach, ih]

variable [LawfulMonad m]

theorem callAll_append (call : Visit → α → m (Changed α)) (front back : List Visit) (a : α) :
    callAll call (front ++ back) a = andThen (callAll call front a) id (callAll call back) := by
  induction front generalizing a with
  | nil => rw [callAll, Pass.andThen_pure, List.nil_append]
  | cons visit rest ih =>
    rw [List.cons_append, callAll, callAll, Pass.andThen_andThen, funext ih]
    rfl

theorem callAll_leave (call : Visit → α → m (Changed α)) (visits : List Visit) (visit : Visit)
    (a : α) :
    callAll call (visits ++ [visit]) a = andThen (callAll call visits a) id (call visit) := by
  have hlast : callAll call [visit] = call visit := funext fun a => Pass.andThen_id (call visit a)
  rw [callAll_append, hlast]

/-- Calls at visits under a branch change the part that is there. -/
theorem callAll_under {call : Visit → β → m (Changed β)} {callPart : Visit → α → m (Changed α)}
    {branch : Branch} {position : Nat} {build : List α → β}
    (hcall : ∀ visit items, call (visit.under branch) (build items) =
      put build (atPosition (callPart visit) position items))
    (visits : List Visit) {items : List α} {item : α} (hitem : items[position]? = some item) :
    callAll call (visits.map (Visit.under branch)) (build items) =
      put (fun changed => build (items.set position changed)) (callAll callPart visits item) := by
  induction visits generalizing items item with
  | nil =>
    obtain ⟨hposition, rfl⟩ := List.getElem?_eq_some_iff.1 hitem
    rw [List.map_nil, callAll, callAll, put, Pass.andThen_pure, List.set_getElem_self]
  | cons visit rest ih =>
    have hrest : ∀ changed, callAll call (rest.map (Visit.under branch))
        (build (items.set position changed)) =
          put (fun changed => build (items.set position changed))
            (callAll callPart rest changed) := by
      intro changed
      have hposition := (List.getElem?_eq_some_iff.1 hitem).1
      rw [ih (List.getElem?_set_self hposition)]
      simp only [List.set_set]
    rw [List.map_cons, callAll, hcall, atPosition, hitem, callAll]
    simp only [put, Pass.andThen_andThen, Pass.andThen_pure, id, hrest]

/-- Items that are changed one by one are called at all visits to them. -/
theorem callAll_visitsIn {call : Visit → β → m (Changed β)} {callPart : Visit → α → m (Changed α)}
    {branch : Nat → Branch} {build : List α → β} {shape : α → Shape} {change : α → m (Changed α)}
    (hcall : ∀ position visit items, call (visit.under (branch position)) (build items) =
      put build (atPosition (callPart visit) position items))
    (done items : List α)
    (hchange : ∀ item ∈ items, change item = callAll callPart (shape item).visits item) :
    callAll call (Shape.visitsIn branch done.length (items.map shape)) (build (done ++ items)) =
      put (fun changed => build (done ++ changed)) (changeEach change items) := by
  -- The items that are `done` only say how far the positions have come.
  induction items generalizing done with
  | nil => rw [List.map_nil, Shape.visitsIn, callAll, changeEach, put, Pass.andThen_pure]
  | cons item rest ih =>
    have hitem : (done ++ item :: rest)[done.length]? = some item := by simp
    have hset : ∀ changed,
        (done ++ item :: rest).set done.length changed = done ++ changed :: rest :=
      fun changed => by simp
    have hrest : ∀ changed, callAll call (Shape.visitsIn branch (done.length + 1) (rest.map shape))
        (build (done ++ changed :: rest)) =
          put (fun more => build (done ++ changed :: more)) (changeEach change rest) := by
      intro changed
      have hdone := ih (done ++ [changed]) fun item hmem =>
        hchange item (List.mem_cons_of_mem _ hmem)
      simpa using hdone
    rw [List.map_cons, Shape.visitsIn, callAll_append, callAll_under (hcall done.length) _ hitem,
      changeEach, Pass.both_eq_andThen, hchange item List.mem_cons_self]
    simp only [put, Pass.andThen_andThen, Pass.andThen_pure, id, hset, hrest]

/-- What is left to do at a node is to call at the visits in it, and to leave it. -/
theorem finishNode_eq_callAll (e : Editor m) {entered : Node} {shape : Shape}
    (hshape : entered.shape = shape)
    (hparts : ∀ item : Node, sizeOf item.shape < sizeOf shape →
      e.onNode item = callAll e.callIn item.shape.visits item) :
    e.finishNode entered = callAll e.callIn (shape.inside ++ [.leave []]) entered := by
  subst hshape
  rw [callAll_leave]
  cases entered with
  | block span name body =>
    have hbody : callAll e.callIn (Shape.visitsIn .part 0 (Node.shapes body))
        (.block span name body) = put (.block span name) (e.onNodes body) := by
      rw [onNodes_eq_changeEach, Node.shapes_eq_map]
      refine callAll_visitsIn (callIn_part e span name) [] body fun item hitem => hparts item ?_
      have hlt := Node.sizeOf_shape_lt hitem
      rw [Node.shape, Shape.mk.sizeOf_spec]
      omega
    rw [finishNode, ← hbody]
    rfl
  | text | print | «include» => exact (Pass.andThen_pure _ id e.leaveNode).symm

/-- Walking over a node is calling at its visits. -/
theorem onNode_eq_callAll (e : Editor m) (node : Node) :
    e.onNode node = callAll e.callIn node.shape.visits node := by
  -- The parts are those of the node that is entered, which is smaller by its shape.
  have hfinish : ∀ entered : { entered : Node // entered.shape = node.shape },
      e.finishNode entered.val = callAll e.callIn (node.shape.inside ++ [.leave []]) entered.val :=
    fun entered => e.finishNode_eq_callAll entered.property fun item _ => onNode_eq_callAll e item
  rw [onNode_eq_finishNode, Shape.visits_eq, List.cons_append, callAll, callIn, Node.atAddress, put]
  simp only [Pass.andThen_andThen, Pass.andThen_pure, id, hfinish]
termination_by sizeOf node.shape

theorem finishTree_eq_callAll (e : Editor m) {entered : Tree} {shape : Shape}
    (hshape : entered.shape = shape)
    (hparts : ∀ item : Tree, sizeOf item.shape < sizeOf shape →
      e.onTree item = callAll e.call item.shape.visits item) :
    e.finishTree entered = callAll e.call (shape.inside ++ [.leave []]) entered := by
  subst hshape
  obtain ⟨name, parent, body, embedded, index⟩ := entered
  have hembedded : callAll e.call (Shape.visitsIn .embedded 0 (Tree.shapes embedded))
      ⟨name, parent, body, embedded, index⟩ =
        put (⟨name, parent, body, ·, index⟩) (e.onTrees embedded) := by
    rw [onTrees_eq_changeEach, Tree.shapes_eq_map]
    refine callAll_visitsIn (call_embedded e name parent body index) [] embedded
      fun item hitem => hparts item ?_
    have hlt := Tree.sizeOf_shape_lt hitem
    rw [Tree.shape, Shape.mk.sizeOf_spec]
    omega
  have hbody : ∀ embedded, callAll e.call (Shape.visitsIn .part 0 (Node.shapes body))
      ⟨name, parent, body, embedded, index⟩ =
        put (⟨name, parent, ·, embedded, index⟩) (e.onNodes body) := by
    intro embedded
    rw [onNodes_eq_changeEach, Node.shapes_eq_map]
    exact callAll_visitsIn (call_part e name parent embedded index) [] body
      fun item _ => onNode_eq_callAll e item
  have hleave : e.call (.leave []) = e.leaveTree := rfl
  rw [callAll_leave, Tree.shape, Shape.inside, callAll_append, hembedded, hleave, finishTree,
    Pass.both_eq_andThen]
  simp only [put, Pass.andThen_andThen, Pass.andThen_pure, id, hbody]

/-- Walking over a tree is calling at its visits. -/
theorem onTree_eq_callAll (e : Editor m) (tree : Tree) :
    e.onTree tree = callAll e.call tree.visits tree := by
  have hfinish : ∀ entered : { entered : Tree // entered.shape = tree.shape },
      e.finishTree entered.val = callAll e.call (tree.shape.inside ++ [.leave []]) entered.val :=
    fun entered => e.finishTree_eq_callAll entered.property fun item _ => onTree_eq_callAll e item
  rw [onTree_eq_finishTree, Tree.visits, Shape.visits_eq, List.cons_append, callAll, call,
    Tree.atAddress, put]
  simp only [Pass.andThen_andThen, Pass.andThen_pure, id, hfinish]
termination_by sizeOf tree.shape

end Editor

end Calls

/-! ## What calls ensure -/

section Ensures

variable {τ : Type} {α β : Type}

theorem Pass.run_andThen (first : StateT τ Option (Changed α)) (stop : α → β)
    (next : α → StateT τ Option (Changed β)) (s : τ) :
    (andThen first stop next).run s = (first.run s).bind fun
      | ((a, some fault), s') => some ((stop a, some fault), s')
      | ((a, none), s') => (next a).run s' := by
  rw [andThen, StateT.run_bind]
  cases first.run s with
  | none => rfl
  | some result =>
    obtain ⟨⟨a, fault⟩, s'⟩ := result
    cases fault <;> rfl

theorem Pass.run_put (place : α → β) (step : StateT τ Option (Changed α)) (s : τ) :
    (put place step).run s = (step.run s).map fun result =>
      ((place result.1.1, result.1.2), result.2) := by
  rw [put, run_andThen]
  cases step.run s with
  | none => rfl
  | some result =>
    obtain ⟨⟨a, fault⟩, s'⟩ := result
    cases fault <;> rfl

namespace Editor

/-- Whatever a change leaves has a property. -/
def Ensures (change : StateT τ Option (Changed α)) (P : α → Prop) : Prop :=
  ∀ s a fault s', change.run s = some ((a, fault), s') → P a

namespace Ensures

theorem mono {P Q : α → Prop} {change : StateT τ Option (Changed α)} (h : Ensures change P)
    (hPQ : ∀ a, P a → Q a) : Ensures change Q :=
  fun s a fault s' hrun => hPQ a (h s a fault s' hrun)

theorem of_forall {P : α → Prop} (h : ∀ a, P a) (change : StateT τ Option (Changed α)) :
    Ensures change P := fun _ a _ _ _ => h a

theorem pure {P : α → Prop} {a : α} (h : P a) (fault : Option MissingPart) :
    Ensures (τ := τ) (pure (a, fault)) P := by
  intro s a' fault' s' hrun
  cases hrun
  exact h

theorem put {P : β → Prop} {place : α → β} {change : StateT τ Option (Changed α)}
    (h : Ensures change fun a => P (place a)) : Ensures (Pass.put place change) P := by
  intro s b fault s' hrun
  rw [Pass.run_put, Option.map_eq_some_iff] at hrun
  obtain ⟨⟨⟨a, fault'⟩, s''⟩, hchange, heq⟩ := hrun
  cases heq
  exact h s a fault' s'' hchange

theorem atPosition {P : List α → Prop} {change : α → StateT τ Option (Changed α)}
    {position : Nat} {items : List α} (hnone : P items)
    (hsome : ∀ item, items[position]? = some item →
      Ensures (change item) fun changed => P (items.set position changed)) :
    Ensures (Editor.atPosition change position items) P := by
  rw [Editor.atPosition]
  cases hitem : items[position]? with
  | none => exact pure hnone none
  | some item => exact put (hsome item hitem)

/-- Changing an item leaves alone what is seen of the others, and of that one if it is kept. -/
theorem atPosition_bind {view : α → Option β} {change : α → StateT τ Option (Changed α)}
    {position i : Nat} (items : List α)
    (h : position = i → ∀ item, Ensures (change item) fun changed => view changed = view item) :
    Ensures (Editor.atPosition change position items) fun changed =>
      changed[i]?.bind view = items[i]?.bind view := by
  refine atPosition rfl fun item hitem => ?_
  by_cases hi : position = i
  · subst hi
    refine (h rfl item).mono fun changed hchanged => ?_
    have hposition := (List.getElem?_eq_some_iff.1 hitem).1
    rw [List.getElem?_set_self hposition, hitem]
    exact hchanged
  · exact of_forall (fun changed => by rw [List.getElem?_set_ne hi]) _

/-- Changing an item that keeps what is seen of it keeps what is seen of all of them. -/
theorem atPosition_map {γ : Type} {view : α → γ} {change : α → StateT τ Option (Changed α)}
    (h : ∀ item, Ensures (change item) fun changed => view changed = view item) (position : Nat)
    (items : List α) :
    Ensures (Editor.atPosition change position items) fun changed =>
      changed.map view = items.map view := by
  refine atPosition rfl fun item hitem => (h item).mono fun changed hchanged => ?_
  obtain ⟨hposition, rfl⟩ := List.getElem?_eq_some_iff.1 hitem
  rw [List.map_set, hchanged, ← List.map_set, List.set_getElem_self]

end Ensures

end Editor

open Editor (Ensures)

/-- A call at a node leaves alone what is at the addresses that are not in it. -/
theorem Node.ensures_own?_atAddress {change : Node → StateT τ Option (Changed Node)}
    {left address : Address} (h : ¬ left <+: address) (node : Node) :
    Ensures (node.atAddress change left) fun changed =>
      changed.own? address = node.own? address := by
  induction left generalizing address node with
  | nil => exact absurd List.nil_prefix h
  | cons branch left ih =>
    cases node with
    | block span name body =>
      cases branch with
      | embedded position => exact Ensures.pure (by rfl) none
      | part position =>
        refine Ensures.put ?_
        match address with
        | [] | .embedded i :: address => exact Ensures.of_forall (fun _ => rfl) _
        | .part i :: address =>
          refine Ensures.atPosition_bind body fun hi => ih fun hprefix => h ?_
          exact List.cons_prefix_cons.2 ⟨by rw [hi], hprefix⟩
    | text | print | «include» => cases branch <;> exact Ensures.pure (by rfl) none

/-- A call in a tree leaves alone what is at the addresses that are not in where it is. -/
theorem Tree.ensures_own?_atAddress {changeTree : Tree → StateT τ Option (Changed Tree)}
    {changeNode : Node → StateT τ Option (Changed Node)} {left address : Address}
    (h : ¬ left <+: address) (tree : Tree) :
    Ensures (tree.atAddress changeTree changeNode left) fun changed =>
      changed.own? address = tree.own? address := by
  induction left generalizing address tree with
  | nil => exact absurd List.nil_prefix h
  | cons branch left ih =>
    have hinside : ∀ within, address = branch :: within → ¬ left <+: within := by
      rintro within rfl hprefix
      exact h (List.cons_prefix_cons.2 ⟨rfl, hprefix⟩)
    cases branch with
    | embedded position =>
      refine Ensures.put ?_
      match address with
      | [] | .part i :: address => exact Ensures.of_forall (fun _ => rfl) _
      | .embedded i :: address =>
        exact Ensures.atPosition_bind tree.embedded fun hi => ih (hinside address (by rw [hi]))
    | part position =>
      refine Ensures.put ?_
      match address with
      | [] | .embedded i :: address => exact Ensures.of_forall (fun _ => rfl) _
      | .part i :: address =>
        have hbody : Ensures (Editor.atPosition (Node.atAddress changeNode left) position tree.body)
            fun changed => changed[i]?.bind (Node.own? address) =
              tree.body[i]?.bind (Node.own? address) :=
          Ensures.atPosition_bind tree.body fun hi item =>
            Node.ensures_own?_atAddress (hinside address (by rw [hi])) item
        exact hbody.mono fun changed hchanged => congrArg (Option.map Sum.inr) hchanged

/-- What is seen of a tree and of a node depends only on what is seen of its parts. -/
structure Compositional {γ δ : Type} (viewTree : Tree → γ) (viewNode : Node → δ) : Prop where
  embedded : ∀ (tree : Tree) embedded, embedded.map viewTree = tree.embedded.map viewTree →
    viewTree { tree with embedded := embedded } = viewTree tree
  body : ∀ (tree : Tree) body, body.map viewNode = tree.body.map viewNode →
    viewTree { tree with body := body } = viewTree tree
  block : ∀ span name body body', body'.map viewNode = body.map viewNode →
    viewNode (.block span name body') = viewNode (.block span name body)

theorem Compositional.shape : Compositional Tree.shape Node.shape where
  embedded := by
    rintro ⟨name, parent, body, embedded, index⟩ embedded' h
    simp only [Tree.shape, Tree.shapes_eq_map, h]
  body := by
    rintro ⟨name, parent, body, embedded, index⟩ body' h
    simp only [Tree.shape, Node.shapes_eq_map, h]
  block span name body body' h := by simp only [Node.shape, Node.shapes_eq_map, h]

theorem Compositional.id : Compositional (fun tree => tree) (fun node => node) where
  embedded := by
    rintro ⟨name, parent, body, embedded, index⟩ embedded' h
    rw [List.map_id', List.map_id'] at h
    rw [h]
  body := by
    rintro ⟨name, parent, body, embedded, index⟩ body' h
    rw [List.map_id', List.map_id'] at h
    rw [h]
  block span name body body' h := by
    rw [List.map_id', List.map_id'] at h
    rw [h]

namespace Compositional

variable {γ δ : Type} {viewTree : Tree → γ} {viewNode : Node → δ}
  {changeTree : Tree → StateT τ Option (Changed Tree)}
  {changeNode : Node → StateT τ Option (Changed Node)}

/-- A call that keeps what is seen of a node keeps what is seen of the node around it. -/
theorem ensures_atAddress_node (hview : Compositional viewTree viewNode)
    (h : ∀ node, Ensures (changeNode node) fun changed => viewNode changed = viewNode node)
    (address : Address) (node : Node) :
    Ensures (node.atAddress changeNode address) fun changed =>
      viewNode changed = viewNode node := by
  induction address generalizing node with
  | nil => exact h node
  | cons branch address ih =>
    cases node with
    | block span name body =>
      cases branch with
      | embedded position => exact Ensures.pure (by rfl) none
      | part position =>
        exact Ensures.put ((Ensures.atPosition_map ih position body).mono
          (hview.block span name body))
    | text | print | «include» => cases branch <;> exact Ensures.pure (by rfl) none

/-- A call that keeps what is seen of a tree or a node keeps what is seen of the tree around it. -/
theorem ensures_atAddress (hview : Compositional viewTree viewNode)
    (htree : ∀ tree, Ensures (changeTree tree) fun changed => viewTree changed = viewTree tree)
    (hnode : ∀ node, Ensures (changeNode node) fun changed => viewNode changed = viewNode node)
    (address : Address) (tree : Tree) :
    Ensures (tree.atAddress changeTree changeNode address) fun changed =>
      viewTree changed = viewTree tree := by
  induction address generalizing tree with
  | nil => exact htree tree
  | cons branch address ih =>
    cases branch with
    | embedded position =>
      exact Ensures.put ((Ensures.atPosition_map ih position tree.embedded).mono
        (hview.embedded tree))
    | part position =>
      have hparts := hview.ensures_atAddress_node hnode address
      exact Ensures.put ((Ensures.atPosition_map hparts position tree.body).mono (hview.body tree))

end Compositional

namespace Editor

/-- What an editor enters keeps its shape, and so does the tree around it. -/
theorem ensures_shape_enter (e : Editor (StateT τ Option)) (entered : Address) (tree : Tree) :
    Ensures (e.call (.enter entered) tree) fun changed => changed.shape = tree.shape :=
  Compositional.shape.ensures_atAddress
    (fun _ => Ensures.put (Ensures.of_forall Subtype.property _))
    (fun _ => Ensures.put (Ensures.of_forall Subtype.property _)) entered tree

/-- The call at a visit leaves alone what is at an address. -/
def Spares (e : Editor (StateT τ Option)) (visit : Visit) (address : Address) : Prop :=
  ∀ tree, Ensures (e.call visit tree) fun changed => changed.own? address = tree.own? address

theorem spares_leave (e : Editor (StateT τ Option)) {left address : Address}
    (h : ¬ left <+: address) : e.Spares (.leave left) address := Tree.ensures_own?_atAddress h

/-- A call does not take away what later visits go to. -/
theorem ensures_isSome (e : Editor (StateT τ Option)) {visit later : Visit}
    (h : visit.MayPrecede later) (tree : Tree) :
    Ensures (e.call visit tree) fun changed =>
      (changed.own? later.address).isSome = (tree.own? later.address).isSome := by
  cases visit with
  | enter entered =>
    refine (e.ensures_shape_enter entered tree).mono fun changed hshape => ?_
    rw [Bool.eq_iff_iff, ← Tree.mem_visits, ← Tree.mem_visits, Tree.visits, Tree.visits, hshape]
  | leave left => exact (e.spares_leave h tree).mono fun _ hkept => by rw [hkept]

/-! ## What is received -/

/-- What an editor receives of some visits that wait for it, and what comes of it. It receives them
    in their order, each at something that is there, as long as it refuses none of them. The one
    that it refuses is the last one, and so is one at which it goes on forever. -/
inductive Receives (e : Editor (StateT τ Option)) :
    (visits received : List Visit) → Tree → τ → Option (Changed Tree × τ) → Prop
  | all (tree : Tree) (s : τ) : Receives e [] [] tree s (some ((tree, none), s))
  | refusal {visit : Visit} {rest : List Visit} {tree tree' : Tree} {s s' : τ} {fault : MissingPart}
      (hthere : (tree.own? visit.address).isSome)
      (hcall : (e.call visit tree).run s = some ((tree', some fault), s')) :
      Receives e (visit :: rest) [visit] tree s (some ((tree', some fault), s'))
  | forever {visit : Visit} {rest : List Visit} {tree : Tree} {s : τ}
      (hthere : (tree.own? visit.address).isSome) (hcall : (e.call visit tree).run s = none) :
      Receives e (visit :: rest) [visit] tree s none
  | next {visit : Visit} {rest received : List Visit} {tree tree' : Tree} {s s' : τ}
      {result : Option (Changed Tree × τ)}
      (hthere : (tree.own? visit.address).isSome)
      (hcall : (e.call visit tree).run s = some ((tree', none), s'))
      (hrest : Receives e rest received tree' s' result) :
      Receives e (visit :: rest) (visit :: received) tree s result

theorem receives_callAll (e : Editor (StateT τ Option)) {visits : List Visit}
    (hvisits : visits.Pairwise Visit.MayPrecede) {tree : Tree}
    (hthere : ∀ visit ∈ visits, (tree.own? visit.address).isSome) (s : τ) :
    ∃ received, e.Receives visits received tree s ((callAll e.call visits tree).run s) := by
  induction visits generalizing tree s with
  | nil => exact ⟨[], .all tree s⟩
  | cons visit rest ih =>
    obtain ⟨hfirst, hrest⟩ := List.pairwise_cons.1 hvisits
    have hhere := hthere visit List.mem_cons_self
    rw [callAll, Pass.run_andThen]
    match hcall : (e.call visit tree).run s with
    | none => exact ⟨[visit], .forever hhere hcall⟩
    | some ((tree', some fault), s') => exact ⟨[visit], .refusal hhere hcall⟩
    | some ((tree', none), s') =>
      have hlater : ∀ later ∈ rest, (tree'.own? later.address).isSome := by
        intro later hmem
        rw [e.ensures_isSome (hfirst later hmem) tree s tree' none s' hcall]
        exact hthere later (List.mem_cons_of_mem _ hmem)
      obtain ⟨received, hreceived⟩ := ih hrest hlater s'
      exact ⟨visit :: received, .next hhere hcall hreceived⟩

namespace Receives

variable {e : Editor (StateT τ Option)} {visits received received' : List Visit} {tree : Tree}
  {s : τ} {result result' : Option (Changed Tree × τ)}

theorem unique (h : e.Receives visits received tree s result)
    (h' : e.Receives visits received' tree s result') :
    received = received' ∧ result = result' := by
  induction h generalizing received' with
  | all => cases h'; exact ⟨rfl, rfl⟩
  | refusal _ hcall => cases h' <;> simp_all
  | forever _ hcall => cases h' <;> simp_all
  | next _ hcall hrest ih =>
    cases h' with
    | refusal _ hcall' => cases hcall.symm.trans hcall'
    | forever _ hcall' => cases hcall.symm.trans hcall'
    | next _ hcall' hrest' =>
      cases hcall.symm.trans hcall'
      obtain ⟨rfl, rfl⟩ := ih hrest'
      exact ⟨rfl, rfl⟩

theorem start (h : e.Receives visits received tree s result) : received <+: visits := by
  induction h with
  | all => exact List.prefix_rfl
  | refusal | forever => exact List.cons_prefix_cons.2 ⟨rfl, List.nil_prefix⟩
  | next _ _ _ ih => exact List.cons_prefix_cons.2 ⟨rfl, ih⟩

theorem complete {tree' : Tree} {s' : τ}
    (h : e.Receives visits received tree s (some ((tree', none), s'))) : received = visits := by
  generalize hresult : some ((tree', none), s') = result at h
  induction h with
  | all => rfl
  | refusal | forever => cases hresult
  | next _ _ _ ih => rw [ih hresult]

/-- What every call keeps is kept. -/
theorem keeps {γ : Type} {view : Tree → γ} {tree' : Tree} {fault : Option MissingPart} {s' : τ}
    (h : e.Receives visits received tree s (some ((tree', fault), s')))
    (hcalls : ∀ visit ∈ received, ∀ tree, Ensures (e.call visit tree)
      fun changed => view changed = view tree) : view tree' = view tree := by
  generalize hresult : some ((tree', fault), s') = result at h
  induction h with
  | all => cases hresult; rfl
  | refusal _ hcall => cases hresult; exact hcalls _ List.mem_cons_self _ _ _ _ _ hcall
  | forever => cases hresult
  | next _ hcall hrest ih =>
    rw [ih (fun visit hvisit => hcalls visit (List.mem_cons_of_mem _ hvisit)) hresult]
    exact hcalls _ List.mem_cons_self _ _ _ _ _ hcall

end Receives

/-- The visits of a tree that an editor receives on its walk. -/
theorem exists_receives (e : Editor (StateT τ Option)) (tree : Tree) (s : τ) :
    ∃ received, e.Receives tree.visits received tree s ((e.onTree tree).run s) := by
  rw [onTree_eq_callAll]
  exact e.receives_callAll tree.shape.pairwise_visits (fun visit => (tree.mem_visits visit).1) s

end Editor

namespace Pass

variable {n : Type → Type} [Monad n] [Runs n τ]

theorem ensures_looking {α : Type} (look : n (Except MissingPart Unit)) (whole : α) :
    Ensures (looking (τ := τ) look whole) (· = whole) := by
  intro s a fault s' hrun
  rw [looking, StateT.run_map, Option.map_eq_map, Option.map_eq_some_iff] at hrun
  obtain ⟨⟨answer, s''⟩, -, heq⟩ := hrun
  cases answer <;> cases heq <;> rfl

/-- A pass changes nothing where it enters. -/
theorem spares_enter (p : Pass n) (entered address : Address) :
    p.editor.Spares (.enter entered) address := by
  have hkept : ∀ tree, Ensures (p.editor.call (.enter entered) tree) (· = tree) :=
    Compositional.id.ensures_atAddress
      (fun tree => Ensures.put ((ensures_looking _ tree.asEntered).mono fun _ h => by rw [h]; rfl))
      (fun node => Ensures.put ((ensures_looking _ node.asEntered).mono fun _ h => by rw [h]; rfl))
      entered
  exact fun tree => (hkept tree).mono fun _ h => by rw [h]

end Pass

/-- The visits of a tree are twice at each address at which it has something: once to enter, once to
    leave. On its walk, an editor receives them in their order up to the first one that it refuses,
    or to the last; the fault, the tree and the state are what the calls at these visits come to. An
    editor may note its calls in the state, so this says which calls there are. No call that leaves
    something changes what is at an address that is not left yet.

    A pass walks as its editor does; so it has changed nothing of what it has not left. -/
theorem Editor.onTree_visits {n : Type → Type} [Monad n] [Runs n τ] (e : Editor (StateT τ Option))
    (p : Pass n) (tree : Tree) (s : τ) :
    tree.visits.Nodup ∧
    (∀ visit, visit ∈ tree.visits ↔ (tree.own? visit.address).isSome) ∧
    (∃! received, e.Receives tree.visits received tree s ((e.onTree tree).run s)) ∧
    (∀ received result, e.Receives tree.visits received tree s result →
      result = (e.onTree tree).run s ∧ received <+: tree.visits ∧
      (∀ tree' s', result = some ((tree', none), s') → received = tree.visits) ∧
      ∀ address, .leave address ∈ tree.visits → .leave address ∉ received →
        ∀ left, .leave left ∈ received → e.Spares (.leave left) address) ∧
    run (p.onTree tree) s = (p.editor.onTree tree).run s ∧
    (∀ received tree' fault s',
      p.editor.Receives tree.visits received tree s (some ((tree', fault), s')) →
      ∀ address, .leave address ∈ tree.visits → .leave address ∉ received →
        tree'.own? address = tree.own? address) := by
  obtain ⟨received, hreceived⟩ := e.exists_receives tree s
  refine ⟨tree.shape.pairwise_visits.imp Visit.MayPrecede.ne, tree.mem_visits,
    ⟨received, hreceived, fun other hother => (hother.unique hreceived).1⟩, ?received,
    congrFun (p.seen_onTree tree) s, ?pass⟩
  case received =>
    intro received' result h
    refine ⟨(h.unique hreceived).2, h.start, ?_, fun address haddress hnot left hleft => ?_⟩
    · rintro tree' s' rfl
      exact h.complete
    · exact e.spares_leave (Visit.left_outside h.start hleft haddress hnot)
  case pass =>
    intro received tree' fault s' h address haddress hnot
    refine h.keeps fun visit hvisit => ?_
    cases visit with
    | enter entered => exact p.spares_enter entered address
    | leave left =>
      exact p.editor.spares_leave (Visit.left_outside h.start hvisit haddress hnot)

end Ensures

namespace Editor

/-! ### A walk that ends early -/

/-- A page with a block and a text. In the block are a text and an embed of a badge, for which there
    is no name. -/
def badgePage : Tree :=
  ⟨"page", none,
    [.block ⟨0, 9⟩ "main" [.text ⟨1, 2⟩ "hi", .«include» ⟨2, 8⟩ (.embedded "" 0) {}],
      .text ⟨9, 10⟩ "bye"],
    [⟨"page", none, [.text ⟨3, 4⟩ "new"], [], some 0⟩], none⟩

/-- Notes something in the state. -/
def note (label : String) : StateT (List String × Unit) Option Unit :=
  modify fun (labels, other) => (labels ++ [label], other)

/-- An editor that notes what it leaves. It veils the names of blocks when it enters them and the
    texts when it leaves them, and refuses to leave includes. -/
def veiling : Editor (StateT (List String × Unit) Option) where
  enterTree tree := pure (tree.asEntered, none)
  leaveTree tree := do
    note tree.name
    pure (tree, none)
  enterNode
    | .block span _ body => pure (⟨.block span "veiled" body, rfl⟩, none)
    | node => pure (node.asEntered, none)
  leaveNode
    | .text span content => do
      note content
      pure (.text span "", none)
    | .«include» span target clauses => do
      note "include"
      pure (.«include» span target clauses, some ⟨"include", "name", span⟩)
    | node => do
      note "other"
      pure (node, none)

/-- A pass that refuses includes and changes nothing. -/
def refusing {n : Type → Type} [Monad n] : Pass n :=
  .changing 0 .ok fun
    | .«include» span _ _ => .error ⟨"include", "name", span⟩
    | node => .ok node

/-- The visits to the page up to the leaving of the include. -/
def badgeVisits : List Visit :=
  [.enter [],
    .enter [.embedded 0], .enter [.embedded 0, .part 0], .leave [.embedded 0, .part 0],
    .leave [.embedded 0],
    .enter [.part 0], .enter [.part 0, .part 0], .leave [.part 0, .part 0],
    .enter [.part 0, .part 1], .leave [.part 0, .part 1]]

/-- The editor and the pass get no further than to the include. What is around it is not left. -/
theorem onTree_visits_badge :
    (veiling.onTree badgePage).run ([], ()) = some ((⟨"page", none,
      [.block ⟨0, 9⟩ "veiled" [.text ⟨1, 2⟩ "", .«include» ⟨2, 8⟩ (.embedded "" 0) {}],
        .text ⟨9, 10⟩ "bye"],
      [⟨"page", none, [.text ⟨3, 4⟩ ""], [], some 0⟩], none⟩,
      some ⟨"include", "name", ⟨2, 8⟩⟩), (["new", "page", "hi", "include"], ())) ∧
    veiling.Spares (.leave [.part 0, .part 0]) [.part 0] ∧
    ∃ tree', run ((refusing : Pass Id).onTree badgePage) () =
        some ((tree', some ⟨"include", "name", ⟨2, 8⟩⟩), ()) ∧
      tree'.own? [.part 0] = badgePage.own? [.part 0] := by
  have hveiling : veiling.Receives badgePage.visits badgeVisits badgePage ([], ()) (some ((⟨"page",
      none, [.block ⟨0, 9⟩ "veiled" [.text ⟨1, 2⟩ "", .«include» ⟨2, 8⟩ (.embedded "" 0) {}],
        .text ⟨9, 10⟩ "bye"], [⟨"page", none, [.text ⟨3, 4⟩ ""], [], some 0⟩], none⟩,
      some ⟨"include", "name", ⟨2, 8⟩⟩), (["new", "page", "hi", "include"], ()))) :=
    .next rfl rfl (.next rfl rfl (.next rfl rfl (.next rfl rfl (.next rfl rfl (.next rfl rfl
      (.next rfl rfl (.next rfl rfl (.next rfl rfl (.refusal rfl rfl)))))))))
  have hrefusing : (refusing : Pass Id).editor.Receives badgePage.visits badgeVisits badgePage ()
      (some ((badgePage, some ⟨"include", "name", ⟨2, 8⟩⟩), ())) :=
    .next rfl rfl (.next rfl rfl (.next rfl rfl (.next rfl rfl (.next rfl rfl (.next rfl rfl
      (.next rfl rfl (.next rfl rfl (.next rfl rfl (.refusal rfl rfl)))))))))
  have hreached : Visit.leave [.part 0] ∈ badgePage.visits := by decide
  have hunreached : Visit.leave [.part 0] ∉ badgeVisits := by decide
  obtain ⟨-, -, -, hreceived, -, -⟩ :=
    onTree_visits veiling (refusing : Pass (StateT (List String) Id)) badgePage ([], ())
  obtain ⟨hrun, -, -, hspares⟩ := hreceived badgeVisits _ hveiling
  obtain ⟨-, -, -, hreceived', hwalk, hkept⟩ :=
    onTree_visits (refusing : Pass Id).editor (refusing : Pass Id) badgePage ()
  refine ⟨hrun.symm, hspares [.part 0] hreached hunreached [.part 0, .part 0] (by decide),
    badgePage, ?_, hkept badgeVisits _ _ _ hrefusing [.part 0] hreached hunreached⟩
  rw [hwalk]
  exact (hreceived' badgeVisits _ hrefusing).1.symm

end Editor

end Stencil
