import Stencil.Proofs.Compiled
import Stencil.Proofs.Unfolding

/-!
# Rendering without a bound

The rendering of a body bounds how many definitions lead from one to the next. `Access.Yields` is the
rendering that goes on with the definition of a block, whatever it is, and that has a result only if
it ends. Here the two are shown to agree: what a rendering with any patience ends in is what the one
without a bound ends in, unless the patience was at an end; and whatever the one without a bound ends
in, all large enough patiences lead to.

Results:
* `Access.Yields.unique`: the rendering without the bound ends in one way at most.
* `Access.yields_of_renderTree`: a rendering with some patience, unless that was at an end.
* `Access.Yields.exists_patience`: a rendering without the bound, with enough patience.
* `Engine.yields_of_render`, `Engine.Yields.exists_patience`: the same of engines.
-/

namespace Stencil

/-- Something to be rendered at some depth. -/
inductive Job where
  | node (depth : Nat) (context : Context) (defined : Definitions) (owner : Tree) (node : Node)
  | body (depth : Nat) (context : Context) (defined : Definitions) (owner : Tree)
    (nodes : List Node)
  | tree (depth : Nat) (context : Context) (defined : Definitions) (owner : Tree) (tree : Tree)

namespace Access

variable {n : Type → Type} [Monad n] {τ : Type} [Runs n τ]

/-- A rendering from a state yields a text or a failure, and the state after it. Nothing bounds how
    many definitions lead from one to the next. -/
inductive Yields (a : Access n) : Job → τ → Except Failure String → τ → Prop
  | text {depth context defined owner span content s} :
      Yields a (.node depth context defined owner (.text span content)) s (.ok content) s
  | print {depth context defined owner span expr s r s'} :
      outcome (a.print context expr) s = some (r, s') →
      Yields a (.node depth context defined owner (.print span expr)) s r s'
  | own {depth context defined owner span name body s r s'} :
      Dict.get? defined name = none →
      Yields a (.body depth context defined owner body) s r s' →
      Yields a (.node depth context defined owner (.block span name body)) s r s'
  | defined {depth context defined owner span name body d s r s'} :
      Dict.get? defined name = some d →
      Yields a (.body depth context defined d.owner d.body) s r s' →
      Yields a (.node depth context defined owner (.block span name body)) s r s'
  | notFound {depth context defined owner span target clauses e s s'} :
      outcome (a.insertion? context owner target clauses) s = some (.error e, s') →
      Yields a (.node depth context defined owner (.«include» span target clauses)) s (.error e) s'
  | skipped {depth context defined owner span target clauses s s'} :
      outcome (a.insertion? context owner target clauses) s = some (.ok none, s') →
      Yields a (.node depth context defined owner (.«include» span target clauses)) s (.ok "") s'
  | inserted {depth context defined owner span target clauses i s s' r s''} :
      outcome (a.insertion? context owner target clauses) s = some (.ok (some i), s') →
      Yields a (.tree (depth + 1) i.context [] i.owner i.tree) s' r s'' →
      Yields a (.node depth context defined owner (.«include» span target clauses)) s r s''
  | nil {depth context defined owner s} :
      Yields a (.body depth context defined owner []) s (.ok "") s
  | failed {depth context defined owner node rest e s s'} :
      Yields a (.node depth context defined owner node) s (.error e) s' →
      Yields a (.body depth context defined owner (node :: rest)) s (.error e) s'
  | cons {depth context defined owner node rest front s s' r s''} :
      Yields a (.node depth context defined owner node) s (.ok front) s' →
      Yields a (.body depth context defined owner rest) s' r s'' →
      Yields a (.body depth context defined owner (node :: rest)) s (r.map (front ++ ·)) s''
  | tooDeep {depth context defined owner tree s} :
      a.maxDepth < depth →
      Yields a (.tree depth context defined owner tree) s (.error (.tooDeep a.maxDepth tree.name)) s
  | root {depth context defined owner tree s r s'} :
      depth ≤ a.maxDepth → tree.parent = none →
      Yields a (.body depth context defined owner tree.body) s r s' →
      Yields a (.tree depth context defined owner tree) s r s'
  | orphan {depth context defined owner tree parent e s s'} :
      depth ≤ a.maxDepth → tree.parent = some parent →
      outcome (a.parent context parent) s = some (.error e, s') →
      Yields a (.tree depth context defined owner tree) s (.error e) s'
  | child {depth context defined owner tree parent found s s' r s''} :
      depth ≤ a.maxDepth → tree.parent = some parent →
      outcome (a.parent context parent) s = some (.ok found, s') →
      Yields a (.tree (depth + 1) context (addDefinitions defined owner tree.blocks) found found)
        s' r s'' →
      Yields a (.tree depth context defined owner tree) s r s''

/-- A rendering ends in one way at most. -/
theorem Yields.unique {a : Access n} {job : Job} {s : τ} {r₁ r₂ : Except Failure String}
    {s₁ s₂ : τ} (h₁ : Yields a job s r₁ s₁) (h₂ : Yields a job s r₂ s₂) : r₁ = r₂ ∧ s₁ = s₂ := by
  induction h₁ generalizing r₂ s₂ with
  | text => cases h₂; exact ⟨rfl, rfl⟩
  | print h =>
    cases h₂ with
    | print h' => simpa [h] using h'
  | own hname _ ih =>
    cases h₂ with
    | own _ h' => exact ih h'
    | defined hname' => simp [hname] at hname'
  | defined hname _ ih =>
    cases h₂ with
    | own hname' => simp [hname] at hname'
    | defined hname' h' =>
      cases hname.symm.trans hname'
      exact ih h'
  | notFound h =>
    cases h₂ with
    | notFound h' => simpa [h] using h'
    | skipped h' => simp [h] at h'
    | inserted h' => simp [h] at h'
  | skipped h =>
    cases h₂ with
    | notFound h' => simp [h] at h'
    | skipped h' => simpa [h] using h'
    | inserted h' => simp [h] at h'
  | inserted h _ ih =>
    cases h₂ with
    | notFound h' => simp [h] at h'
    | skipped h' => simp [h] at h'
    | inserted h' hrest =>
      cases h.symm.trans h'
      exact ih hrest
  | nil => cases h₂; exact ⟨rfl, rfl⟩
  | failed _ ih =>
    cases h₂ with
    | failed h' => exact ih h'
    | cons h' _ => cases (ih h').1
  | cons _ _ ihNode ihRest =>
    cases h₂ with
    | failed h' => cases (ihNode h').1
    | cons h' hrest =>
      obtain ⟨hfront, rfl⟩ := ihNode h'
      cases hfront
      obtain ⟨rfl, rfl⟩ := ihRest hrest
      exact ⟨rfl, rfl⟩
  | tooDeep hdepth =>
    cases h₂ with
    | tooDeep => exact ⟨rfl, rfl⟩
    | root h => omega
    | orphan h => omega
    | child h => omega
  | root hdepth hparent _ ih =>
    cases h₂ with
    | tooDeep h => omega
    | root _ _ h' => exact ih h'
    | orphan _ hparent' => simp [hparent] at hparent'
    | child _ hparent' => simp [hparent] at hparent'
  | orphan hdepth hparent h =>
    cases h₂ with
    | tooDeep h => omega
    | root _ hparent' => simp [hparent] at hparent'
    | orphan _ hparent' h' =>
      cases hparent.symm.trans hparent'
      simpa [h] using h'
    | child _ hparent' h' =>
      cases hparent.symm.trans hparent'
      simp [h] at h'
  | child hdepth hparent h _ ih =>
    cases h₂ with
    | tooDeep h => omega
    | root _ hparent' => simp [hparent] at hparent'
    | orphan _ hparent' h' =>
      cases hparent.symm.trans hparent'
      simp [h] at h'
    | child _ hparent' h' hrest =>
      cases hparent.symm.trans hparent'
      cases h.symm.trans h'
      exact ih hrest

/-! ## Renderings with patience -/

variable {a : Access n} {I : τ → Prop} {fit : Tree → Tree → Prop} {bad : Failure → Prop}
  {render : Insertion → Rendering n String} {depth : Nat} {context : Context}
  {defined : Definitions}

/-- Whatever an access does from states with an invariant leads to such states, and the trees it finds
    are fit to be rendered with their owners. -/
structure Keeps (a : Access n) (I : τ → Prop) (fit : Tree → Tree → Prop) : Prop where
  print : ∀ context expr, Preserves I (fun _ => True) (a.print context expr)
  parent : ∀ context expr, Preserves I (fun found => fit found found) (a.parent context expr)
  insertion? : ∀ context {tree owner} target clauses, fit tree owner →
    Preserves I (fun found => ∀ i, found = some i → fit i.tree i.owner)
      (a.insertion? context owner target clauses)

/-- The owner of each definition is fit to render some tree. -/
def OwnersFit (fit : Tree → Tree → Prop) (defined : Definitions) : Prop :=
  ∀ name d, Dict.get? defined name = some d → ∃ tree, fit tree d.owner

theorem OwnersFit.nil : OwnersFit fit [] := fun _ _ hd => by cases hd

/-- A tree that is fit to be rendered with its owner adds its blocks with that owner. -/
theorem OwnersFit.add (h : OwnersFit fit defined) {tree owner : Tree} (htree : fit tree owner) :
    OwnersFit fit (addDefinitions defined owner tree.blocks) := by
  intro name d hd
  rw [get?_addDefinitions_tree] at hd
  rcases Option.or_eq_some_iff.1 hd with hold | ⟨-, hnew⟩
  · exact h name d hold
  · obtain ⟨b, -, rfl⟩ := Option.map_eq_some_iff.1 hnew
    exact ⟨tree, htree⟩

/-- The bound is tolerated: its failure is one of the given ones, or it is never reached, since no
    block of a tree or of the definitions leads around a circle. -/
def Tolerated (fit : Tree → Tree → Prop) (bad : Failure → Prop) (defined : Definitions) : Prop :=
  (∀ name, bad (.endlessBlock name)) ∨
    (∀ tree owner, fit tree owner → tree.Fresh) ∧ ∃ rank, Ranked defined rank

namespace Tolerated

theorem of_fresh (h : ∀ tree owner, fit tree owner → tree.Fresh) : Tolerated fit bad [] :=
  .inr ⟨h, fun _ => 0, ranked_nil _⟩

/-- What is inserted starts with no definition. -/
theorem inserted (h : Tolerated fit bad defined) : Tolerated fit bad [] :=
  h.imp_right fun h => ⟨h.1, fun _ => 0, ranked_nil _⟩

theorem add (h : Tolerated fit bad defined) {tree owner : Tree} (htree : fit tree owner)
    (hparent : tree.parent.isSome) : Tolerated fit bad (addDefinitions defined owner tree.blocks) := by
  refine h.imp_right ?_
  rintro ⟨hfresh, rank, hrank⟩
  exact ⟨hfresh, hrank.add owner (hfresh tree owner htree hparent)⟩

/-- As many steps as there are definitions are enough for every body. -/
theorem bound (h : Tolerated fit bad defined) (patience : Nat) (body : List Node) :
    (∀ name, bad (.endlessBlock name)) ∨
      ∃ rank, Ranked defined rank ∧
        RankedBelow defined rank (defined.length + patience) body := by
  refine h.imp_right ?_
  rintro ⟨-, rank, hrank⟩
  obtain ⟨rank, hrank, hbelow⟩ := hrank.bounded
  exact ⟨rank, hrank, fun name _ d hd => Nat.lt_add_right _ (hbelow name d hd)⟩

end Tolerated

/-- From states with an invariant, a step ends as a job does without a bound, unless it ends with one
    of some failures. -/
def Renders (a : Access n) (I : τ → Prop) (bad : Failure → Prop) (job : Job)
    (x : Rendering n String) : Prop :=
  ∀ ⦃s⦄, I s → ∀ ⦃r s'⦄, outcome x s = some (r, s') →
    I s' ∧ ((∃ e, r = .error e ∧ bad e) ∨ Yields a job s r s')

namespace Renders

/-- A node and the nodes after it. -/
theorem join {owner : Tree} {node : Node} {rest : List Node} {front back : Rendering n String}
    (hfront : Renders a I bad (.node depth context defined owner node) front)
    (hback : Renders a I bad (.body depth context defined owner rest) back) :
    Renders a I bad (.body depth context defined owner (node :: rest)) (join front back) := by
  intro s hs r s' h
  rcases of_outcome_join h with ⟨e, rfl, hrun⟩ | ⟨first, more, s₁, hrun, hmore, rfl⟩
  · obtain ⟨hs', hbad | hyields⟩ := hfront hs hrun
    · exact ⟨hs', .inl hbad⟩
    · exact ⟨hs', .inr (.failed hyields)⟩
  · obtain ⟨hs₁, ⟨e, herror, -⟩ | hfirst⟩ := hfront hs hrun
    · cases herror
    · obtain ⟨hs', ⟨e, rfl, hbad⟩ | hrest⟩ := hback hs₁ hmore
      · exact ⟨hs', .inl ⟨e, rfl, hbad⟩⟩
      · exact ⟨hs', .inr (.cons hfirst hrest)⟩

theorem insert (ha : a.Keeps I fit)
    (hrender : ∀ i : Insertion, fit i.tree i.owner →
      Renders a I bad (.tree (depth + 1) i.context [] i.owner i.tree) (render i))
    {tree owner : Tree} (howner : fit tree owner) (span : Span) (target : Target)
    (clauses : Clauses) :
    Renders a I bad (.node depth context defined owner (.«include» span target clauses))
      (a.insert render context owner target clauses) := by
  intro s hs r s' h
  rw [Access.insert, outcome_bind] at h
  obtain ⟨⟨found, s₁⟩, hfound, h⟩ := Option.bind_eq_some_iff.1 h
  obtain ⟨hs₁, hfit⟩ := ha.insertion? context target clauses howner hs hfound
  cases found with
  | error e =>
    cases h
    exact ⟨hs₁, .inr (.notFound hfound)⟩
  | ok found =>
    cases found with
    | none =>
      have hempty : outcome (pure "" : Rendering n String) s₁ = some (r, s') := h
      rw [outcome_pure] at hempty
      cases hempty
      exact ⟨hs₁, .inr (.skipped hfound)⟩
    | some i =>
      obtain ⟨hs', hbad | hyields⟩ := hrender i (hfit _ rfl i rfl) hs₁ h
      · exact ⟨hs', .inl hbad⟩
      · exact ⟨hs', .inr (.inserted hfound hyields)⟩

/-- A body, if the definitions that its blocks lead to are rendered as they are without a bound. -/
theorem body_of_follow (ha : a.Keeps I fit)
    (hrender : ∀ i : Insertion, fit i.tree i.owner →
      Renders a I bad (.tree (depth + 1) i.context [] i.owner i.tree) (render i))
    {tree owner : Tree} (howner : fit tree owner) {bound : Nat} {body : List Node}
    (hfollow : ∀ name ∈ Node.blockNames body, ∀ d, Dict.get? defined name = some d →
      Renders a I bad (.body depth context defined d.owner d.body)
        (a.follow render context defined bound name d)) :
    Renders a I bad (.body depth context defined owner body)
      (a.renderBody render context defined bound owner body) := by
  induction body using Node.body_induction with
  | nil =>
    intro s hs r s' h
    rw [renderBody_nil, outcome_pure] at h
    cases h
    exact ⟨hs, .inr .nil⟩
  | leaf node rest hleaf ih =>
    rw [renderBody_cons]
    refine join ?_ (ih (by rwa [Node.blockNames_leaf hleaf] at hfollow))
    cases node with
    | text span content =>
      intro s hs r s' h
      rw [renderNode_text, outcome_pure] at h
      cases h
      exact ⟨hs, .inr .text⟩
    | print span expr =>
      intro s hs r s' h
      rw [renderNode_print] at h
      exact ⟨(ha.print context expr hs h).1, .inr (.print h)⟩
    | block => exact hleaf.elim
    | «include» span target clauses =>
      rw [renderNode_include]
      exact insert ha hrender howner span target clauses
  | block span name inner rest ihBody ihRest =>
    rw [renderBody_cons]
    rw [Node.blockNames_block, List.forall_mem_cons] at hfollow
    obtain ⟨hname, hothers⟩ := hfollow
    refine join ?_ (ihRest fun other h => hothers other (List.mem_append_right _ h))
    intro s hs r s' h
    cases hd : Dict.get? defined name with
    | none =>
      rw [renderNode_own _ _ _ _ _ _ hd] at h
      have hinner := ihBody fun other h => hothers other (List.mem_append_left _ h)
      obtain ⟨hs', hbad | hyields⟩ := hinner hs h
      · exact ⟨hs', .inl hbad⟩
      · exact ⟨hs', .inr (.own hd hyields)⟩
    | some d =>
      rw [renderNode_defined _ _ _ _ _ _ hd] at h
      obtain ⟨hs', hbad | hyields⟩ := hname d hd hs h
      · exact ⟨hs', .inl hbad⟩
      · exact ⟨hs', .inr (.defined hd hyields)⟩

/-- A body, if the failure of the bound is one of the given ones or if the bound is never reached. -/
theorem body (ha : a.Keeps I fit)
    (hrender : ∀ i : Insertion, fit i.tree i.owner →
      Renders a I bad (.tree (depth + 1) i.context [] i.owner i.tree) (render i))
    (howners : OwnersFit fit defined) {tree owner : Tree} (howner : fit tree owner) {bound : Nat} {body : List Node}
    (hbound : (∀ name, bad (.endlessBlock name)) ∨
      ∃ rank, Ranked defined rank ∧ RankedBelow defined rank bound body) :
    Renders a I bad (.body depth context defined owner body)
      (a.renderBody render context defined bound owner body) := by
  induction bound generalizing tree owner body with
  | zero =>
    refine body_of_follow ha hrender howner fun name hname d hd => ?_
    rcases hbound with hbad | ⟨rank, -, hbelow⟩
    · intro s hs r s' h
      rw [follow_zero, outcome_throw] at h
      cases h
      exact ⟨hs, .inl ⟨_, rfl, hbad name⟩⟩
    · exact absurd (hbelow name hname d hd) (Nat.not_lt_zero _)
  | succ bound ih =>
    refine body_of_follow ha hrender howner fun name hname d hd => ?_
    obtain ⟨inner, hinner⟩ := howners name d hd
    rw [follow_succ]
    refine ih hinner (hbound.imp_right ?_)
    rintro ⟨rank, hrank, hbelow⟩
    exact ⟨rank, hrank, (hrank.below hd).mono (Nat.lt_succ_iff.1 (hbelow name hname d hd))⟩

/-- A tree, with definitions for which the bound is tolerated. -/
theorem tree (ha : a.Keeps I fit) {patience remaining : Nat}
    (hdepth : a.maxDepth + 1 - depth = remaining)
    (htolerated : Tolerated fit bad defined) (howners : OwnersFit fit defined)
    {tree owner : Tree} (htree : fit tree owner) :
    Renders a I bad (.tree depth context defined owner tree)
      (a.renderTree patience remaining defined tree owner context) := by
  induction remaining generalizing depth defined tree owner context with
  | zero =>
    intro s hs r s' h
    rw [renderTree_zero, outcome_throw] at h
    cases h
    exact ⟨hs, .inr (.tooDeep (by omega))⟩
  | succ remaining ih =>
    have hle : depth ≤ a.maxDepth := by omega
    have hnext : a.maxDepth + 1 - (depth + 1) = remaining := by omega
    intro s hs r s' h
    cases hparent : tree.parent with
    | none =>
      rw [renderTree_root _ _ _ _ hparent] at h
      have hrender : ∀ i : Insertion, fit i.tree i.owner →
          Renders a I bad (.tree (depth + 1) i.context [] i.owner i.tree)
            (a.renderTree patience remaining [] i.tree i.owner i.context) :=
        fun i hi => ih hnext htolerated.inserted .nil hi
      have hbound := htolerated.bound patience tree.body
      obtain ⟨hs', hbad | hyields⟩ := body ha hrender howners htree hbound hs h
      · exact ⟨hs', .inl hbad⟩
      · exact ⟨hs', .inr (.root hle hparent hyields)⟩
    | some parent =>
      rw [renderTree_child _ _ _ _ hparent, outcome_bind] at h
      obtain ⟨⟨found, s₁⟩, hfound, h⟩ := Option.bind_eq_some_iff.1 h
      obtain ⟨hs₁, hfit⟩ := ha.parent context parent hs hfound
      cases found with
      | error e =>
        cases h
        exact ⟨hs₁, .inr (.orphan hle hparent hfound)⟩
      | ok found =>
        have htolerated' := htolerated.add htree (by simp [hparent])
        have howners' := howners.add htree
        obtain ⟨hs', hbad | hyields⟩ := ih hnext htolerated' howners' (hfit found rfl) hs₁ h
        · exact ⟨hs', .inl hbad⟩
        · exact ⟨hs', .inr (.child hle hparent hfound hyields)⟩

end Renders

/-- A rendering with some patience ends as the one without a bound does, unless the patience was at
    an end. -/
theorem yields_of_renderTree {patience : Nat} {tree owner : Tree} {s s' : τ}
    {r : Except Failure String}
    (h : outcome (a.renderTree patience (a.maxDepth + 1 - depth) [] tree owner context) s =
      some (r, s')) :
    (∃ name, r = .error (.endlessBlock name)) ∨
      Yields a (.tree depth context [] owner tree) s r s' := by
  have hkeeps : a.Keeps (fun _ : τ => True) fun _ _ => True :=
    ⟨fun _ _ _ _ _ _ _ => ⟨trivial, fun _ _ => trivial⟩,
      fun _ _ _ _ _ _ _ => ⟨trivial, fun _ _ => trivial⟩,
      fun _ _ _ _ _ _ _ _ _ _ _ => ⟨trivial, fun _ _ _ _ => trivial⟩⟩
  have hrenders : Renders a (fun _ : τ => True) (fun e => ∃ name, e = .endlessBlock name)
      (.tree depth context [] owner tree)
      (a.renderTree patience (a.maxDepth + 1 - depth) [] tree owner context) :=
    .tree hkeeps rfl (.inl fun name => ⟨name, rfl⟩) .nil trivial
  refine (hrenders trivial h).2.imp_left ?_
  rintro ⟨_, rfl, name, rfl⟩
  exact ⟨name, rfl⟩

/-! ## Enough patience -/

/-- What is inserted at some depth, with some patience. -/
def below (a : Access n) (patience depth : Nat) (i : Insertion) : Rendering n String :=
  a.renderTree patience (a.maxDepth - depth) [] i.tree i.owner i.context

/-- A job with a bound for the definitions that lead from one to the next, and with some patience for
    what is inserted. -/
def perform (a : Access n) (bound patience : Nat) : Job → Rendering n String
  | .node depth context defined owner node =>
    a.renderNode (a.below patience depth) context defined bound owner node
  | .body depth context defined owner nodes =>
    a.renderBody (a.below patience depth) context defined bound owner nodes
  | .tree depth context defined owner tree =>
    a.renderTree patience (a.maxDepth + 1 - depth) defined tree owner context

/-- What the rendering without a bound ends in, every rendering with enough patience ends in. -/
theorem Yields.exists_patience {job : Job} {s s' : τ} {r : Except Failure String}
    (h : Yields a job s r s') : ∃ least, ∀ bound patience, least ≤ bound → least ≤ patience →
      outcome (a.perform bound patience job) s = some (r, s') := by
  induction h with
  | text => exact ⟨0, fun bound patience _ _ => by rw [perform, renderNode_text, outcome_pure]⟩
  | print h => exact ⟨0, fun bound patience _ _ => by rw [perform, renderNode_print, h]⟩
  | own hname _ ih =>
    obtain ⟨least, ih⟩ := ih
    refine ⟨least, fun bound patience hbound hpatience => ?_⟩
    rw [perform, renderNode_own _ _ _ _ _ _ hname]
    exact ih bound patience hbound hpatience
  | defined hname _ ih =>
    obtain ⟨least, ih⟩ := ih
    refine ⟨least + 1, fun bound patience hbound hpatience => ?_⟩
    obtain ⟨bound, rfl⟩ : ∃ b, bound = b + 1 := ⟨bound - 1, by omega⟩
    rw [perform, renderNode_defined _ _ _ _ _ _ hname, follow_succ]
    exact ih bound patience (by omega) (by omega)
  | notFound h =>
    refine ⟨0, fun bound patience _ _ => ?_⟩
    rw [perform, renderNode_include]
    exact outcome_bind_error h _
  | skipped h =>
    refine ⟨0, fun bound patience _ _ => ?_⟩
    rw [perform, renderNode_include, insert, outcome_bind_ok h]
    exact outcome_pure ..
  | @inserted depth _ _ _ _ _ _ i _ _ _ _ h _ ih =>
    obtain ⟨least, ih⟩ := ih
    refine ⟨least, fun bound patience hbound hpatience => ?_⟩
    have hdepth : a.maxDepth + 1 - (depth + 1) = a.maxDepth - depth := by omega
    have hinner := ih bound patience hbound hpatience
    rw [perform, hdepth] at hinner
    rw [perform, renderNode_include, insert, outcome_bind_ok h]
    exact hinner
  | nil => exact ⟨0, fun bound patience _ _ => by rw [perform, renderBody_nil, outcome_pure]⟩
  | failed _ ih =>
    obtain ⟨least, ih⟩ := ih
    refine ⟨least, fun bound patience hbound hpatience => ?_⟩
    rw [perform, renderBody_cons]
    exact outcome_bind_error (ih bound patience hbound hpatience) _
  | @cons _ _ _ _ _ _ front _ s₁ r _ _ _ ihNode ihRest =>
    obtain ⟨least, ihNode⟩ := ihNode
    obtain ⟨least', ihRest⟩ := ihRest
    refine ⟨max least least', fun bound patience hbound hpatience => ?_⟩
    have hnode := ihNode bound patience (by omega) (by omega)
    have hrest := ihRest bound patience (by omega) (by omega)
    simp only [perform] at hnode hrest ⊢
    rw [renderBody_cons]
    change outcome (join _ _) _ = _
    simp only [outcome_join, hnode, Option.bind_some, hrest, Option.map_some]
  | tooDeep hdepth =>
    refine ⟨0, fun bound patience _ _ => ?_⟩
    rw [perform, Nat.sub_eq_zero_of_le hdepth, renderTree_zero, outcome_throw]
  | @root depth _ _ _ _ _ _ _ hdepth hparent _ ih =>
    obtain ⟨least, ih⟩ := ih
    refine ⟨least, fun bound patience hbound hpatience => ?_⟩
    rw [perform, Nat.succ_sub hdepth, renderTree_root _ _ _ _ hparent]
    exact ih _ patience (by omega) hpatience
  | orphan hdepth hparent h =>
    refine ⟨0, fun bound patience _ _ => ?_⟩
    rw [perform, Nat.succ_sub hdepth, renderTree_child _ _ _ _ hparent]
    exact outcome_bind_error h _
  | @child depth _ _ _ _ _ _ _ _ _ _ hdepth hparent h _ ih =>
    obtain ⟨least, ih⟩ := ih
    refine ⟨least, fun bound patience hbound hpatience => ?_⟩
    have hinner := ih bound patience hbound hpatience
    rw [perform, Nat.succ_sub_succ] at hinner
    rw [perform, Nat.succ_sub hdepth, renderTree_child _ _ _ _ hparent, outcome_bind_ok h]
    exact hinner

end Access

/-! ## Engines -/

namespace Engine

section Yields

variable {m : Type → Type} [Monad m] {τ : Type} [Runs m τ]

/-- The rendering of a compiled template yields a text or a failure. Nothing bounds how many
    definitions lead from one to the next. -/
def TemplateYields (e : Engine m) (template : Template) (context : Context) (s : Cache × τ)
    (r : Except Failure String) (s' : Cache × τ) : Prop :=
  e.host.access.Yields (.tree 0 context [] template.tree template.tree) s r s'

/-- The rendering of a template by its name yields a text or a failure. -/
inductive Yields (e : Engine m) (name : String) (context : Context) :
    Cache × τ → Except Failure String → Cache × τ → Prop
  | notLoaded {failure s s'} : run (e.load name) s = some (.error failure, s') →
      Yields e name context s (.error failure) s'
  | loaded {template s s' r s''} : run (e.load name) s = some (.ok template, s') →
      e.TemplateYields template context s' r s'' → Yields e name context s r s''

variable {e : Engine m} {context : Context} {s s' : Cache × τ} {r : Except Failure String}

/-- The engine with another patience. -/
def patient (e : Engine m) (patience : Nat) : Engine m := { e with patience := patience }

theorem yields_of_renderTemplate {template : Template}
    (h : run (e.renderTemplate template context) s = some (r, s')) :
    (∃ name, r = .error (.endlessBlock name)) ∨ e.TemplateYields template context s r s' :=
  Access.yields_of_renderTree h

/-- A rendering ends as it does without a bound, unless the patience of the engine was at an end. -/
theorem yields_of_render {name : String} (h : run (e.render name context) s = some (r, s')) :
    (∃ name, r = .error (.endlessBlock name)) ∨ e.Yields name context s r s' := by
  have hsteps : outcome (Rendering.ofAction (e.load name) >>= fun template =>
      Rendering.ofAction (e.renderTemplate template context)) s = some (r, s') := h
  rw [outcome_bind] at hsteps
  obtain ⟨⟨template, s₁⟩, hload, hrest⟩ := Option.bind_eq_some_iff.1 hsteps
  cases template with
  | error failure =>
    cases hrest
    exact .inr (.notLoaded hload)
  | ok template => exact (yields_of_renderTemplate hrest).imp_right (.loaded hload)

/-- What a rendering without a bound ends in, the engine ends in with any patience from some one on. -/
theorem TemplateYields.exists_patience {template : Template}
    (h : e.TemplateYields template context s r s') : ∃ least, ∀ patience, least ≤ patience →
      run ((e.patient patience).renderTemplate template context) s = some (r, s') := by
  obtain ⟨least, hleast⟩ := Access.Yields.exists_patience h
  exact ⟨least, fun patience h => hleast patience patience h h⟩

theorem Yields.exists_patience {name : String} (h : e.Yields name context s r s') :
    ∃ least, ∀ patience, least ≤ patience →
      run ((e.patient patience).render name context) s = some (r, s') := by
  cases h with
  | notLoaded hload => exact ⟨0, fun patience _ => outcome_bind_error hload _⟩
  | loaded hload hyields =>
    obtain ⟨least, hleast⟩ := hyields.exists_patience
    exact ⟨least, fun patience h => (outcome_bind_ok hload _).trans (hleast patience h)⟩

end Yields

end Engine

end Stencil
