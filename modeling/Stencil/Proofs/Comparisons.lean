import Stencil.Proofs.Definitions
import Stencil.Proofs.Texts

/-!
# Renderings compared step by step

A comparison of renderings is a relation that holds between answers and between failures, and that
steps keep when they are put one after the other. Evaluation and rendering are made of such steps.
Where the functions of two hosts and the variables in two contexts compare, so do the values of all
expressions that call and read only these; where printing and finding templates compares, so does
rendering every tree.

Results:
* `Comparison.of`, `Comparison.join`: further steps that keep a comparison.
* `Comparison.follows`, `Comparison.same`: renderings that follow each other, and equal ones.
* `Host.evaluate_reads`: evaluation in two contexts, under two settings.
* `Host.evaluate_compares`, `Host.print_compares`, `Host.passed_compares`: evaluation.
* `Access.Compares.renderTree`, `Access.Compares.render`: rendering.
-/

namespace Stencil

/-- A relation between renderings in two monads that steps keep when they are composed. -/
structure Comparison (n₁ n₂ : Type → Type) [Monad n₁] [Monad n₂] where
  /-- The two renderings compare. -/
  holds : {α : Type} → Rendering n₁ α → Rendering n₂ α → Prop
  pure : ∀ {α : Type} (a : α), holds (pure a) (pure a)
  throw : ∀ {α : Type} (e : Failure), holds (α := α) (throw e) (throw e)
  bind : ∀ {α β : Type} {x : Rendering n₁ α} {y : Rendering n₂ α} {f : α → Rendering n₁ β}
    {g : α → Rendering n₂ β}, holds x y → (∀ a, holds (f a) (g a)) → holds (x >>= f) (y >>= g)

namespace Comparison

variable {n₁ n₂ : Type → Type} [Monad n₁] [Monad n₂]

section Steps

variable (c : Comparison n₁ n₂) {α : Type}

theorem of (r : Except Failure α) :
    c.holds (.of r : Rendering n₁ α) (.of r : Rendering n₂ α) := by
  cases r with
  | ok a => exact c.pure a
  | error e => exact c.throw e

theorem join {front back : Rendering n₁ String} {front' back' : Rendering n₂ String}
    (hfront : c.holds front front') (hback : c.holds back back') :
    c.holds (Stencil.join front back) (Stencil.join front' back') :=
  c.bind hfront fun _ => c.bind hback fun _ => c.pure _

end Steps

/-- Renderings that follow each other, with equal answers. -/
def follows {τ₁ τ₂ : Type} [Runs n₁ τ₁] [Runs n₂ τ₂] (excuse : Failure → Prop)
    (S : τ₁ → τ₂ → Prop) : Comparison n₁ n₂ where
  holds x y := Follows excuse S Eq x y
  pure _ := .pure rfl
  throw e := .throw e
  bind h hf := by
    refine h.bind ?_
    rintro a _ rfl
    exact hf a

/-- Equal renderings. -/
def same {n : Type → Type} [Monad n] : Comparison n n where
  holds x y := x = y
  pure _ := rfl
  throw _ := rfl
  bind h hf := by rw [h, funext hf]

end Comparison

/-! ## The functions that an expression calls -/

mutual

/-- The names of the functions that an expression calls. -/
def Expr.calls : Expr → List String
  | .constant .. => []
  | .name .. => []
  | .mapping _ entries => Expr.callsInEntries entries
  | .array _ items => Expr.callsInAll items
  | .attribute _ object _ => object.calls
  | .concat _ left right => left.calls ++ right.calls
  | .call _ function arguments => function :: Expr.callsInAll arguments

/-- The names of the functions that some expressions call. -/
def Expr.callsInAll : List Expr → List String
  | [] => []
  | e :: rest => e.calls ++ Expr.callsInAll rest

/-- The names of the functions that the entries of a mapping call. -/
def Expr.callsInEntries : List (String × Expr) → List String
  | [] => []
  | (_, e) :: rest => e.calls ++ Expr.callsInEntries rest

end

/-! ## The variables that an expression reads -/

mutual

/-- The names of the variables that an expression reads. -/
def Expr.variables : Expr → List String
  | .constant .. => []
  | .name _ x => [x]
  | .mapping _ entries => Expr.variablesInEntries entries
  | .array _ items => Expr.variablesInAll items
  | .attribute _ object _ => object.variables
  | .concat _ left right => left.variables ++ right.variables
  | .call _ _ arguments => Expr.variablesInAll arguments

/-- The names of the variables that some expressions read. -/
def Expr.variablesInAll : List Expr → List String
  | [] => []
  | e :: rest => e.variables ++ Expr.variablesInAll rest

/-- The names of the variables that the entries of a mapping read. -/
def Expr.variablesInEntries : List (String × Expr) → List String
  | [] => []
  | (_, e) :: rest => e.variables ++ Expr.variablesInEntries rest

end

variable {n₁ n₂ : Type → Type} [Monad n₁] [Monad n₂] {T₁ T₂ : Type}

/-! ## Evaluation -/

/-- The values of a variable in two contexts compare. -/
def VariableCompares (c : Comparison n₁ n₂) (h₁ : Host n₁ T₁) (h₂ : Host n₂ T₂)
    (context context' : Context) (name : String) : Prop :=
  ∀ span, c.holds (.of (variableValue h₁.settings context name span) : Rendering n₁ Value)
    (.of (variableValue h₂.settings context' name span) : Rendering n₂ Value)

/-- The values of the keys of mappings compare. -/
def KeysCompare (c : Comparison n₁ n₂) (h₁ : Host n₁ T₁) (h₂ : Host n₂ T₂) : Prop :=
  ∀ object key span, c.holds (.of (keyValue h₁.settings object key span) : Rendering n₁ Value)
    (.of (keyValue h₂.settings object key span) : Rendering n₂ Value)

/-- The functions of a name in two hosts compare, called with any values. -/
def FunctionCompares (c : Comparison n₁ n₂) (h₁ : Host n₁ T₁) (h₂ : Host n₂ T₂)
    (name : String) : Prop :=
  match h₁.function? name, h₂.function? name with
  | none, none => True
  | some f, some g => ∀ values, c.holds
      (.ofAction (Except.mapError (.functionFailed name) <$> f values) : Rendering n₁ Value)
      (.ofAction (Except.mapError (.functionFailed name) <$> g values) : Rendering n₂ Value)
  | _, _ => False

namespace Host

variable {c : Comparison n₁ n₂} {h₁ : Host n₁ T₁} {h₂ : Host n₂ T₂}

section Reads

variable {context context' : Context}

mutual

/-- Evaluation in two contexts compares if the variables that are read and the functions that are
    called do. -/
theorem evaluate_reads (hkeys : KeysCompare c h₁ h₂) : ∀ e : Expr,
    (∀ name ∈ e.variables, VariableCompares c h₁ h₂ context context' name) →
    (∀ name ∈ e.calls, FunctionCompares c h₁ h₂ name) →
    c.holds (h₁.evaluate context e) (h₂.evaluate context' e)
  | .constant _ value, _, _ => by
    simp only [evaluate]
    exact c.pure value
  | .name span name, hreads, _ => by
    simp only [evaluate]
    exact hreads name (by simp only [Expr.variables, List.mem_singleton]) span
  | .mapping _ entries, hreads, h => by
    simp only [Expr.variables] at hreads
    simp only [Expr.calls] at h
    simp only [evaluate]
    exact c.bind (evaluateEntries_reads hkeys entries hreads h) fun fields => c.pure _
  | .array _ items, hreads, h => by
    simp only [Expr.variables] at hreads
    simp only [Expr.calls] at h
    simp only [evaluate]
    exact c.bind (evaluateAll_reads hkeys items hreads h) fun values => c.pure _
  | .attribute span object key, hreads, h => by
    simp only [Expr.variables] at hreads
    simp only [Expr.calls] at h
    simp only [evaluate]
    exact c.bind (evaluate_reads hkeys object hreads h) fun value => hkeys value key span
  | .concat _ left right, hreads, h => by
    simp only [Expr.variables, List.mem_append] at hreads
    simp only [Expr.calls, List.mem_append] at h
    simp only [evaluate]
    refine c.bind (evaluate_reads hkeys left (fun name hname => hreads name (.inl hname))
      fun name hname => h name (.inl hname)) fun first => ?_
    refine c.bind (c.of _) fun front => ?_
    refine c.bind (evaluate_reads hkeys right (fun name hname => hreads name (.inr hname))
      fun name hname => h name (.inr hname)) fun second => ?_
    exact c.bind (c.of _) fun back => c.pure _
  | .call span name arguments, hreads, h => by
    simp only [Expr.variables] at hreads
    simp only [Expr.calls, List.mem_cons] at h
    have hname := h name (.inl rfl)
    unfold FunctionCompares at hname
    simp only [evaluate]
    cases hf : h₁.function? name with
    | none =>
      cases hg : h₂.function? name with
      | none => exact c.throw _
      | some g => simp [hf, hg] at hname
    | some f =>
      cases hg : h₂.function? name with
      | none => simp [hf, hg] at hname
      | some g =>
        simp only [hf, hg] at hname
        exact c.bind (evaluateAll_reads hkeys arguments hreads
          fun name hname => h name (.inr hname)) hname

theorem evaluateAll_reads (hkeys : KeysCompare c h₁ h₂) : ∀ items : List Expr,
    (∀ name ∈ Expr.variablesInAll items, VariableCompares c h₁ h₂ context context' name) →
    (∀ name ∈ Expr.callsInAll items, FunctionCompares c h₁ h₂ name) →
    c.holds (h₁.evaluateAll context items) (h₂.evaluateAll context' items)
  | [], _, _ => by
    simp only [evaluateAll]
    exact c.pure _
  | e :: rest, hreads, h => by
    simp only [Expr.variablesInAll, List.mem_append] at hreads
    simp only [Expr.callsInAll, List.mem_append] at h
    simp only [evaluateAll]
    refine c.bind (evaluate_reads hkeys e (fun name hname => hreads name (.inl hname))
      fun name hname => h name (.inl hname)) fun value => ?_
    exact c.bind (evaluateAll_reads hkeys rest (fun name hname => hreads name (.inr hname))
      fun name hname => h name (.inr hname)) fun values => c.pure _

theorem evaluateEntries_reads (hkeys : KeysCompare c h₁ h₂) : ∀ entries : List (String × Expr),
    (∀ name ∈ Expr.variablesInEntries entries, VariableCompares c h₁ h₂ context context' name) →
    (∀ name ∈ Expr.callsInEntries entries, FunctionCompares c h₁ h₂ name) →
    c.holds (h₁.evaluateEntries context entries) (h₂.evaluateEntries context' entries)
  | [], _, _ => by
    simp only [evaluateEntries]
    exact c.pure _
  | (key, e) :: rest, hreads, h => by
    simp only [Expr.variablesInEntries, List.mem_append] at hreads
    simp only [Expr.callsInEntries, List.mem_append] at h
    simp only [evaluateEntries]
    refine c.bind (evaluate_reads hkeys e (fun name hname => hreads name (.inl hname))
      fun name hname => h name (.inl hname)) fun value => ?_
    exact c.bind (evaluateEntries_reads hkeys rest
      (fun name hname => hreads name (.inr hname)) fun name hname => h name (.inr hname))
      fun fields => c.pure _

end

end Reads

/-- In one context, the same settings read the same. -/
theorem variable_compares (hs : h₁.settings = h₂.settings) (context : Context) (name : String) :
    VariableCompares c h₁ h₂ context context name := by
  intro span
  rw [hs]
  exact c.of _

theorem keys_compare (hs : h₁.settings = h₂.settings) : KeysCompare c h₁ h₂ := by
  intro object key span
  rw [hs]
  exact c.of _

/-- Evaluation compares if the called functions do. -/
theorem evaluate_compares (hs : h₁.settings = h₂.settings) (context : Context) (e : Expr)
    (h : ∀ name ∈ e.calls, FunctionCompares c h₁ h₂ name) :
    c.holds (h₁.evaluate context e) (h₂.evaluate context e) :=
  evaluate_reads (keys_compare hs) e (fun name _ => variable_compares hs context name) h

theorem evaluateAll_compares (hs : h₁.settings = h₂.settings) (context : Context)
    (items : List Expr) (h : ∀ name ∈ Expr.callsInAll items, FunctionCompares c h₁ h₂ name) :
    c.holds (h₁.evaluateAll context items) (h₂.evaluateAll context items) :=
  evaluateAll_reads (keys_compare hs) items
    (fun name _ => variable_compares hs context name) h

theorem print_compares (hs : h₁.settings = h₂.settings) (context : Context) {e : Expr}
    (h : ∀ name ∈ e.calls, FunctionCompares c h₁ h₂ name) :
    c.holds (h₁.print context e) (h₂.print context e) :=
  c.bind (evaluate_compares hs context e h) fun _ => c.of _

theorem passed_compares (hs : h₁.settings = h₂.settings) (context : Context)
    {bindings : Option Expr}
    (h : ∀ e ∈ bindings, ∀ name ∈ e.calls, FunctionCompares c h₁ h₂ name) :
    c.holds (h₁.passed context bindings) (h₂.passed context bindings) := by
  cases bindings with
  | none => exact c.pure _
  | some e => exact c.bind (evaluate_compares hs context e (h e rfl)) fun _ => c.of _

end Host

/-! ## Rendering -/

namespace Access

/-- Two ways of printing expressions and finding templates compare. -/
structure Compares (c : Comparison n₁ n₂) (a₁ : Access n₁) (a₂ : Access n₂) : Prop where
  maxDepth : a₁.maxDepth = a₂.maxDepth
  print : ∀ context expr, c.holds (a₁.print context expr) (a₂.print context expr)
  parent : ∀ context expr, c.holds (a₁.parent context expr) (a₂.parent context expr)
  insertion? : ∀ context owner target clauses, c.holds
    (a₁.insertion? context owner target clauses) (a₂.insertion? context owner target clauses)

namespace Compares

variable {c : Comparison n₁ n₂} {a₁ : Access n₁} {a₂ : Access n₂}
  {render₁ : Insertion → Rendering n₁ String} {render₂ : Insertion → Rendering n₂ String}

theorem insert (ha : a₁.Compares c a₂) (hrender : ∀ i, c.holds (render₁ i) (render₂ i))
    (context : Context) (owner : Tree) (target : Target) (clauses : Clauses) :
    c.holds (a₁.insert render₁ context owner target clauses)
      (a₂.insert render₂ context owner target clauses) := by
  refine c.bind (ha.insertion? context owner target clauses) fun found => ?_
  cases found with
  | none => exact c.pure _
  | some insertion => exact hrender insertion

/-- Bodies compare if definitions do. -/
theorem renderBody_of_follow (ha : a₁.Compares c a₂)
    (hrender : ∀ i, c.holds (render₁ i) (render₂ i)) (context : Context)
    (defined : Definitions) (bound : Nat)
    (hfollow : ∀ name d, c.holds (a₁.follow render₁ context defined bound name d)
      (a₂.follow render₂ context defined bound name d)) (owner : Tree) (body : List Node) :
    c.holds (a₁.renderBody render₁ context defined bound owner body)
      (a₂.renderBody render₂ context defined bound owner body) := by
  induction body using Node.body_induction with
  | nil =>
    rw [renderBody_nil, renderBody_nil]
    exact c.pure _
  | leaf node rest hleaf ih =>
    rw [renderBody_cons, renderBody_cons]
    refine c.join ?_ ih
    cases node with
    | text span content =>
      rw [renderNode_text, renderNode_text]
      exact c.pure _
    | print span expr =>
      rw [renderNode_print, renderNode_print]
      exact ha.print context expr
    | block => exact hleaf.elim
    | «include» span target clauses =>
      rw [renderNode_include, renderNode_include]
      exact ha.insert hrender context owner target clauses
  | block span name inner rest ihBody ihRest =>
    rw [renderBody_cons, renderBody_cons]
    refine c.join ?_ ihRest
    cases hd : Dict.get? defined name with
    | none =>
      rw [renderNode_own _ _ _ _ _ _ hd, renderNode_own _ _ _ _ _ _ hd]
      exact ihBody
    | some d =>
      rw [renderNode_defined _ _ _ _ _ _ hd, renderNode_defined _ _ _ _ _ _ hd]
      exact hfollow name d

theorem renderBody (ha : a₁.Compares c a₂) (hrender : ∀ i, c.holds (render₁ i) (render₂ i))
    (context : Context) (defined : Definitions) (bound : Nat) (owner : Tree) (body : List Node) :
    c.holds (a₁.renderBody render₁ context defined bound owner body)
      (a₂.renderBody render₂ context defined bound owner body) := by
  induction bound generalizing owner body with
  | zero =>
    refine ha.renderBody_of_follow hrender context defined 0 (fun name d => ?_) owner body
    exact c.throw _
  | succ bound ih =>
    refine ha.renderBody_of_follow hrender context defined _ (fun name d => ?_) owner body
    rw [follow_succ, follow_succ]
    exact ih d.owner d.body

/-- Every tree is rendered alike. -/
theorem renderTree (ha : a₁.Compares c a₂) (patience depth : Nat) (defined : Definitions)
    (tree owner : Tree) (context : Context) :
    c.holds (a₁.renderTree patience depth defined tree owner context)
      (a₂.renderTree patience depth defined tree owner context) := by
  induction depth generalizing defined tree owner context with
  | zero =>
    rw [renderTree_zero, renderTree_zero, ha.maxDepth]
    exact c.throw _
  | succ depth ih =>
    cases hparent : tree.parent with
    | none =>
      rw [renderTree_root _ _ _ _ hparent, renderTree_root _ _ _ _ hparent]
      exact ha.renderBody (fun i => ih [] i.tree i.owner i.context) context _ _ owner tree.body
    | some parent =>
      rw [renderTree_child _ _ _ _ hparent, renderTree_child _ _ _ _ hparent]
      exact c.bind (ha.parent context parent) fun found => ih _ found found context

theorem render (ha : a₁.Compares c a₂) (patience : Nat) (tree : Tree) (context : Context) :
    c.holds (a₁.render patience tree context) (a₂.render patience tree context) := by
  unfold Access.render
  rw [ha.maxDepth]
  exact ha.renderTree patience _ [] tree tree context

end Compares

end Access

end Stencil
