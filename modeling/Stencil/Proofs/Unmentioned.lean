import Stencil.Config.Profile
import Stencil.Proofs.Overriding
import Stencil.Proofs.Pairings

/-!
# Variables that no template mentions

A rendering depends only on the variables that templates mention. Contexts that agree off a variable
which no template reads, and which are not read as a whole either, are rendered alike: whatever is
passed on to included templates agrees off that variable again. The hooks of a chain do get the
whole context with every call, but the providers of a profile do not look at it.

Results:
* `AgreeOff.scope`: contexts agree off a variable in every template that is included.
* `Host.evaluate_unmentioned`: expressions that do not mention it.
* `Override.Chain.call_overlooks`: hooks of chains whose providers do not look at the context.
* `Host.evaluate_invoked`: calls of hooks in expressions that do not mention it.
* `Tree.Omits.compiled`: the expressions of a compiled tree.
* `Engine.render_unmentioned`: rendering in two contexts.
-/

namespace Stencil

open Node Override

/-! ## Contexts -/

/-- Two contexts have the same variables with the same values, but for one name. -/
def AgreeOff (x : String) (context context' : Context) : Prop :=
  ∀ name, name ≠ x → Dict.get? context name = Dict.get? context' name

namespace AgreeOff

variable {x : String} {context context' : Context}

theorem refl (x : String) (context : Context) : AgreeOff x context context := fun _ _ => rfl

theorem symm (h : AgreeOff x context context') : AgreeOff x context' context :=
  fun name hname => (h name hname).symm

theorem insert (h : AgreeOff x context context') (name : String) (value : Value) :
    AgreeOff x (Dict.insert context name value) (Dict.insert context' name value) := by
  intro other hother
  by_cases hname : other = name
  · rw [hname, Dict.get?_insert_self, Dict.get?_insert_self]
  · rw [Dict.get?_insert_of_ne _ _ hname, Dict.get?_insert_of_ne _ _ hname, h other hother]

theorem merge (h : AgreeOff x context context') (bindings : Context) :
    AgreeOff x (Dict.merge context bindings) (Dict.merge context' bindings) := by
  unfold Dict.merge
  induction bindings generalizing context context' with
  | nil => exact h
  | cons p rest ih => exact ih (h.insert p.1 p.2)

/-- What an included template sees agrees as well, also where the variable is passed to it. -/
theorem scope (h : AgreeOff x context context') (only : Bool) (bindings : Context) :
    AgreeOff x (Host.scope context only bindings) (Host.scope context' only bindings) := by
  cases only with
  | true => exact refl x bindings
  | false => exact h.merge bindings

/-- Any other variable but the context as a whole has the same value. -/
theorem variableValue (h : AgreeOff x context context') {name : String} (hx : name ≠ x)
    (hcontext : name ≠ Expr.contextName) (settings : Settings) (span : Span) :
    variableValue settings context name span = variableValue settings context' name span := by
  unfold Stencil.variableValue
  rw [if_neg hcontext, if_neg hcontext, h name hx]

end AgreeOff

/-! ## Expressions -/

/-- An expression that reads neither the variable of the given name nor the whole context. -/
def Expr.Omits (x : String) (e : Expr) : Prop :=
  ∀ name ∈ e.variables, name ≠ x ∧ name ≠ Expr.contextName

instance (x : String) (e : Expr) : Decidable (e.Omits x) :=
  inferInstanceAs (Decidable (∀ name ∈ e.variables, name ≠ x ∧ name ≠ Expr.contextName))

/-- A call of a hook whose name and variables omit a variable. -/
inductive Expr.Invokes (x : String) : Expr → Prop
  | invoke (hook : Hook) {target : Expr} (only : Bool) {bindings : Option Expr} (span : Span) :
      target.Omits x → (∀ e ∈ bindings, e.Omits x) →
      Expr.Invokes x (hook.invoke target only bindings span)

namespace Host

variable {n : Type → Type} [Monad n] {τ : Type} [Runs n τ] {T : Type} {host : Host n T}
  {excuse : Failure → Prop} {S : τ → τ → Prop} {x : String} {context context' : Context}
  (hfunctions : ∀ name, FunctionFollows excuse S host host name)

include hfunctions

/-- An expression that omits a variable has the same value in contexts that agree off it. -/
theorem evaluate_unmentioned (h : AgreeOff x context context') {e : Expr} (he : e.Omits x) :
    Follows excuse S Eq (host.evaluate context e) (host.evaluate context' e) := by
  refine evaluate_reads (c := .follows excuse S) (keys_compare rfl) e ?_ fun name _ =>
    hfunctions name
  intro name hname span
  obtain ⟨hx, hcontext⟩ := he name hname
  rw [h.variableValue hx hcontext]
  exact .of_same _ _ _

omit hfunctions in
/-- The values of several expressions, one by one. -/
theorem evaluateAll_cons_follows {P : Value → Value → Prop} {Q : List Value → List Value → Prop}
    {e : Expr} {rest : List Expr}
    (he : Follows excuse S P (host.evaluate context e) (host.evaluate context' e))
    (hrest : Follows excuse S Q (host.evaluateAll context rest) (host.evaluateAll context' rest)) :
    Follows excuse S
      (fun all all' => ∃ v v' vs vs', P v v' ∧ Q vs vs' ∧ all = v :: vs ∧ all' = v' :: vs')
      (host.evaluateAll context (e :: rest)) (host.evaluateAll context' (e :: rest)) := by
  simp only [evaluateAll]
  refine he.bind fun v v' hv => hrest.bind fun vs vs' hvs => ?_
  exact .pure ⟨v, v', vs, vs', hv, hvs, rfl, rfl⟩

/-- The arguments of a call of a hook differ in the context alone. -/
theorem evaluateAll_invoked (h : AgreeOff x context context') {target : Expr}
    (htarget : target.Omits x) (only : Bool) {bindings : Option Expr}
    (hbindings : ∀ e ∈ bindings, e.Omits x) (span : Span) :
    Follows excuse S (fun values values' => ∃ name passed,
        values = [name, .bool only, passed, .mapping context] ∧
        values' = [name, .bool only, passed, .mapping context'])
      (host.evaluateAll context [target, .constant span (.bool only),
        bindings.getD (.constant span .null), .name span Expr.contextName])
      (host.evaluateAll context' [target, .constant span (.bool only),
        bindings.getD (.constant span .null), .name span Expr.contextName]) := by
  have hname := evaluate_unmentioned hfunctions h htarget
  have hflag : Follows excuse S (fun v v' => v = .bool only ∧ v' = .bool only)
      (host.evaluate context (.constant span (.bool only)))
      (host.evaluate context' (.constant span (.bool only))) := by
    rw [evaluate_constant, evaluate_constant]
    exact .pure ⟨rfl, rfl⟩
  have hpassed : Follows excuse S Eq
      (host.evaluate context (bindings.getD (.constant span .null)))
      (host.evaluate context' (bindings.getD (.constant span .null))) := by
    cases bindings with
    | none =>
      rw [Option.getD_none, evaluate_constant, evaluate_constant]
      exact .pure rfl
    | some e => exact evaluate_unmentioned hfunctions h (hbindings e rfl)
  have hwhole : Follows excuse S (fun v v' => v = .mapping context ∧ v' = .mapping context')
      (host.evaluate context (.name span Expr.contextName))
      (host.evaluate context' (.name span Expr.contextName)) := by
    have hvalue : ∀ context, variableValue host.settings context Expr.contextName span =
        .ok (.mapping context) := fun _ => if_pos rfl
    rw [evaluate_name, evaluate_name, hvalue, hvalue]
    exact .pure ⟨rfl, rfl⟩
  have hnone : Follows excuse S (fun vs vs' => vs = [] ∧ vs' = []) (host.evaluateAll context [])
      (host.evaluateAll context' []) := by
    simp only [evaluateAll]
    exact .pure ⟨rfl, rfl⟩
  have hall := evaluateAll_cons_follows hname (evaluateAll_cons_follows hflag
    (evaluateAll_cons_follows hpassed (evaluateAll_cons_follows hwhole hnone)))
  refine hall.mono ?_
  rintro _ _ ⟨name, _, _, _, rfl, ⟨_, _, _, _, ⟨rfl, rfl⟩, ⟨passed, _, _, _, rfl,
    ⟨_, _, _, _, ⟨rfl, rfl⟩, ⟨rfl, rfl⟩, rfl, rfl⟩, rfl, rfl⟩, rfl, rfl⟩, rfl, rfl⟩
  exact ⟨name, passed, rfl, rfl⟩

/-- A call of a hook that does not look at the context has the same value as well. -/
theorem evaluate_invoked
    (hhooks : ∀ hook : Hook, ∀ f ∈ host.function? hook.name, ∀ name only passed context context',
      f [name, .bool only, passed, .mapping context] =
        f [name, .bool only, passed, .mapping context'])
    (h : AgreeOff x context context') {e : Expr} (he : e.Invokes x) :
    Follows excuse S Eq (host.evaluate context e) (host.evaluate context' e) := by
  obtain ⟨hook, only, span, htarget, hbindings⟩ := he
  have hfunction := hfunctions hook.name
  unfold FunctionFollows FunctionCompares at hfunction
  simp only [Hook.invoke, evaluate]
  cases hf : host.function? hook.name with
  | none => exact .throw _
  | some f =>
    simp only [hf] at hfunction
    refine (evaluateAll_invoked hfunctions h htarget only hbindings span).bind ?_
    rintro _ _ ⟨name, passed, rfl, rfl⟩
    rw [hhooks hook f hf name only passed context context']
    exact hfunction _

end Host

/-! ## Hooks -/

namespace Override

variable {m : Type → Type} [Monad m]

/-- A provider that does not look at the context. -/
structure Provider.Overlooks (p : Provider m) : Prop where
  rename : ∀ template bindings context context' only,
    p.rename template ⟨bindings, context, only⟩ = p.rename template ⟨bindings, context', only⟩
  rebind : ∀ template bindings context context' only,
    p.rebind template ⟨bindings, context, only⟩ = p.rebind template ⟨bindings, context', only⟩

namespace Chain

variable {c : Chain m} (hc : ∀ p ∈ c.providers, p.Overlooks) (context context' : Context)

include hc

theorem rename_overlooks (template : String) (bindings : Context) (only : Bool) :
    c.rename template ⟨bindings, context, only⟩ = c.rename template ⟨bindings, context', only⟩ := by
  unfold rename
  generalize c.providers = providers at hc
  induction providers generalizing template with
  | nil => rfl
  | cons p rest ih =>
    have hfirst := (hc p List.mem_cons_self).rename template bindings context context' only
    have hrest := fun next => ih next fun q hq => hc q (List.mem_cons_of_mem p hq)
    simp only [renameAll, hfirst, hrest]

theorem rebind_overlooks (template : String) (bindings : Context) (only : Bool) :
    c.rebind template ⟨bindings, context, only⟩ = c.rebind template ⟨bindings, context', only⟩ := by
  unfold rebind
  generalize c.providers = providers at hc
  induction providers generalizing bindings with
  | nil => rfl
  | cons p rest ih =>
    have hfirst := (hc p List.mem_cons_self).rebind template bindings context context' only
    have hrest := fun next => ih next fun q hq => hc q (List.mem_cons_of_mem p hq)
    simp only [rebindAll, hfirst, hrest]

theorem renameNames_overlooks (names : List Value) (bindings : Context) (only : Bool) :
    c.renameNames ⟨bindings, context, only⟩ names =
      c.renameNames ⟨bindings, context', only⟩ names := by
  induction names with
  | nil => rfl
  | cons first rest ih =>
    cases first with
    | string name => simp only [renameNames, rename_overlooks hc context context', ih]
    | _ => rfl

/-- A call of a hook with the context as it is routed does not depend on the context. -/
theorem call_overlooks (hook : Hook) (target passed : Value) (only : Bool) :
    c.call hook [target, .bool only, passed, .mapping context] =
      c.call hook [target, .bool only, passed, .mapping context'] := by
  cases hmapping : HookArguments.mapping "with" (some passed) with
  | error misuse =>
    have hcall := fun context => c.call_of_misuse hook target passed only context hmapping
    rw [hcall, hcall]
  | ok bindings =>
    have hvalues : ∀ context, HookArguments.ofValues
        [target, .bool only, passed, .mapping context] = .ok ⟨target, bindings, context, only⟩ := by
      intro context
      rw [HookArguments.ofValues_call, hmapping]
      rfl
    cases hook with
    | template =>
      simp only [call, callTemplate, hvalues]
      cases target with
      | string name => simp only [rename_overlooks hc context context']
      | array names => simp only [renameNames_overlooks hc context context']
      | _ => rfl
    | parameters =>
      simp only [call, callParameters, hvalues]
      cases target with
      | string name => simp only [rebind_overlooks hc context context']
      | array names =>
        cases names with
        | nil => rfl
        | cons first rest =>
          cases first with
          | string name => simp only [rebind_overlooks hc context context']
          | _ => rfl
      | _ => rfl

end Chain

end Override

/-- The providers of a profile do not look at the context. -/
theorem ProviderSpec.overlooks {m : Type → Type} [Monad m] (spec : ProviderSpec) :
    (spec.provider : Provider m).Overlooks := by
  cases spec <;> exact ⟨fun _ _ _ _ _ => rfl, fun _ _ _ _ _ => rfl⟩

/-! ## Trees -/

/-- A tree whose expressions omit a variable, and those of its embedded trees as well. -/
def Tree.Omits (x : String) (tree : Tree) : Prop :=
  ∀ part ∈ tree :: tree.embedded, ∀ e ∈ part.exprs, e.Omits x

instance (x : String) (tree : Tree) : Decidable (tree.Omits x) :=
  inferInstanceAs (Decidable (∀ part ∈ tree :: tree.embedded, ∀ e ∈ part.exprs, e.Omits x))

/-- An expression of a compiled tree whose source omits a variable: it omits the variable too, or it
    calls a hook that was put in. -/
def Expr.Spares (x : String) (overridden : Bool) (e : Expr) : Prop :=
  e.Omits x ∨ (overridden = true ∧ e.Invokes x)

/-- The tags of a routed body. -/
theorem Node.tagsIn_routed (nodes : List Node) :
    tagsIn (Node.changeAll routedNode nodes) = (tagsIn nodes).map routedNode := by
  induction nodes using body_induction with
  | nil => rfl
  | leaf node rest hleaf ih =>
    have hnode : (node.change routedNode).tags = node.tags.map routedNode := by
      cases node with
      | text span content => rfl
      | print span expr => rfl
      | block => exact hleaf.elim
      | «include» span target clauses =>
        rw [Node.change_include, tags_include, List.map_singleton]
        cases target with
        | named expr => rw [routedNode_named, tags_include]
        | embedded filename index =>
          by_cases hname : filename = ""
          · rw [hname]
            rfl
          · rw [routedNode_embedded span hname, tags_include]
    rw [Node.changeAll, tagsIn, tagsIn, hnode, ih, List.map_append]
  | block span name body rest ihBody ihRest =>
    have hchange : Node.change routedNode (.block span name body) =
        .block span name (Node.changeAll routedNode body) := rfl
    rw [Node.changeAll, hchange, tagsIn, tags, tagsIn, tags, ihBody, ihRest, List.map_append]

variable {x : String}

/-- The expressions of a tag that was routed. -/
theorem Node.exprs_routed {tag : Node} (h : ∀ e ∈ tag.exprs, e.Omits x) :
    ∀ e ∈ (routedNode tag).exprs, e.Spares x true := by
  have hsame : ∀ e ∈ tag.exprs, e.Spares x true := fun e he => .inl (h e he)
  cases tag with
  | text span content => exact hsame
  | print span expr => exact hsame
  | block span name body => exact hsame
  | «include» span target clauses =>
    cases target with
    | named target =>
      have htarget : target.Omits x := h target List.mem_cons_self
      have hbindings : ∀ e ∈ clauses.bindings, e.Omits x :=
        fun e he => h e (List.mem_cons_of_mem _ (Option.mem_toList.2 he))
      intro e he
      rw [routedNode_named] at he
      rcases List.mem_cons.1 he with rfl | he
      · exact .inr ⟨rfl, .invoke _ _ _ htarget hbindings⟩
      · obtain rfl := List.mem_singleton.1 he
        exact .inr ⟨rfl, .invoke _ _ _ htarget hbindings⟩
    | embedded filename index =>
      by_cases hname : filename = ""
      · subst hname
        exact hsame
      · have hbindings : ∀ e ∈ clauses.bindings, e.Omits x :=
          fun e he => h e (Option.mem_toList.2 he)
        intro e he
        rw [routedNode_embedded span hname] at he
        obtain rfl := List.mem_singleton.1 he
        exact .inr ⟨rfl, .invoke _ _ _ nofun hbindings⟩

/-- The expressions of a tree without its embedded trees, after the passes. -/
theorem Tree.exprs_compiled {tree : Tree} (h : ∀ e ∈ tree.exprs, e.Omits x) (overridden : Bool) :
    ∀ e ∈ (tree.compiled overridden).exprs, e.Spares x overridden := by
  have hmerged : tree.merged.exprs = tree.exprs := by
    unfold exprs
    rw [parent_merged, tagsIn_merged]
  cases overridden with
  | false =>
    intro e he
    exact .inl (h e (hmerged ▸ he))
  | true =>
    intro e he
    change e ∈ tree.merged.routed.exprs at he
    rw [← hmerged] at h
    generalize tree.merged = merged at h he
    unfold exprs at h he
    rw [routed_parent, routed_body, tagsIn_routed] at he
    rcases List.mem_append.1 he with he | he
    · cases hparent : merged.parent with
      | none => simp [hparent] at he
      | some parent =>
        obtain rfl : e = routedParent parent := by simpa [hparent] using he
        have homits : parent.Omits x := h parent (List.mem_append_left _ (by simp [hparent]))
        exact .inr ⟨rfl, .invoke _ _ _ homits nofun⟩
    · obtain ⟨tag, htag, he⟩ := List.mem_flatMap.1 he
      obtain ⟨plain, hplain, rfl⟩ := List.mem_map.1 htag
      refine exprs_routed (fun e he => h e (List.mem_append_right _ ?_)) e he
      exact List.mem_flatMap.2 ⟨plain, hplain, he⟩

theorem Tree.embedded_compiled (overridden : Bool) (tree : Tree) :
    (tree.compiled overridden).embedded = tree.embedded.map (Tree.compiled overridden) := by
  cases overridden with
  | false => exact embedded_merged tree
  | true =>
    change tree.merged.routed.embedded = _
    rw [routed_embedded, embedded_merged, List.map_map]
    rfl

/-- A compiled tree belongs to itself if its source omits the variable. -/
theorem Tree.Omits.compiled {tree : Tree} (h : tree.Omits x) (overridden : Bool) :
    (tree.compiled overridden).AllPaired (Expr.Spares x overridden) (tree.compiled overridden) := by
  refine .refl fun part hpart => ?_
  rcases List.mem_cons.1 hpart with rfl | hpart
  · exact exprs_compiled (h tree List.mem_cons_self) overridden
  · rw [embedded_compiled] at hpart
    obtain ⟨inner, hinner, rfl⟩ := List.mem_map.1 hpart
    exact exprs_compiled (h inner (List.mem_cons_of_mem _ hinner)) overridden

/-! ## Engines -/

/-- A store none of whose templates mentions a variable. -/
def Loader.Omits (x : String) (store : Loader Id) : Prop :=
  ∀ name source tree, store.source name = .ok source →
    Tree.parse name source.toList = .ok tree → tree.Omits x

namespace Engine

variable {m : Type → Type} [Monad m] {τ : Type} [Runs m τ] {e : Engine m} {store : Loader Id}
  {overridden : Bool}

/-- An engine whose hooks, if it has any, do not look at the context. -/
def Overlooks (e : Engine m) : Prop :=
  ∀ hook : Hook, ∀ f ∈ Dict.get? e.functions hook.name, ∀ name only passed context context',
    f [name, .bool only, passed, .mapping context] = f [name, .bool only, passed, .mapping context']

/-- An engine in contexts that agree off a variable which its templates omit. -/
theorem pairs_unmentioned (hpasses : e.passes = standardPasses overridden)
    (hloader : e.loader = store.lift) (hstore : store.Omits x)
    (hhooks : overridden = true → e.Overlooks) :
    Pairs (τ := τ) (fun _ => False) (fun a b => a = b ∧ Stored store overridden a) (AgreeOff x)
      (Expr.Spares x overridden) e e := by
  refine pairs rfl rfl (.inl rfl) ?_ (fun h => h.scope)
    (fun _ => .same_of_ok fun _ _ _ h => loadFresh_ok hpasses hloader h) ?_
  · rintro context context' h expr (homits | ⟨rfl, hinvokes⟩)
    · exact Host.evaluate_unmentioned (fun _ => hostOf_function_follows rfl) h homits
    · refine Host.evaluate_invoked (fun _ => hostOf_function_follows rfl) ?_ h hinvokes
      intro hook f hf name only passed context context'
      obtain ⟨g, hg, rfl⟩ := Option.map_eq_some_iff.1 hf
      exact congrArg StateT.lift (hhooks rfl hook g hg name only passed context context')
  · rintro t _ ⟨rfl, source, tree, hsource, hparse, ht⟩
    rw [ht]
    exact (hstore t.name source tree hsource hparse).compiled overridden

/-- From templates that were compiled from the store, an engine does the same in both contexts. -/
theorem run_unmentioned (hpasses : e.passes = standardPasses overridden)
    (hloader : e.loader = store.lift) (hstore : store.Omits x)
    (hhooks : overridden = true → e.Overlooks) {context context' : Context}
    (hcontext : AgreeOff x context context') {cache : Cache}
    (hcache : ∀ p ∈ cache, Stored store overridden p.2) (s : τ) :
    (∀ name, run (e.render name context) (cache, s) = run (e.render name context') (cache, s)) ∧
    ∀ name source, (∀ tree, Tree.parse name source.toList = .ok tree → tree.Omits x) →
      outcome (e.renderSource name source context) (cache, s) =
        outcome (e.renderSource name source context') (cache, s) := by
  have hpairs : Pairs (τ := τ) _ _ _ _ e e := pairs_unmentioned hpasses hloader hstore hhooks
  have hself := storing_self hcache s
  have hequal : ∀ {x y : Rendering (StateT Cache m) String},
      Follows (fun _ => False) (Storing (τ := τ) store overridden) Eq x y →
      Follows (fun _ => False) (Storing (τ := τ) store overridden) Eq y x →
      outcome x (cache, s) = outcome y (cache, s) := by
    intro x y h h'
    have heq := h'.outcome_eq h hself hself (f := id) (g := id) fun _ _ hstates => hstates.eq.1
    simpa using heq
  constructor
  · intro name
    exact hequal (hpairs.render hcontext name) (hpairs.render hcontext.symm name)
  · intro name source hsource
    have hcompile : Follows (fun _ => False) (Eq (α := τ))
        (fun t t' => t.tree.AllPaired (Expr.Spares x overridden) t'.tree)
        (e.compile name source) (e.compile name source) := by
      have hok : ∀ (s : τ) t s', outcome (e.compile name source) s = some (.ok t, s') →
          t.tree.AllPaired (Expr.Spares x overridden) t.tree := by
        intro s t s' hrun
        obtain ⟨tree, hparse, -, rfl⟩ := compile_ok hpasses hrun
        exact (hsource tree hparse).compiled overridden
      refine (Follows.same_of_ok hok).mono ?_
      rintro t _ ⟨rfl, ht⟩
      exact ht
    exact hequal (hpairs.renderSource hcontext hcompile)
      (hpairs.renderSource hcontext.symm hcompile)

/-- The hooks of a chain whose providers do not look at the context. -/
theorem overriding_overlooks (store : Loader Id) (settings : Settings)
    (functions : Dict (Function Id)) (patience : Nat) {c : Chain m}
    (hc : ∀ p ∈ c.providers, p.Overlooks) :
    (overriding store settings functions patience c).Overlooks := by
  intro hook f hf name only passed context context'
  have hhook := (overriding_consults store settings functions patience c).hook hook
  obtain rfl : c.function hook = f := Option.some.inj (hhook.symm.trans hf)
  unfold Chain.function
  rw [c.call_overlooks hc context context']

/-- A rendering depends only on the variables that are mentioned. If no template of a store reads a
    variable, or the context as a whole, then every template, and every source of this kind that is
    compiled apart, is rendered alike in contexts that agree off the variable: to the same text or
    failure, with the same templates kept. So it is under all settings, with all functions without
    effects, with or without the extension of any chain of the providers of profiles, and with any
    patience. -/
theorem render_unmentioned (hstore : store.Omits x) (settings : Settings)
    (functions : Dict (Function Id)) (patience : Nat) (specs : List ProviderSpec)
    {context context' : Context} (hcontext : AgreeOff x context context') :
    ∀ e : Engine Id, e = ofFunctions store settings functions patience ∨
        e = overriding store settings functions patience ⟨specs.map ProviderSpec.provider⟩ →
      (∀ name, (e.render name context).run [] = (e.render name context').run []) ∧
      ∀ name source, (∀ tree, Tree.parse name source.toList = .ok tree → tree.Omits x) →
        (e.renderSource name source context).run.run [] =
          (e.renderSource name source context').run.run [] := by
  have hplain : ∀ {α : Type} {x y : StateT Cache Id α}, run x ([], ()) = run y ([], ()) →
      x.run [] = y.run [] := by
    intro α x y h
    have hparts : some ((x.run []).1, (x.run []).2, ()) = some ((y.run []).1, (y.run []).2, ()) := h
    simp only [Option.some.injEq, Prod.mk.injEq, and_true] at hparts
    exact Prod.ext hparts.1 hparts.2
  have hempty : ∀ overridden, ∀ p ∈ ([] : Cache), Stored store overridden p.2 := fun _ => nofun
  rintro e (rfl | rfl)
  · obtain ⟨hrender, hsource⟩ := run_unmentioned
      (ofFunctions_passes (m := Id) store settings functions patience) rfl hstore nofun hcontext
      (hempty false) ()
    exact ⟨fun name => hplain (hrender name), fun name source h => hplain (hsource name source h)⟩
  · have hc : ∀ p ∈ (⟨specs.map ProviderSpec.provider⟩ : Chain Id).providers, p.Overlooks := by
      intro p hp
      obtain ⟨spec, -, rfl⟩ := List.mem_map.1 hp
      exact spec.overlooks
    obtain ⟨hrender, hsource⟩ := run_unmentioned
      (overriding_passes store settings functions patience ⟨specs.map ProviderSpec.provider⟩) rfl
      hstore (fun _ => overriding_overlooks store settings functions patience hc) hcontext
      (hempty true) ()
    exact ⟨fun name => hplain (hrender name), fun name source h => hplain (hsource name source h)⟩

/-- A page that passes on a variable of the name that no template reads. -/
def badges : Dict String :=
  [("badge", "[" ++ "\x7b\x7b" ++ "name" ++ "\x7d\x7d" ++ "]"),
    ("page", tag "include ['pin', 'badge'] with \x7b'token': name, 'name': 'guest'\x7d" ++
      tag "embed 'badge'" ++ tag "endembed")]

/-- The engine of these templates, with a chain that renames one and replaces a passed variable. -/
def badgeEngine : Engine Id :=
  overriding (Loader.memory badges) {} [] 0
    ⟨[.table [("pin", "badge")], .arguments [("token", .null)]].map ProviderSpec.provider⟩

theorem render_unmentioned_badges :
    (badgeEngine.render "page" [("name", .string "ann"), ("token", .string "key")]).run [] =
        (badgeEngine.render "page" [("name", .string "ann")]).run [] ∧
      ((badgeEngine.render "page" [("name", .string "ann")]).run []).1 = .ok "[guest][ann]" := by
  have hstore : (Loader.memory badges : Loader Id).Omits "token" := by
    intro name source tree
    exact Loader.memory_forall (by decide +kernel)
  have hcontext : AgreeOff "token" [("name", .string "ann"), ("token", .string "key")]
      [("name", .string "ann")] := by
    intro name hname
    simp [Dict.get?, hname]
  have hrender := (render_unmentioned hstore {} [] 0
    [.table [("pin", "badge")], .arguments [("token", .null)]] hcontext badgeEngine (.inr rfl)).1
  exact ⟨hrender "page", by decide +kernel⟩

end Engine

end Stencil
