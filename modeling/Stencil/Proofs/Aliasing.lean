import Stencil.Proofs.Acceptance
import Stencil.Proofs.EmptyChain
import Stencil.Proofs.Likeness
import Stencil.Proofs.Uncached

/-!
# Chains of renaming tables

An engine with the extension of a chain of renaming tables renders what an engine without an
extension does over a loader that looks every name up in the tables. The second engine may render
more: it takes an include that is skipped to pass nothing, whatever variables it has, and it has
templates without names.

Results:
* `Chain.call_template_ends`, `Chain.call_parameters_tables`: what the hooks of such a chain answer.
* `Engine.evaluate_uncached`, `Engine.evaluate_invoke_uncached`: expressions and calls of hooks.
* `Stands.alike_routed`: a page with hooks is alike to the page it was made from.
* `Engine.rendersSource_tables`: rendering with a chain of tables.
-/

namespace Stencil

open Override

/-! ## What the chain does -/

namespace Override

/-- The name that some renaming tables give a template, one after the other. -/
def Provider.lookUpAll (tables : List (Dict String)) (template : String) : String :=
  tables.foldl (fun name table => lookUp table name) template

namespace Chain

/-- The chain of some renaming tables. -/
def ofTables (tables : List (Dict String)) : Chain Id := ⟨tables.map .table⟩

theorem ofTables_of_valid {tables : List (Dict String)} {c : Chain Id}
    (h : Chain.ofProviders (tables.map Provider.table) = .ok c) : c = ofTables tables := by
  unfold ofProviders at h
  split at h
  · cases h
  · cases h
    rfl

theorem renamed_tables (tables : List (Dict String)) (inclusion : Inclusion) (template : String) :
    (ofTables tables).renamed inclusion template =
      pure (Provider.lookUpAll tables template) := by
  unfold renamed ofTables Provider.lookUpAll
  induction tables generalizing template with
  | nil => rfl
  | cons table rest ih =>
    rw [List.map_cons, List.foldlM_cons, List.foldl_cons, ← ih]
    rfl

theorem rebound_tables (tables : List (Dict String)) (template : String) (inclusion : Inclusion) :
    (ofTables tables).rebound template inclusion = pure inclusion.bindings := by
  unfold rebound ofTables
  generalize inclusion.bindings = bindings
  induction tables generalizing bindings with
  | nil => rfl
  | cons table rest ih =>
    rw [List.map_cons, List.foldlM_cons, ← ih]
    rfl

section Calls

variable (tables : List (Dict String)) {value passed : Value} (only : Bool) (context : Context)
  {original : Context} (hpassed : HookArguments.mapping "with" (some passed) = .ok original)

include hpassed

variable (value) in
/-- The first hook ends as renaming the names does that its first argument stands for. -/
theorem call_template_ends :
    ∃ result,
      Ends (fun answer names => Host.candidates answer = .ok names ∧ (names ≠ [] → Named value))
        ((ofTables tables).call .template [value, .bool only, passed, .mapping context]).run
        result ∧
      match Host.candidates value with
      | .ok names => result = .ok (names.map (Provider.lookUpAll tables))
      | .error _ => ∃ fault, result = .error fault := by
  rw [(ofTables tables).call_of_mapping .template value passed only context hpassed]
  have hcall : outcome ((ofTables tables).call .template
      [value, .bool only, .mapping original, .mapping context]) () = some (_, ()) := rfl
  rcases (ofTables tables).callTemplate_follows (τ := Unit) value original only context rfl hcall
    with ⟨_, _, he⟩ | ⟨result, _, hresult, -, hends⟩
  · exact he.elim
  · refine ⟨result, hends, ?_⟩
    have hrenamed : ∀ name (s : Unit), outcome ((ofTables tables).renamed
        { bindings := original, context := context, only := only } name) s =
          some (.ok (Provider.lookUpAll tables name), s) := by
      intro name s
      rw [renamed_tables]
      rfl
    have hnames := (ofTables tables).renamedCandidates_of_renamed hrenamed value ()
    rw [hresult] at hnames
    revert hnames
    cases Host.candidates value with
    | ok names =>
      rintro ⟨⟩
      rfl
    | error misfit =>
      rintro ⟨fault, ⟨⟩⟩
      exact ⟨fault, rfl⟩

theorem call_template_ok {names : List String} (hnames : Host.candidates value = .ok names) :
    ∃ answer, ((ofTables tables).call .template
        [value, .bool only, passed, .mapping context]).run = .ok answer ∧
      Host.candidates answer = .ok (names.map (Provider.lookUpAll tables)) ∧
      (names ≠ [] → Named value) := by
  obtain ⟨result, hends, hresult⟩ := call_template_ends tables value only context hpassed
  rw [hnames] at hresult
  subst hresult
  obtain ⟨answer, hanswer, hcandidates, hnamed⟩ := hends.exists_ok
  exact ⟨answer, hanswer, hcandidates, fun h => hnamed (by simpa using h)⟩

theorem call_template_error {misfit : Misfit} (hnames : Host.candidates value = .error misfit) :
    ∃ fault, ((ofTables tables).call .template
      [value, .bool only, passed, .mapping context]).run = .error fault := by
  obtain ⟨result, hends, hresult⟩ := call_template_ends tables value only context hpassed
  rw [hnames] at hresult
  obtain ⟨fault, rfl⟩ := hresult
  exact ⟨fault, hends.eq_error⟩

/-- The second hook answers the variables as they are. -/
theorem call_parameters_tables (hvalue : Named value) :
    ((ofTables tables).call .parameters [value, .bool only, passed, .mapping context]).run =
      .ok (.mapping original) := by
  rw [(ofTables tables).call_of_mapping .parameters value passed only context hpassed,
    (ofTables tables).callParameters_of_named hvalue, rebound_tables]
  rfl

end Calls

end Chain

end Override

/-! ## Evaluation without a cache -/

namespace Engine

section Evaluation

variable {e : Engine Id} {overridden : Bool} {there : String → Bool}
  {functions : Dict (Function Id)}

theorem functionCompares_uncached {name : String}
    (h : Dict.get? e.functions name = (Dict.get? functions name).map Function.lift) :
    FunctionCompares .same (Host.ofFunctions e.settings functions)
      (e.uncached overridden there) name := by
  unfold FunctionCompares
  simp only [Host.ofFunctions, uncached, h]
  cases Dict.get? functions name with
  | none => exact trivial
  | some f => exact fun values => rfl

/-- An expression that calls only functions without effects has a fixed value. -/
theorem evaluate_uncached {expr : Expr} (h : ∀ name ∈ expr.calls,
      Dict.get? e.functions name = (Dict.get? functions name).map Function.lift)
    (context : Context) :
    (e.uncached overridden there).evaluate context expr =
      .of (valueOf e.settings functions context expr) := by
  have hsettings : (Host.ofFunctions e.settings functions).settings =
      (e.uncached overridden there).settings := rfl
  have hsame : (Host.ofFunctions e.settings functions).evaluate context expr =
      (e.uncached overridden there).evaluate context expr :=
    Host.evaluate_compares (c := .same) hsettings context expr fun name hname =>
      functionCompares_uncached (h name hname)
  rw [← hsame]
  rfl

theorem evaluateAll_uncached {exprs : List Expr} (h : ∀ name ∈ Expr.callsInAll exprs,
      Dict.get? e.functions name = (Dict.get? functions name).map Function.lift)
    (context : Context) :
    (e.uncached overridden there).evaluateAll context exprs =
      .of ((Host.ofFunctions e.settings functions).evaluateAll context exprs).run := by
  have hsettings : (Host.ofFunctions e.settings functions).settings =
      (e.uncached overridden there).settings := rfl
  have hsame : (Host.ofFunctions e.settings functions).evaluateAll context exprs =
      (e.uncached overridden there).evaluateAll context exprs :=
    Host.evaluateAll_compares (c := .same) hsettings context exprs fun name hname =>
      functionCompares_uncached (h name hname)
  rw [← hsame]
  rfl

/-- What a call of a hook answers: what the chain does, after the name and the variables of the call
    have been evaluated. -/
def answerOf (settings : Settings) (functions : Dict (Function Id)) (c : Chain Id) (hook : Hook)
    (context : Context) (target : Expr) (only : Bool) (bindings : Option Expr) :
    Except Failure Value :=
  (valueOf settings functions context target).bind fun value =>
    (bindingsOf settings functions context bindings).bind fun passed =>
      Except.mapError hook.failure
        (c.call hook [value, .bool only, passed, .mapping context]).run

theorem evaluate_invoke_uncached {plain : Engine Id} {c : Chain Id}
    (h : e.Consults plain c functions) (hook : Hook) {target : Expr} (htarget : target.Hookless)
    (only : Bool) {bindings : Option Expr} (hbindings : ∀ e, bindings = some e → e.Hookless)
    (span : Span) (context : Context) :
    (e.uncached overridden there).evaluate context (hook.invoke target only bindings span) =
      .of (answerOf e.settings functions c hook context target only bindings) := by
  have hfunction : (e.uncached overridden there).function? hook.name = some (c.function hook) :=
    h.hook hook
  simp only [Hook.invoke, Host.evaluate, hfunction]
  rw [evaluateAll_uncached (h.hooked_arguments htarget only hbindings span), evaluateAll_arguments]
  unfold answerOf
  cases valueOf e.settings functions context target with
  | error failure => rfl
  | ok value =>
    cases bindingsOf e.settings functions context bindings with
    | error failure => rfl
    | ok passed =>
      change Rendering.ofAction (Except.mapError (Failure.functionFailed hook.name) <$>
        c.function hook [value, .bool only, passed, .mapping context]) = _
      unfold Chain.function
      simp only [Except.bind]
      generalize (c.call hook [value, .bool only, passed, .mapping context]).run = answer
      cases answer <;> rfl

end Evaluation

section Answers

variable {settings : Settings} {functions : Dict (Function Id)} {context : Context}
  {target : Expr} {only : Bool} {bindings : Option Expr} {value : Value} {original : Context}

theorem answerOf_of_value {c : Chain Id} (hook : Hook) {failure : Failure}
    (h : valueOf settings functions context target = .error failure) :
    answerOf settings functions c hook context target only bindings = .error failure := by
  rw [answerOf, h]
  rfl

/-- The variables that a call of a hook gets. -/
theorem bindingsOf_of_passed
    (h : passedOf settings functions context bindings = .ok original) :
    ∃ passed, bindingsOf settings functions context bindings = .ok passed ∧
      HookArguments.mapping "with" (some passed) = .ok original :=
  originalOf_ok_iff.1 ((passedOf_ok_iff .template).1 h)

/-- A hook refuses the variables that an include cannot pass. -/
theorem answerOf_of_refused {c : Chain Id} (hook : Hook) {failure : Failure}
    (h : passedOf settings functions context bindings = .error failure) :
    ∃ failure', answerOf settings functions c hook context target only bindings =
      .error failure' := by
  unfold answerOf
  cases valueOf settings functions context target with
  | error failure' => exact ⟨failure', rfl⟩
  | ok value =>
    cases hpassed : bindingsOf settings functions context bindings with
    | error failure' => exact ⟨failure', rfl⟩
    | ok passed =>
      cases hmapping : HookArguments.mapping "with" (some passed) with
      | error misuse =>
        simp only [Except.bind, c.call_of_misuse hook value passed only context hmapping]
        exact ⟨_, rfl⟩
      | ok original =>
        have horiginal : originalOf settings functions hook context bindings = .ok original :=
          originalOf_ok_iff.2 ⟨passed, hpassed, hmapping⟩
        rw [(passedOf_ok_iff hook).2 horiginal] at h
        cases h

variable (tables : List (Dict String))
  (hvalue : valueOf settings functions context target = .ok value)
  (hpassed : passedOf settings functions context bindings = .ok original)

include hvalue hpassed

theorem answerOf_template_ok {names : List String} (hnames : Host.candidates value = .ok names) :
    ∃ answer, answerOf settings functions (.ofTables tables) .template context target only
        bindings = .ok answer ∧
      Host.candidates answer = .ok (names.map (Provider.lookUpAll tables)) ∧
      (names ≠ [] → Named value) := by
  obtain ⟨passed, hbindings, hmapping⟩ := bindingsOf_of_passed hpassed
  obtain ⟨answer, hcall, hanswer⟩ := Chain.call_template_ok tables only context hmapping hnames
  refine ⟨answer, ?_, hanswer⟩
  rw [answerOf, hvalue, hbindings]
  simp only [Except.bind, hcall]
  rfl

theorem answerOf_template_error {misfit : Misfit}
    (hnames : Host.candidates value = .error misfit) :
    ∃ failure, answerOf settings functions (.ofTables tables) .template context target only
      bindings = .error failure := by
  obtain ⟨passed, hbindings, hmapping⟩ := bindingsOf_of_passed hpassed
  obtain ⟨fault, hcall⟩ := Chain.call_template_error tables only context hmapping hnames
  refine ⟨Hook.template.failure fault, ?_⟩
  rw [answerOf, hvalue, hbindings]
  simp only [Except.bind, hcall]
  rfl

theorem answerOf_parameters (hnamed : Named value) :
    answerOf settings functions (.ofTables tables) .parameters context target only bindings =
      .ok (.mapping original) := by
  obtain ⟨passed, hbindings, hmapping⟩ := bindingsOf_of_passed hpassed
  rw [answerOf, hvalue, hbindings]
  simp only [Except.bind, Chain.call_parameters_tables tables only context hmapping hnamed]
  rfl

end Answers

end Engine

/-! ## Templates with hooks -/

/-- A loader that looks every name up under another one. -/
def Loader.aliased (store : Loader Id) (f : String → String) : Loader Id where
  source name := store.source (f name)
  has name := store.has (f name)

/-- Templates with hooks and the templates they were made from. If they have to insist, no include
    of theirs may be skipped. -/
def Likeness.routing (insists : Prop) : Likeness where
  prints expr expr' := expr = expr' ∧ expr'.Hookless
  parents expr expr' := expr = routedParent expr' ∧ expr'.Hookless
  includes target clauses target' clauses' :=
    (target = routedTarget target' clauses' ∧
        ∃ span, clauses = routedClauses target' span clauses') ∧
      (target'.Hookless ∧ ∀ e, clauses'.bindings = some e → e.Hookless) ∧
      (insists → clauses'.ignoreMissing = false)
  passes clauses clauses' :=
    (∃ template span, clauses = routedClauses (.constant span (.string template)) span clauses') ∧
      ∀ e, clauses'.bindings = some e → e.Hookless
  finds _ _ := False

/-- An include of a template by its name that may be skipped. -/
def Node.forgives : Node → Bool
  | .«include» _ (.named _) clauses => clauses.ignoreMissing
  | _ => false

/-- A tree without such includes, like its embedded trees. -/
def Tree.Insists (tree : Tree) : Prop :=
  ∀ part ∈ tree :: tree.embedded, ∀ tag ∈ Node.tagsIn part.body, tag.forgives = false

instance (tree : Tree) : Decidable tree.Insists :=
  inferInstanceAs (Decidable (∀ part ∈ tree :: tree.embedded, ∀ tag ∈ Node.tagsIn part.body,
    tag.forgives = false))

/-- A store of such templates. -/
def Loader.Insists (store : Loader Id) : Prop :=
  ∀ name source tree, store.source name = .ok source →
    Tree.parse name source.toList = .ok tree → tree.Insists

theorem Tree.Insists.merged {tree : Tree} (h : tree.Insists) : tree.merged.Insists := by
  unfold Insists at h ⊢
  rw [embedded_merged, List.forall_mem_cons, tagsIn_merged]
  rw [List.forall_mem_cons] at h
  refine ⟨h.1, ?_⟩
  intro part hpart
  obtain ⟨inner, hinner, rfl⟩ := List.mem_map.1 hpart
  rw [tagsIn_merged]
  exact h.2 inner hinner

/-- Items with hooks and the items they were made from. -/
theorem Stands.alike_routed {insists : Prop} {name : String} {trees : List Tree}
    {nodes : List Node} {items : List Item} (h : Stands name trees nodes items) (template : String)
    (htrees : ∀ tree ∈ trees, tree.Routable)
    (htreesInsist : insists → ∀ tree ∈ trees, ∀ tag ∈ Node.tagsIn tree.body, tag.forgives = false)
    (hnodes : Routable (Node.tagsIn nodes))
    (hnodesInsist : insists → ∀ tag ∈ Node.tagsIn nodes, tag.forgives = false) :
    Item.Alike (.routing insists) (Item.routedAll template items) items := by
  induction h with
  | nil => exact .nil
  | text _ ih => exact .text (ih hnodes hnodesInsist)
  | print _ ih =>
    refine .print ⟨rfl, hnodes.print⟩ (ih hnodes.rest ?_)
    exact fun hi => (List.forall_mem_append.1 (hnodesInsist hi)).2
  | block _ _ ihBody ih =>
    refine .block (ihBody hnodes.body ?_) (ih hnodes.rest ?_)
    · exact fun hi => (List.forall_mem_append.1 (hnodesInsist hi)).1
    · exact fun hi => (List.forall_mem_append.1 (hnodesInsist hi)).2
  | @«include» span target clauses nodes items _ ih =>
    obtain ⟨hexprs, -⟩ := hnodes.«include»
    have hclauses : ∀ e, clauses.bindings = some e → e.Hookless :=
      fun e he => hexprs e (List.mem_cons_of_mem _ (Option.mem_toList.2 he))
    refine .«include» ⟨⟨rfl, _, rfl⟩, ⟨hexprs target List.mem_cons_self, hclauses⟩, ?_⟩
      (ih hnodes.rest ?_)
    · exact fun hi => hnodesInsist hi _ List.mem_cons_self
    · exact fun hi => (List.forall_mem_append.1 (hnodesInsist hi)).2
  | @embed span clauses index tree parent nodes inner items htree _ hparent _ _ ihBody ih =>
    have hmem := List.mem_of_getElem? htree
    obtain ⟨hexprs, -⟩ := hnodes.«include»
    refine .embed ⟨rfl, (htrees tree hmem).parent parent hparent⟩
      ⟨⟨template, _, rfl⟩, fun e he => hexprs e (Option.mem_toList.2 he)⟩
      (ihBody (htrees tree hmem).tags fun hi => htreesInsist hi tree hmem) (ih hnodes.rest ?_)
    exact fun hi => (List.forall_mem_append.1 (hnodesInsist hi)).2

/-- With hooks, the page of a source is the routed page without them. -/
theorem Page.ofSource_routed (name source : String) :
    Page.ofSource true name source = (Page.ofSource false name source).routed := by
  unfold Page.ofSource
  cases Syntax.parseItems source.toList <;> rfl

/-- Only the name of a page depends on the name of its source. -/
theorem Page.ofSource_name (name name' source : String) :
    Page.ofSource false name' source = { Page.ofSource false name source with name := name' } := by
  unfold Page.ofSource
  cases Syntax.parseItems source.toList <;> rfl

/-- The page of a source with hooks and the page of the source under another name. -/
theorem Page.alike_ofSource {insists : Prop} {name name' source : String} {tree : Tree}
    (h : Tree.parse name source.toList = .ok tree) (hfine : Engine.Fine true tree)
    (hhookless : tree.Hookless) (hinsists : insists → tree.Insists) :
    Page.Alike (.routing insists) (Page.ofSource true name source)
      (Page.ofSource false name' source) := by
  have hplain : Engine.Fine false tree := nofun
  have hshows : (tree.compiled false).Shows (tree.compiled false)
      (Page.ofSource false name source) := Tree.shows_compiled h hplain
  have hroutable := hhookless.routable hfine
  have hinsists' : insists → tree.merged.Insists := fun hi => (hinsists hi).merged
  rw [Page.ofSource_routed, Page.ofSource_name name name']
  refine ⟨?_, ?_⟩
  · have hparent := hshows.parent
    change Option.Rel _ ((Page.ofSource false name source).parent.map routedParent)
      (Page.ofSource false name source).parent
    cases hp : (Page.ofSource false name source).parent with
    | none => exact .none
    | some parent => exact .some ⟨rfl, hroutable.self.parent parent (hparent.trans hp)⟩
  · refine hshows.body.alike_routed _ hroutable.embedded ?_ hroutable.self.tags ?_
    · exact fun hi tree' htree' => hinsists' hi tree' (List.mem_cons_of_mem _ htree')
    · exact fun hi => hinsists' hi _ List.mem_cons_self

/-! ## Engines over tables -/

namespace Engine

section Tables

variable (store : Loader Id) (settings : Settings) (functions : Dict (Function Id))
  (tables : List (Dict String)) (patience : Nat)

/-- The engine with the extension of a chain of renaming tables. -/
abbrev tabled : Engine Id := overriding store settings functions patience (Chain.ofTables tables)

/-- The engine without an extension that looks names up in the tables. -/
abbrev aliased : Engine Id :=
  ofFunctions (store.aliased (Provider.lookUpAll tables)) settings functions patience

/-- The first engine as a host without a cache. -/
abbrev tabledPages : Host Id Page := (tabled store settings functions tables patience).pages true

/-- The second engine as a host without a cache. -/
abbrev aliasedPages : Host Id Page := (aliased store settings functions tables patience).pages false

variable {store settings functions tables patience}

theorem evaluate_tabled {expr : Expr} (h : expr.Hookless) (context : Context) :
    (tabledPages store settings functions tables patience).evaluate context expr =
      .of (valueOf settings functions context expr) :=
  evaluate_uncached
    (fun name hname => (overriding_consults store settings functions patience _).hooked name
      (h name hname)) context

theorem evaluate_aliased (expr : Expr) (context : Context) :
    (aliasedPages store settings functions tables patience).evaluate context expr =
      .of (valueOf settings functions context expr) :=
  evaluate_uncached (e := aliased store settings functions tables patience)
    (fun name _ => Dict.get?_map _ functions name) context

theorem passed_aliased (bindings : Option Expr) (context : Context) :
    (aliasedPages store settings functions tables patience).passed context bindings =
      .of (passedOf settings functions context bindings) := by
  cases bindings with
  | none => rfl
  | some expr =>
    simp only [Host.passed, passedOf, evaluate_aliased]
    cases valueOf settings functions context expr <;> rfl

theorem evaluate_invoke_tabled (hook : Hook) {target : Expr} (htarget : target.Hookless)
    (only : Bool) {bindings : Option Expr} (hbindings : ∀ e, bindings = some e → e.Hookless)
    (span : Span) (context : Context) :
    (tabledPages store settings functions tables patience).evaluate context
        (hook.invoke target only bindings span) =
      .of (answerOf settings functions (.ofTables tables) hook context target only bindings) :=
  evaluate_invoke_uncached (overriding_consults store settings functions patience _) hook htarget
    only hbindings span context

/-! ### Variables and templates -/

/-- An include passes the same variables through the second hook and without it. -/
theorem passed_tabled {converse : Prop} {context : Context} {target : Expr}
    (htarget : target.Hookless) {value : Value}
    (hvalue : valueOf settings functions context target = .ok value) (hnamed : Named value)
    {clauses : Clauses} (hbindings : ∀ e, clauses.bindings = some e → e.Hookless) (span : Span) :
    Resembles converse Eq
      ((tabledPages store settings functions tables patience).passed context
        (routedClauses target span clauses).bindings)
      ((aliasedPages store settings functions tables patience).passed context
        clauses.bindings) := by
  rw [passed_aliased]
  simp only [Host.passed, routedClauses, evaluate_invoke_tabled .parameters htarget clauses.only
    hbindings]
  cases hpassed : passedOf settings functions context clauses.bindings with
  | ok original =>
    rw [answerOf_parameters tables hvalue hpassed hnamed]
    exact .pure rfl
  | error failure =>
    have hrefused : ∃ failure', answerOf settings functions (.ofTables tables) .parameters context
        target clauses.only clauses.bindings = .error failure' :=
      answerOf_of_refused .parameters hpassed
    obtain ⟨failure', hanswer⟩ := hrefused
    rw [hanswer]
    exact .throw _ _

/-- Templates are found alike under the names that the tables give. -/
theorem find_tabled {converse : Prop} (hcalls : store.CallsNoHook)
    (hnamed : converse → ∀ source, store.source "" ≠ .ok source)
    (hinsists : converse → store.Insists) (names : List String) :
    Found converse (fun page page' => page.Alike (.routing converse) page' ∧ names ≠ [])
      ((tabledPages store settings functions tables patience).find
        (names.map (Provider.lookUpAll tables))).run
      ((aliasedPages store settings functions tables patience).find names).run := by
  refine Host.find_found (fun name _ => rfl) fun name hname _ => ?_
  have hne : names ≠ [] := List.ne_nil_of_mem hname
  change Found converse _
    ((tabled store settings functions tables patience).loadPage true
      (Provider.lookUpAll tables name)).run
    ((aliased store settings functions tables patience).loadPage false name).run
  cases hsource : store.source (Provider.lookUpAll tables name) with
  | error fault =>
    have hsource' : (store.aliased (Provider.lookUpAll tables)).source name = .error fault :=
      hsource
    rw [loadPage_of_fault rfl hsource, loadPage_of_fault rfl hsource']
    cases fault with
    | notFound missing => exact .missing missing missing
    | _ => exact .failed nofun fun _ => ⟨_, rfl, nofun⟩
  | ok source =>
    have hsource' : (store.aliased (Provider.lookUpAll tables)).source name = .ok source := hsource
    have hleft := loadPage_of_source
      (overriding_passes store settings functions patience (.ofTables tables)) rfl hsource
    have hright := loadPage_of_source
      (ofFunctions_passes (store.aliased (Provider.lookUpAll tables)) settings functions patience)
      rfl hsource'
    cases htree : Tree.parse (Provider.lookUpAll tables name) source.toList with
    | error faults =>
      obtain ⟨faults', htree'⟩ := Tree.parse_error_of_name htree name
      rw [htree] at hleft
      rw [htree'] at hright
      rw [hleft, hright]
      exact .failed nofun fun _ => ⟨_, rfl, nofun⟩
    | ok tree =>
      obtain ⟨tree', htree'⟩ := Tree.parse_ok_of_name htree name
      rw [htree] at hleft
      rw [htree'] at hright
      have hpage : ((aliased store settings functions tables patience).loadPage false name).run =
          .ok (Page.ofSource false name source) :=
        hright.elim And.right fun h => (h.1 nofun).elim
      rw [hpage]
      rcases hleft with ⟨hfine, hload⟩ | ⟨hrefused, fault, hload⟩
      · rw [hload]
        refine .found ⟨Page.alike_ofSource htree hfine (hcalls _ source tree hsource htree) ?_, hne⟩
        exact fun hconverse => hinsists hconverse _ source tree hsource htree
      · -- A template is refused only if it has no name.
        rw [hload]
        refine .failed nofun fun hconverse => (hrefused (Tree.fine_of_parse ?_ htree true)).elim
        intro hempty
        rw [hempty] at hsource
        exact hnamed hconverse source hsource

/-- What follows the answer of the first hook resembles what follows the value that was asked about.
    If that value stands for no names, the hook refuses it. -/
theorem answered_resembles {converse : Prop} {α β : Type} {R : α → β → Prop} {context : Context}
    {target : Expr} {only : Bool} {bindings : Option Expr} {original : Context}
    {f : Value → Rendering Id α} {g : Value → Rendering Id β}
    (hpassed : passedOf settings functions context bindings = .ok original)
    (hmisfit : ∀ value misfit, Host.candidates value = .error misfit →
      ∃ failure, (g value).run = .error failure)
    (hnames : ∀ value answer names, valueOf settings functions context target = .ok value →
      Host.candidates value = .ok names →
      Host.candidates answer = .ok (names.map (Provider.lookUpAll tables)) →
      (names ≠ [] → Named value) → Resembles converse R (f answer) (g value)) :
    Resembles converse R
      (.of (answerOf settings functions (.ofTables tables) .template context target only bindings)
        >>= f)
      (.of (valueOf settings functions context target) >>= g) := by
  cases hvalue : valueOf settings functions context target with
  | error failure =>
    rw [answerOf_of_value .template hvalue]
    exact .throw _ _
  | ok value =>
    cases hcandidates : Host.candidates value with
    | error misfit =>
      have hrefused : ∃ failure, answerOf settings functions (.ofTables tables) .template context
          target only bindings = .error failure :=
        answerOf_template_error tables hvalue hpassed hcandidates
      obtain ⟨failure, hanswer⟩ := hrefused
      rw [hanswer]
      exact .failed rfl fun _ => hmisfit value misfit hcandidates
    | ok names =>
      have hgiven : ∃ answer, answerOf settings functions (.ofTables tables) .template context
            target only bindings = .ok answer ∧
          Host.candidates answer = .ok (names.map (Provider.lookUpAll tables)) ∧
            (names ≠ [] → Named value) :=
        answerOf_template_ok tables hvalue hpassed hcandidates
      obtain ⟨answer, hanswer, hrenamed, hnamed⟩ := hgiven
      rw [hanswer]
      exact hnames value answer names hvalue hcandidates hrenamed hnamed

/-! ### Rendering -/

section Sound

variable {converse : Prop} (hcalls : store.CallsNoHook)
  (hnamed : converse → ∀ source, store.source "" ≠ .ok source)
  (hinsists : converse → store.Insists)

include hcalls hnamed hinsists

theorem resolve_tabled {value answer : Value} {names : List String}
    (hvalue : Host.candidates value = .ok names)
    (hanswer : Host.candidates answer = .ok (names.map (Provider.lookUpAll tables)))
    (span span' : Span) :
    Found converse (fun page page' => page.Alike (.routing converse) page' ∧ names ≠ [])
      ((tabledPages store settings functions tables patience).resolve answer span).run
      ((aliasedPages store settings functions tables patience).resolve value span').run := by
  rw [Host.resolve_of_candidates _ hanswer, Host.resolve_of_candidates _ hvalue]
  exact find_tabled hcalls hnamed hinsists names

theorem parent_tabled {expr : Expr} (h : expr.Hookless) (context : Context) :
    Resembles converse (Page.Alike (.routing converse))
      ((tabledPages store settings functions tables patience).parent context (routedParent expr))
      ((aliasedPages store settings functions tables patience).parent context expr) := by
  have hnone : ∀ e, (none : Option Expr) = some e → e.Hookless := nofun
  have hpassed : passedOf settings functions context none = .ok [] := rfl
  simp only [Host.parent, routedParent, evaluate_invoke_tabled .template h false hnone,
    evaluate_aliased]
  refine answered_resembles hpassed (fun value misfit hnames => ?_)
    fun value answer names _ hnames hanswer _ => ?_
  · exact ⟨_, congrArg ExceptT.run (Host.resolve_of_misfit _ hnames expr.span)⟩
  · exact (resolve_tabled hcalls hnamed hinsists hnames hanswer expr.span expr.span).resembles.mono
      fun page page' h => h.1

/-- An include finds alike templates through the first hook and without it, if it can pass its
    variables. -/
theorem included_tabled {target : Expr} (htarget : target.Hookless) {clauses : Clauses}
    (hbindings : ∀ e, clauses.bindings = some e → e.Hookless) {context : Context}
    {original : Context}
    (hpassed : passedOf settings functions context clauses.bindings = .ok original) :
    Resembles converse
      (Option.Rel fun page page' => page.Alike (.routing converse) page' ∧
        ∃ value, valueOf settings functions context target = .ok value ∧ Named value)
      ((tabledPages store settings functions tables patience).included? context
        clauses.ignoreMissing (routedTarget target clauses))
      ((aliasedPages store settings functions tables patience).included? context
        clauses.ignoreMissing target) := by
  simp only [Host.included?, routedTarget,
    evaluate_invoke_tabled .template htarget clauses.only hbindings, evaluate_aliased]
  refine answered_resembles hpassed (fun value misfit hnames => ⟨.misfit misfit target.span, ?_⟩)
    fun value answer names hvalue hnames hanswer hname => ?_
  · rw [Host.resolve_of_misfit _ hnames]
    rfl
  · refine ((resolve_tabled hcalls hnamed hinsists hnames hanswer target.span
      target.span).optional clauses.ignoreMissing).mono fun found found' h => ?_
    cases h with
    | none => exact .none
    | some h => exact .some ⟨h.1, value, hvalue, hname h.2⟩

/-- An include through the hooks resembles the one without them. If the variables cannot be passed,
    the first one fails, and the second one only if it is not skipped. -/
theorem insert_tabled {target : Expr} (htarget : target.Hookless) {clauses : Clauses}
    (hbindings : ∀ e, clauses.bindings = some e → e.Hookless)
    (hclauses : converse → clauses.ignoreMissing = false)
    {render render' : Page → Context → Rendering Id String}
    (hrender : Page.RendersAlike converse (.routing converse) render render') (span : Span)
    (context : Context) :
    Resembles converse Eq
      (Page.insert (tabledPages store settings functions tables patience) render context
        (routedTarget target clauses) (routedClauses target span clauses))
      (Page.insert (aliasedPages store settings functions tables patience) render' context target
        clauses) := by
  cases hpassed : passedOf settings functions context clauses.bindings with
  | error failure =>
    have hrefused : ∃ failure', answerOf settings functions (.ofTables tables) .template context
        target clauses.only clauses.bindings = .error failure' :=
      answerOf_of_refused .template hpassed
    obtain ⟨failure', hanswer⟩ := hrefused
    have hleft : (tabledPages store settings functions tables patience).evaluate context
        (routedTarget target clauses) = .of (.error failure') := by
      rw [routedTarget, evaluate_invoke_tabled .template htarget clauses.only hbindings, hanswer]
    refine .failed (e := failure') ?_ fun hconverse => ?_
    · simp only [Page.insert, Host.included?, hleft]
      rfl
    · exact Page.insert_of_refused (hclauses hconverse) <| by rw [passed_aliased, hpassed]
  | ok original =>
    refine Page.insert_resembles
      (included_tabled hcalls hnamed hinsists htarget hbindings hpassed) ?_
    rintro page page' ⟨hpage, value, hvalue, hname⟩
    refine (passed_tabled htarget hvalue hname hbindings span).bind ?_
    rintro bindings _ rfl
    exact hrender page page' hpage _

omit hcalls hnamed hinsists in
theorem print_tabled {expr : Expr} (h : expr.Hookless) (context : Context) :
    Resembles converse Eq
      ((tabledPages store settings functions tables patience).print context expr)
      ((aliasedPages store settings functions tables patience).print context expr) := by
  simp only [Host.print, evaluate_tabled h, evaluate_aliased]
  cases valueOf settings functions context expr with
  | error failure => exact .throw _ _
  | ok value =>
    change Resembles converse Eq (.of (printValue value expr.span))
      (.of (printValue value expr.span))
    cases printValue value expr.span with
    | error failure => exact .throw _ _
    | ok text => exact .pure rfl

/-- Templates with hooks are rendered over the tables as those are without hooks that they were made
    from. -/
theorem sound_tabled :
    (Likeness.routing converse).Sound converse
      (tabledPages store settings functions tables patience)
      (aliasedPages store settings functions tables patience) where
  maxDepth := rfl
  prints := by
    rintro expr _ ⟨rfl, hexpr⟩ context
    exact print_tabled hexpr context
  parents := by
    rintro _ expr ⟨rfl, hexpr⟩ context
    exact parent_tabled hcalls hnamed hinsists hexpr context
  includes := by
    rintro _ _ target clauses ⟨⟨rfl, span, rfl⟩, ⟨htarget, hbindings⟩, hclauses⟩ render render'
      hrender context
    exact insert_tabled hcalls hnamed hinsists htarget hbindings hclauses hrender span context
  passes := by
    rintro _ clauses ⟨⟨template, span, rfl⟩, hbindings⟩
    refine ⟨rfl, fun context => ?_⟩
    have hconstant : Expr.Hookless (.constant span (.string template)) := nofun
    exact passed_tabled hconstant rfl trivial hbindings span
  finds := nofun

/-- A source that is rendered with the hooks and without them. -/
theorem renderSource_tabled {name source : String}
    (hhookless : ∀ tree, Tree.parse name source.toList = .ok tree → tree.Hookless)
    (hname : converse → name ≠ "")
    (hinsistent : converse → ∀ tree, Tree.parse name source.toList = .ok tree → tree.Insists)
    (context : Context) :
    Resembles converse Eq
      ((tabled store settings functions tables patience).renderSourceUncached true name source
        context)
      ((aliased store settings functions tables patience).renderSourceUncached false name source
        context) := by
  cases htree : Tree.parse name source.toList with
  | error faults =>
    exact .failed (renderSourceUncached_of_faults htree context) fun _ =>
      ⟨_, renderSourceUncached_of_faults htree context⟩
  | ok tree =>
    rcases renderSourceUncached_of_tree
        (overriding_passes store settings functions patience (.ofTables tables)) htree context with
      ⟨hrefused, fault, hleft⟩ | ⟨hfine, hleft⟩
    · exact .failed hleft fun hconverse =>
        (hrefused (Tree.fine_of_parse (hname hconverse) htree true)).elim
    · have hright : ((aliased store settings functions tables patience).renderSourceUncached false
          name source context).run = _ :=
        (renderSourceUncached_of_tree (ofFunctions_passes _ settings functions patience) htree
          context).elim (fun h => (h.1 nofun).elim) And.right
      have halike : Page.Alike (.routing converse) (Page.ofSource true name source)
          (Page.ofSource false name source) :=
        Page.alike_ofSource htree hfine (hhookless tree htree) fun hconverse =>
          hinsistent hconverse tree htree
      have hpages : Resembles converse Eq
          (Page.render (tabledPages store settings functions tables patience) patience
            (Page.ofSource true name source) context)
          (Page.render (aliasedPages store settings functions tables patience) patience
            (Page.ofSource false name source) context) :=
        Page.render_resembles (sound_tabled hcalls hnamed hinsists) patience halike context
      constructor
      · intro output houtput
        rw [hright]
        exact hpages.forth output (hleft ▸ houtput)
      · intro hconverse output houtput
        rw [hleft]
        exact hpages.back hconverse output (hright ▸ houtput)

end Sound

end Tables

/-- A chain of renaming tables is a loader that renames. What a source renders to with the extension
    of the chain, it renders to without an extension over the loader that looks names up in the
    tables. The other way round this holds if no include is skipped when its template is missing and
    no template is without a name. So it is with any patience. -/
theorem rendersSource_tables (store : Loader Id) (settings : Settings)
    (functions : Dict (Function Id)) (patience : Nat) (tables : List (Dict String)) {c : Chain Id}
    (hchain : Chain.ofProviders (tables.map Provider.table) = .ok c) (hcalls : store.CallsNoHook)
    (name source : String)
    (hsource : ∀ tree, Tree.parse name source.toList = .ok tree → tree.Hookless)
    (context : Context) (output : String) :
    ((overriding store settings functions patience c).RendersSource name source context output →
      (ofFunctions (store.aliased (Provider.lookUpAll tables)) settings functions
        patience).RendersSource name source context output) ∧
    ((∀ content, store.source "" ≠ .ok content) → name ≠ "" → store.Insists →
      (∀ tree, Tree.parse name source.toList = .ok tree → tree.Insists) →
      ((overriding store settings functions patience c).RendersSource name source context output ↔
        (ofFunctions (store.aliased (Provider.lookUpAll tables)) settings functions
          patience).RendersSource name source context output)) := by
  obtain rfl := Chain.ofTables_of_valid hchain
  rw [rendersSource_iff_uncached
      (overriding_passes store settings functions patience (.ofTables tables)),
    rendersSource_iff_uncached
      (ofFunctions_passes (store.aliased (Provider.lookUpAll tables)) settings functions patience)]
  have hboth : ∀ converse : Prop, (converse → ∀ content, store.source "" ≠ .ok content) →
      (converse → name ≠ "") → (converse → store.Insists) →
      (converse → ∀ tree, Tree.parse name source.toList = .ok tree → tree.Insists) →
      Resembles converse Eq
        ((tabled store settings functions tables patience).renderSourceUncached true name source
          context)
        ((aliased store settings functions tables patience).renderSourceUncached false name source
          context) :=
    fun converse hnamed hname hinsists hinsistent =>
      renderSource_tabled hcalls hnamed hinsists hsource hname hinsistent context
  constructor
  · intro h
    obtain ⟨_, hrun, rfl⟩ := (hboth False nofun nofun nofun nofun).forth output h
    exact hrun
  · intro hnamed hname hinsists hinsistent
    have hsame := hboth True (fun _ => hnamed) (fun _ => hname) (fun _ => hinsists)
      fun _ => hinsistent
    exact hsame.run_eq_iff output

/-- The source of a template that includes, embeds and extends by names that tables give. -/
def renamedPage : String :=
  tag "extends ['none', 'old']" ++ tag "block main" ++
    tag "include ['missing', 'fallback'] with \x7b'word': 'a'\x7d only" ++
    tag "embed 'old'" ++ tag "block main" ++ tag "include 'missing' with \x7b'word': 'b'\x7d" ++
    tag "endblock" ++ tag "endembed" ++ tag "endblock"

/-- Templates under the names that two tables give, one after the other. -/
def renamedLayouts : Dict String :=
  [("base", "<" ++ tag "block main" ++ tag "endblock" ++ ">"),
    ("found", "\x7b\x7bword\x7d\x7d"), ("fallback", "-"), ("page", renamedPage)]

/-- Two tables. -/
def renamingTables : List (Dict String) :=
  [[("old", "new"), ("missing", "found")], [("new", "base")]]

theorem rendersSource_renamed :
    (overriding (Loader.memory renamedLayouts) {} [] 0
      (Chain.ofTables renamingTables)).RendersSource "page" renamedPage [] "<a<b>>" ∧
    (ofFunctions ((Loader.memory renamedLayouts).aliased (Provider.lookUpAll renamingTables)) {}
      [] 0).RendersSource "page" renamedPage [] "<a<b>>" := by
  have hfit : ∀ name source tree,
      (Loader.memory renamedLayouts : Loader Id).source name = .ok source →
      Tree.parse name source.toList = .ok tree → tree.Hookless ∧ tree.Insists := by
    intro name source tree
    refine Loader.memory_forall (P := fun tree => tree.Hookless ∧ tree.Insists) ?_
    decide +kernel
  have hcalls : (Loader.memory renamedLayouts : Loader Id).CallsNoHook :=
    fun name source tree h htree => (hfit name source tree h htree).1
  have hinsists : (Loader.memory renamedLayouts : Loader Id).Insists :=
    fun name source tree h htree => (hfit name source tree h htree).2
  have hsource : (Loader.memory renamedLayouts : Loader Id).source "page" = .ok renamedPage := rfl
  obtain ⟨himplies, hiff⟩ := rendersSource_tables (Loader.memory renamedLayouts) {} [] 0
    renamingTables (c := .ofTables renamingTables) rfl hcalls "page" renamedPage
    (fun tree => hcalls "page" renamedPage tree hsource) [] "<a<b>>"
  have hplain : (ofFunctions ((Loader.memory renamedLayouts).aliased
      (Provider.lookUpAll renamingTables)) {} [] 0).RendersSource "page" renamedPage []
        "<a<b>>" := by
    rw [rendersSource_iff]
    decide +kernel
  have hoverridden := (hiff nofun (by decide) hinsists
    fun tree => hinsists "page" renamedPage tree hsource).2 hplain
  exact ⟨hoverridden, himplies hoverridden⟩

end Engine

end Stencil
