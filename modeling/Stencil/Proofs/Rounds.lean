import Stencil.Proofs.Correspondences
import Stencil.Proofs.Hooks

/-!
# Several rounds over a chain

A template that is routed through the hooks more than once goes over the chain in as many rounds.
Each round takes the names and the variables that the one before it has left, and every round but
the last one is over before any template is looked for. Since the variables of a round are asked for
with the name that it begins with, only the first round asks with the name that the source gives.

Specification: `Chain.round` and `Chain.rounds`; `Engine.inRounds`, an interpreter of the trees that
no hook was put into.

Results:
* `Engine.valueOf_invoke`: the value of a call of a hook of a chain without effects.
* `Engine.asked_routedTimes`: what an include asks with after it was routed some times.
* `Engine.Repeats.corresponds`: the engine with hooks and the interpreter in rounds.
-/

namespace Stencil

open Override Node

/-! ## Rounds -/

namespace Override

/-- The first name that a value stands for, if there is one. -/
def firstName? : Value → Option String
  | .string name => some name
  | .array (.string name :: _) => some name
  | _ => none

namespace Chain

/-- What stands for the names of a value after all providers: one name for one, an array for an
    array. -/
def renamedValue (c : Chain Id) (inclusion : Inclusion) : Value → ExceptT Fault Id Value
  | .string name => do
    let name ← c.renamed inclusion name
    pure (.string name)
  | .array items => do
    let names ← c.renamedItems inclusion items
    pure (.array (names.map .string))
  | other => throw (.invalidArgument .template (.notName (Json.write other)))

/-- The variables after all providers, which are asked with the first name of a value. -/
def reboundFor (c : Chain Id) (value : Value) (inclusion : Inclusion) : ExceptT Fault Id Context :=
  match firstName? value with
  | some name => c.rebound name inclusion
  | none => throw (.invalidArgument .parameters .arrayWithoutName)

section Rounds

variable (c : Chain Id) (context : Context)

/-- One round: the names and the variables that it leaves. It asks for the variables with the name
    that it begins with. -/
def round (only : Bool) (value : Value) (bindings : Context) :
    Except Failure (Value × Context) := do
  let inclusion : Inclusion := { bindings := bindings, context := context, only := only }
  let renamed ← Except.mapError Hook.template.failure (c.renamedValue inclusion value).run
  let rebound ← Except.mapError Hook.parameters.failure (c.reboundFor value inclusion).run
  pure (renamed, rebound)

/-- The names and the variables that some rounds leave. -/
def rounds (only : Bool) : Nat → Value → Context → Except Failure (Value × Context)
  | 0, value, bindings => .ok (value, bindings)
  | count + 1, value, bindings => do
    let (value, bindings) ← rounds only count value bindings
    c.round context only value bindings

/-- The names of an extended template that some rounds leave. It is passed no variables. -/
def renamedRounds : Nat → Value → Except Failure Value
  | 0, value => .ok value
  | count + 1, value => do
    let value ← renamedRounds count value
    Except.mapError Hook.template.failure
      (c.renamedValue { bindings := [], context := context, only := false } value).run

/-- The variables of an embed that some rounds leave. Its name stays. -/
def reboundRounds (only : Bool) (template : String) : Nat → Context → Except Failure Context
  | 0, bindings => .ok bindings
  | count + 1, bindings => do
    let bindings ← reboundRounds only template count bindings
    Except.mapError Hook.parameters.failure
      (c.rebound template { bindings := bindings, context := context, only := only }).run

end Rounds

end Chain

end Override

namespace Engine

/-! ## The interpreter in rounds -/

section Interpreter

variable (e : Engine Id) (c : Chain Id) (earlier : Nat)

/-- The template that an expression names as the one to extend, after some earlier rounds. -/
def parentInRounds (context : Context) (parent : Expr) : Rendering (StateT Cache Id) Tree := do
  let value ← e.host.evaluate context parent
  let value ← Rendering.of (c.renamedRounds context earlier value)
  let names ← consult .template
    (c.renamedCandidates { bindings := [], context := context, only := false } value)
  e.host.find names

/-- What an include of the template that a value names stands for, after some earlier rounds. -/
def namedInRounds (context : Context) (clauses : Clauses) (value : Value) :
    Rendering (StateT Cache Id) (Option Insertion) := do
  let original ← e.originalBindings .template context clauses.bindings
  let (value, bindings) ← Rendering.of (c.rounds context clauses.only earlier value original)
  let inclusion : Inclusion := { bindings := bindings, context := context, only := clauses.only }
  let names ← consult .template (c.renamedCandidates inclusion value)
  e.directFound c clauses.ignoreMissing (firstName value) inclusion names

/-- What an embed in the template of the given name stands for, after some earlier rounds and one
    more. -/
def embeddedInRounds (context : Context) (clauses : Clauses) (template : String)
    (tree owner : Tree) : Rendering (StateT Cache Id) (Option Insertion) := do
  let original ← e.originalBindings .parameters context clauses.bindings
  let bindings ← Rendering.of
    (c.reboundRounds context clauses.only template (earlier + 1) original)
  pure (some ⟨tree, owner, Host.scope context clauses.only bindings⟩)

/-- What an include stands for after some earlier rounds, unless it is skipped. -/
def insertionInRounds? (context : Context) (owner : Tree) (target : Target) (clauses : Clauses) :
    Rendering (StateT Cache Id) (Option Insertion) :=
  match target with
  | .named expr => do
    let value ← e.host.evaluate context expr
    e.namedInRounds c earlier context clauses value
  | .embedded filename index =>
    match owner.embedded[index]? with
    | none => throw (.missingEmbedded filename index)
    | some tree => e.embeddedInRounds c earlier context clauses filename tree owner

/-- Printing as the engine does, and finding templates in one round after some earlier ones. -/
def inRounds : Access (StateT Cache Id) where
  maxDepth := e.settings.maxDepth
  print := e.host.print
  parent := e.parentInRounds c earlier
  insertion? := e.insertionInRounds? c earlier

/-- One round alone is what the chain does to a template that was routed once. -/
theorem inRounds_zero : e.inRounds c 0 = e.direct c := rfl

end Interpreter

/-! ## Fixed values -/

/-- Steps without effects, one after the other. -/
theorem run_bind_id {ε α β : Type} (x : ExceptT ε Id α) (f : α → ExceptT ε Id β) :
    (x >>= f).run = Except.bind x.run fun a => (f a).run := by
  change ExceptT.bindCont f x.run = _
  cases x.run <;> rfl

/-- Functions without effects have no other form where no effects are. -/
theorem evaluate_id (e : Engine Id) (context : Context) (expr : Expr) :
    outcome (τ := Cache × Unit) (e.host.evaluate context expr) =
      outcome (.of (valueOf e.settings e.functions context expr) :
        Rendering (StateT Cache Id) Value) := by
  refine evaluate_steady (fun name _ => ?_) context
  cases Dict.get? e.functions name <;> rfl

theorem originalBindings_id (e : Engine Id) (hook : Hook) (context : Context)
    (bindings : Option Expr) :
    outcome (τ := Cache × Unit) (e.originalBindings hook context bindings) =
      outcome (.of (originalOf e.settings e.functions hook context bindings) :
        Rendering (StateT Cache Id) Context) := by
  refine originalBindings_of_value hook ?_
  cases bindings with
  | none => rfl
  | some expr => exact evaluate_id e context expr

theorem consult_id {α : Type} (hook : Hook) (question : ExceptT Fault Id α) :
    outcome (τ := Cache × Unit) (consult hook question) =
      outcome (.of (Except.mapError hook.failure question.run) :
        Rendering (StateT Cache Id) α) := rfl

end Engine

namespace Override.Chain

variable (c : Chain Id)

theorem renameNames_eq (inclusion : Inclusion) (items : List Value) :
    c.renameNames inclusion items = (do
      let names ← c.renamedItems inclusion items
      pure (names.map .string)) := by
  induction items with
  | nil => simp [renameNames, renamedItems]
  | cons item rest ih =>
    cases item with
    | string name => simp [renameNames, renamedItems, rename_eq_renamed, ih]
    | _ =>
      simp only [renameNames, renamedItems]
      rfl

variable (value : Value) (bindings context : Context) (only : Bool)

/-- The hook of names answers with what stands for the names after the providers. -/
theorem call_template_eq :
    c.call .template [value, .bool only, .mapping bindings, .mapping context] =
      c.renamedValue { bindings := bindings, context := context, only := only } value := by
  have hvalues : HookArguments.ofValues [value, .bool only, .mapping bindings, .mapping context] =
      .ok ⟨value, { bindings := bindings, context := context, only := only }⟩ :=
    HookArguments.ofValues_call ..
  cases value with
  | string name => simp only [call, callTemplate, hvalues, renamedValue, rename_eq_renamed]
  | array items =>
    simp only [call, callTemplate, hvalues, renamedValue, renameNames_eq, bind_assoc, pure_bind]
  | _ => simp only [call, callTemplate, hvalues, renamedValue]

theorem reboundFor_of_named {value : Value} (h : Named value) (inclusion : Inclusion) :
    c.reboundFor value inclusion = c.rebound (firstName value) inclusion := by
  obtain ⟨name, rfl⟩ | ⟨name, rest, rfl⟩ := h.cases <;> rfl

/-- What stands for the names after the providers stands for the names that are looked for. -/
theorem renamed_cases (inclusion : Inclusion) :
    (∃ fault, (c.renamedValue inclusion value).run = .error fault ∧
      (c.renamedCandidates inclusion value).run = .error fault) ∨
    ∃ answer names, (c.renamedValue inclusion value).run = .ok answer ∧
      (c.renamedCandidates inclusion value).run = .ok names ∧
      Host.candidates answer = .ok names ∧ (names ≠ [] → Named value) := by
  have hfollows := c.callTemplate_follows (τ := Unit) value inclusion.bindings inclusion.only
    inclusion.context
  rw [c.call_template_eq] at hfollows
  have hrun : outcome (c.renamedValue inclusion value) () =
      some ((c.renamedValue inclusion value).run, ()) := rfl
  obtain ⟨_, _, hexcuse⟩ | ⟨result, _, hplain, -, hends⟩ := hfollows rfl hrun
  · exact hexcuse.elim
  have hresult : (c.renamedCandidates inclusion value).run = result :=
    congrArg Prod.fst (Option.some.inj hplain)
  generalize (c.renamedValue inclusion value).run = answer at hends ⊢
  cases hends with
  | error fault => exact .inl ⟨fault, rfl, hresult⟩
  | ok h => exact .inr ⟨_, _, rfl, hresult, h.1, h.2⟩

variable {value bindings context only}

/-- The hook of variables asks with the first name, if the value stands for names at all. -/
theorem call_parameters_eq {answer : Value}
    (h : (c.renamedValue { bindings := bindings, context := context, only := only } value).run =
      .ok answer) :
    c.call .parameters [value, .bool only, .mapping bindings, .mapping context] = (do
      let rebound ← c.reboundFor value { bindings := bindings, context := context, only := only }
      pure (.mapping rebound)) := by
  have hvalues : HookArguments.ofValues [value, .bool only, .mapping bindings, .mapping context] =
      .ok ⟨value, { bindings := bindings, context := context, only := only }⟩ :=
    HookArguments.ofValues_call ..
  cases value with
  | string name =>
    simp only [call, callParameters, hvalues, rebind_eq_rebound, reboundFor, firstName?]
  | array items =>
    cases items with
    | nil =>
      simp only [call, callParameters, hvalues, reboundFor, firstName?]
      rfl
    | cons item rest =>
      cases item with
      | string name =>
        simp only [call, callParameters, hvalues, rebind_eq_rebound, reboundFor, firstName?]
      | _ => cases h
  | _ => cases h

end Override.Chain

/-! ## What is asked -/

namespace Engine

variable {settings : Settings} {functions : Dict (Function Id)} {c : Chain Id} {context : Context}

/-- The value of a call of a hook. -/
theorem valueOf_invoke {hook : Hook}
    (hhook : Dict.get? functions hook.name = some (c.function hook)) (target : Expr) (only : Bool)
    (bindings : Option Expr) (span : Span) :
    valueOf settings functions context (hook.invoke target only bindings span) =
      (valueOf settings functions context target).bind fun value =>
        (originalOf settings functions hook context bindings).bind fun original =>
          Except.mapError hook.failure
            (c.call hook [value, .bool only, .mapping original, .mapping context]).run := by
  have hfunction : (Host.ofFunctions settings functions).function? hook.name =
      some (c.function hook) := hhook
  have harguments := evaluateAll_arguments settings functions target only bindings span context
  have hinvoke : valueOf settings functions context (hook.invoke target only bindings span) =
      Except.bind ((Host.ofFunctions settings functions).evaluateAll context
        [target, .constant span (.bool only), bindings.getD (.constant span .null),
          .name span Expr.contextName]).run fun values =>
        Except.mapError (.functionFailed hook.name) (c.function hook values) := by
    unfold valueOf
    simp only [Hook.invoke, Host.evaluate, hfunction]
    exact run_bind_id _ _
  rw [hinvoke, harguments]
  unfold originalOf
  cases valueOf settings functions context target with
  | error failure => rfl
  | ok value =>
    cases bindingsOf settings functions context bindings with
    | error failure => rfl
    | ok passed =>
      simp only [Except.bind, Except.map]
      have hcall : Except.mapError (.functionFailed hook.name)
          (c.function hook [value, .bool only, passed, .mapping context]) =
          Except.mapError hook.failure
            (c.call hook [value, .bool only, passed, .mapping context]).run := by
        change Except.mapError _ (Except.mapError _ (c.call hook _).run) = _
        cases (c.call hook [value, .bool only, passed, .mapping context]).run <;> rfl
      rw [hcall]
      cases hmapping : HookArguments.mapping "with" (some passed) with
      | error misuse =>
        rw [c.call_of_misuse hook value passed only context hmapping]
        rfl
      | ok original =>
        rw [c.call_of_mapping hook value passed only context hmapping]
        rfl

/-- What an include asks with: the value of its name, and its variables. -/
def asked (settings : Settings) (functions : Dict (Function Id)) (context : Context)
    (target : Expr) (clauses : Clauses) : Except Failure (Value × Context) :=
  (valueOf settings functions context target).bind fun value =>
    (originalOf settings functions .template context clauses.bindings).map (Prod.mk value)

theorem asked_ok {target : Expr} {clauses : Clauses} {value : Value} {original : Context}
    (h : asked settings functions context target clauses = .ok (value, original)) :
    valueOf settings functions context target = .ok value ∧
      ∀ hook, originalOf settings functions hook context clauses.bindings = .ok original := by
  unfold asked at h
  cases hvalue : valueOf settings functions context target with
  | error failure =>
    rw [hvalue] at h
    cases h
  | ok value =>
    cases horiginal : originalOf settings functions .template context clauses.bindings with
    | error failure =>
      rw [hvalue, horiginal] at h
      cases h
    | ok original =>
      rw [hvalue, horiginal] at h
      cases h
      exact ⟨rfl, originalOf_ok horiginal⟩

section Hooks

variable (hhooks : ∀ hook : Hook, Dict.get? functions hook.name = some (c.function hook))

include hhooks

/-- The value of the name of an include that was routed. -/
theorem valueOf_routedTarget (target : Expr) (clauses : Clauses) :
    valueOf settings functions context (routedTarget target clauses) =
      (asked settings functions context target clauses).bind fun (value, original) =>
        Except.mapError Hook.template.failure (c.renamedValue
          { bindings := original, context := context, only := clauses.only } value).run := by
  unfold routedTarget asked
  rw [valueOf_invoke (hhooks .template)]
  cases valueOf settings functions context target with
  | error failure => rfl
  | ok value =>
    cases originalOf settings functions .template context clauses.bindings with
    | error failure => rfl
    | ok original =>
      simp only [Except.bind, Except.map, c.call_template_eq]

/-- The value of the variables of an include that was routed. -/
theorem bindingsOf_routedClauses {target : Expr} {clauses : Clauses} {value answer : Value}
    {original : Context}
    (hasked : asked settings functions context target clauses = .ok (value, original))
    (hanswer : (c.renamedValue
      { bindings := original, context := context, only := clauses.only } value).run = .ok answer)
    (span : Span) :
    bindingsOf settings functions context (routedClauses target span clauses).bindings =
      (Except.mapError Hook.parameters.failure (c.reboundFor value
        { bindings := original, context := context, only := clauses.only }).run).map
          Value.mapping := by
  obtain ⟨hvalue, horiginal⟩ := asked_ok hasked
  have hinvoke : valueOf settings functions context
      (Hook.parameters.invoke target clauses.only clauses.bindings span) = _ :=
    valueOf_invoke (hhooks .parameters) target clauses.only clauses.bindings span
  rw [hvalue, horiginal .parameters, Except.bind, Except.bind, c.call_parameters_eq hanswer]
    at hinvoke
  refine hinvoke.trans ?_
  rw [run_bind_id]
  cases (c.reboundFor value
    { bindings := original, context := context, only := clauses.only }).run <;> rfl

/-- Routing an include once more adds one round. -/
theorem asked_routed (target : Expr) (span : Span) (clauses : Clauses) :
    asked settings functions context (routedTarget target clauses)
        (routedClauses target span clauses) =
      (asked settings functions context target clauses).bind fun (value, original) =>
        c.round context clauses.only value original := by
  have htarget : valueOf settings functions context (routedTarget target clauses) = _ :=
    valueOf_routedTarget hhooks target clauses
  rw [asked, htarget]
  cases hasked : asked settings functions context target clauses with
  | error failure => rfl
  | ok p =>
    obtain ⟨value, original⟩ := p
    simp only [Except.bind, Chain.round]
    cases hanswer : (c.renamedValue
        { bindings := original, context := context, only := clauses.only } value).run with
    | error fault => rfl
    | ok answer =>
      have hbindings := bindingsOf_routedClauses hhooks hasked hanswer span
      simp only [originalOf, hbindings]
      cases (c.reboundFor value
        { bindings := original, context := context, only := clauses.only }).run <;> rfl

end Hooks

end Engine

/-! ## Routing some times -/

namespace Override

/-- The name and the clauses of an include that was routed some times. -/
def routedTimes (span : Span) (target : Expr) (clauses : Clauses) : Nat → Expr × Clauses
  | 0 => (target, clauses)
  | count + 1 =>
    let (target, clauses) := routedTimes span target clauses count
    (routedTarget target clauses, routedClauses target span clauses)

/-- The name of an extended template that was routed some times. -/
def parentTimes (parent : Expr) : Nat → Expr
  | 0 => parent
  | count + 1 => routedParent (parentTimes parent count)

/-- The clauses of an embed that was routed some times. -/
def embeddedTimes (span : Span) (filename : String) (clauses : Clauses) : Nat → Clauses
  | 0 => clauses
  | count + 1 => routedClauses (.constant span (.string filename)) span
      (embeddedTimes span filename clauses count)

/-- Routing an include leaves its flags alone. -/
theorem routedTimes_flags (span : Span) (target : Expr) (clauses : Clauses) (count : Nat) :
    (routedTimes span target clauses count).2.only = clauses.only ∧
      (routedTimes span target clauses count).2.ignoreMissing = clauses.ignoreMissing := by
  induction count with
  | zero => exact ⟨rfl, rfl⟩
  | succ count ih => exact ih

theorem embeddedTimes_only (span : Span) (filename : String) (clauses : Clauses) (count : Nat) :
    (embeddedTimes span filename clauses count).only = clauses.only := by
  induction count with
  | zero => rfl
  | succ count ih => exact ih

end Override

namespace Engine

section Hooks

variable {settings : Settings} {functions : Dict (Function Id)} {c : Chain Id}
  (hhooks : ∀ hook : Hook, Dict.get? functions hook.name = some (c.function hook))
  (context : Context)

include hhooks

/-- An include that was routed some times goes over the chain in as many rounds. -/
theorem asked_routedTimes (span : Span) (target : Expr) (clauses : Clauses) (count : Nat) :
    asked settings functions context (routedTimes span target clauses count).1
        (routedTimes span target clauses count).2 =
      (asked settings functions context target clauses).bind fun (value, original) =>
        c.rounds context clauses.only count value original := by
  induction count with
  | zero =>
    simp only [routedTimes, Chain.rounds]
    cases asked settings functions context target clauses <;> rfl
  | succ count ih =>
    simp only [routedTimes, asked_routed hhooks, ih, Chain.rounds, routedTimes_flags]
    cases asked settings functions context target clauses <;> rfl

/-- The name of an extended template that was routed some times. -/
theorem valueOf_parentTimes (parent : Expr) (count : Nat) :
    valueOf settings functions context (parentTimes parent count) =
      (valueOf settings functions context parent).bind (c.renamedRounds context count) := by
  induction count with
  | zero =>
    simp only [parentTimes]
    cases valueOf settings functions context parent <;> rfl
  | succ count ih =>
    rw [parentTimes, routedParent, valueOf_invoke (hhooks .template), ih]
    cases valueOf settings functions context parent with
    | error failure => rfl
    | ok value =>
      simp only [Except.bind, Chain.renamedRounds]
      cases c.renamedRounds context count value with
      | error failure => rfl
      | ok renamed =>
        -- An `extends` tag passes no variables.
        have hnone : originalOf settings functions .template context none = .ok [] := rfl
        simp only [hnone, c.call_template_eq]
        rfl

/-- The variables of an embed that was routed once more. -/
theorem bindingsOf_embedded (span : Span) (filename : String) (clauses : Clauses) (count : Nat) :
    bindingsOf settings functions context
        (embeddedTimes span filename clauses (count + 1)).bindings =
      (originalOf settings functions .parameters context
        (embeddedTimes span filename clauses count).bindings).bind fun original =>
          (Except.mapError Hook.parameters.failure (c.rebound filename
            { bindings := original, context := context, only := clauses.only }).run).map
              Value.mapping := by
  have hvalue : valueOf settings functions context (.constant span (.string filename)) =
      .ok (.string filename) := by
    rw [valueOf, Host.evaluate_constant]
    rfl
  have hinvoke : valueOf settings functions context (Hook.parameters.invoke
      (.constant span (.string filename)) (embeddedTimes span filename clauses count).only
      (embeddedTimes span filename clauses count).bindings span) = _ :=
    valueOf_invoke (hhooks .parameters) ..
  refine Eq.trans hinvoke ?_
  rw [hvalue, Except.bind, embeddedTimes_only]
  cases originalOf settings functions .parameters context
      (embeddedTimes span filename clauses count).bindings with
  | error failure => rfl
  | ok original =>
    have hnamed : Named (.string filename) := trivial
    simp only [Except.bind, c.callParameters_of_named hnamed, run_bind_id, firstName]
    cases (c.rebound filename
      { bindings := original, context := context, only := clauses.only }).run <;> rfl

/-- An embed that was routed some times goes over the chain in as many rounds. -/
theorem originalOf_embeddedTimes (span : Span) (filename : String) (clauses : Clauses)
    (count : Nat) :
    originalOf settings functions .parameters context
        (embeddedTimes span filename clauses count).bindings =
      (originalOf settings functions .parameters context clauses.bindings).bind
        (c.reboundRounds context clauses.only filename count) := by
  induction count with
  | zero =>
    simp only [embeddedTimes]
    cases originalOf settings functions .parameters context clauses.bindings <;> rfl
  | succ count ih =>
    rw [originalOf, bindingsOf_embedded hhooks, ih]
    cases originalOf settings functions .parameters context clauses.bindings with
    | error failure => rfl
    | ok original =>
      simp only [Except.bind, Chain.reboundRounds]
      cases c.reboundRounds context clauses.only filename count original with
      | error failure => rfl
      | ok bindings =>
        simp only [bind, Except.bind]
        cases (c.rebound filename
          { bindings := bindings, context := context, only := clauses.only }).run <;> rfl

theorem bindingsOf_embeddedTimes (span : Span) (filename : String) (clauses : Clauses)
    (earlier : Nat) :
    bindingsOf settings functions context
        (embeddedTimes span filename clauses (earlier + 1)).bindings =
      ((originalOf settings functions .parameters context clauses.bindings).bind
        (c.reboundRounds context clauses.only filename (earlier + 1))).map Value.mapping := by
  rw [bindingsOf_embedded hhooks, originalOf_embeddedTimes hhooks]
  cases originalOf settings functions .parameters context clauses.bindings with
  | error failure => rfl
  | ok original =>
    simp only [Except.bind, Chain.reboundRounds]
    cases c.reboundRounds context clauses.only filename earlier original <;> rfl

end Hooks

/-- What an include asks with after some earlier rounds, and then the last one. -/
theorem outcome_namedInRounds (e : Engine Id) (c : Chain Id) (earlier : Nat) (context : Context)
    (target : Expr) (clauses : Clauses) :
    outcome (τ := Cache × Unit) (e.host.evaluate context target >>=
        e.namedInRounds c earlier context clauses) =
      outcome (Rendering.of ((asked e.settings e.functions context target clauses).bind
        fun (value, original) => c.rounds context clauses.only earlier value original) >>=
          fun (value, bindings) => do
            let inclusion : Inclusion :=
              { bindings := bindings, context := context, only := clauses.only }
            let names ← consult .template (c.renamedCandidates inclusion value)
            e.directFound c clauses.ignoreMissing (firstName value) inclusion names) := by
  refine (outcome_bind_of_outcome (evaluate_id e context target) _).trans ?_
  unfold asked
  cases valueOf e.settings e.functions context target with
  | error failure => exact (outcome_of_error_bind ..).trans (outcome_of_error_bind ..).symm
  | ok value =>
    refine (outcome_of_ok_bind ..).trans ?_
    refine (outcome_bind_of_outcome
      (originalBindings_id e .template context clauses.bindings) _).trans ?_
    cases originalOf e.settings e.functions .template context clauses.bindings with
    | error failure => exact (outcome_of_error_bind ..).trans (outcome_of_error_bind ..).symm
    | ok original => exact outcome_of_ok_bind ..

end Engine

/-! ## Trees that were routed some times -/

/-- An include, and what it was made from by routing it some times. An embed that lacks its name
    cannot be routed. -/
inductive RoutedInclude (count : Nat) (span : Span) : Target → Clauses → Target → Clauses → Prop
  | named (target : Expr) (clauses : Clauses) :
      RoutedInclude count span (.named (routedTimes span target clauses count).1)
        (routedTimes span target clauses count).2 (.named target) clauses
  | embedded {filename : String} (hfilename : filename ≠ "") (index : Nat) (clauses : Clauses) :
      RoutedInclude count span (.embedded filename index)
        (embeddedTimes span filename clauses count) (.embedded filename index) clauses

/-- Trees, and what they were made from by routing them some times. -/
def routings (count : Nat) : Correspondence where
  parent routed plain := routed = parentTimes plain count
  print routed plain := routed = plain
  «include» span' target' clauses' span target clauses :=
    span' = span ∧ RoutedInclude count span target' clauses' target clauses

/-- Two templates with such trees. -/
def RoutedTimes (count : Nat) (routed plain : Template) : Prop :=
  routed.tree.Corresponds (routings count) plain.tree

namespace Engine

/-- Two engines of the same functions, among them the hooks of a chain, of which the first one has
    routed its templates some times. -/
structure Repeats (hooked plain : Engine Id) (c : Chain Id) (count : Nat) : Prop where
  settings : hooked.settings = plain.settings
  functions : hooked.functions = plain.functions
  loader : hooked.loader = plain.loader
  patience : hooked.patience = plain.patience
  hooks : ∀ hook : Hook, Dict.get? plain.functions hook.name = some (c.function hook)
  compile : ∀ name source, Follows (fun _ => False) (Eq (α := Unit)) (RoutedTimes count)
    (hooked.compile name source) (plain.compile name source)

namespace Repeats

variable {hooked plain : Engine Id} {c : Chain Id} {earlier : Nat}

theorem loadFresh {count : Nat} (h : Repeats hooked plain c count) (name : String) :
    Follows (fun _ => False) (Eq (α := Unit)) (RoutedTimes count) (hooked.loadFresh name)
      (plain.loadFresh name) := by
  unfold Engine.loadFresh
  rw [h.loader]
  refine (Follows.same _).bind ?_
  rintro source _ rfl
  exact h.compile name source

section Access

variable (h : Repeats hooked plain c (earlier + 1))

include h

theorem evaluate (context : Context) (expr : Expr) :
    outcome (τ := Cache × Unit) (hooked.host.evaluate context expr) =
      outcome (.of (valueOf plain.settings plain.functions context expr) :
        Rendering (StateT Cache Id) Value) := by
  rw [evaluate_id, h.settings, h.functions]

theorem templates : TemplatesFollow (fun _ => False)
    (Keeping (RoutedTimes (earlier + 1)) (Eq (α := Unit)))
    (Tree.Corresponds (routings (earlier + 1))) hooked.host plain.host :=
  hostOf_templates_follow h.loader h.loadFresh fun _ _ ht => ht

theorem print (context : Context) (expr : Expr) :
    Follows (fun _ => False) (Keeping (RoutedTimes (earlier + 1)) (Eq (α := Unit))) Eq
      (hooked.host.print context expr) (plain.host.print context expr) :=
  Host.print_follows h.settings context fun _ _ =>
    hostOf_function_follows (by rw [h.functions])

theorem parent (context : Context) (parent : Expr) :
    Follows (fun _ => False) (Keeping (RoutedTimes (earlier + 1)) (Eq (α := Unit)))
      (Tree.Corresponds (routings (earlier + 1)))
      (hooked.host.parent context (parentTimes parent (earlier + 1)))
      (plain.parentInRounds c earlier context parent) := by
  have hvalue : valueOf plain.settings plain.functions context
      (parentTimes parent (earlier + 1)) = _ :=
    valueOf_parentTimes h.hooks context parent (earlier + 1)
  have hhooked := outcome_bind_of_outcome
    (h.evaluate context (parentTimes parent (earlier + 1))) fun value =>
      hooked.host.resolve value (parentTimes parent (earlier + 1)).span
  have hplain := outcome_bind_of_outcome (evaluate_id plain context parent) fun value =>
    Rendering.of (c.renamedRounds context earlier value) >>= fun value =>
      consult .template (c.renamedCandidates
        { bindings := [], context := context, only := false } value) >>= plain.host.find
  refine Follows.congr ?_ hhooked hplain
  rw [hvalue]
  cases valueOf plain.settings plain.functions context parent with
  | error failure =>
    exact .congr (.throw failure) (outcome_of_error_bind ..) (outcome_of_error_bind ..)
  | ok value =>
    refine Follows.congr ?_ rfl (outcome_of_ok_bind ..)
    simp only [Except.bind, Chain.renamedRounds]
    cases c.renamedRounds context earlier value with
    | error failure =>
      exact .congr (.throw failure) (outcome_of_error_bind ..) (outcome_of_error_bind ..)
    | ok renamed =>
      refine Follows.congr ?_ rfl ((outcome_of_ok_bind ..).trans
        (outcome_bind_of_outcome (consult_id ..) _))
      simp only [bind, Except.bind]
      obtain ⟨fault, hanswer, hnames⟩ | ⟨answer, names, hanswer, hnames, hcandidates, -⟩ :=
        c.renamed_cases renamed { bindings := [], context := context, only := false }
      · rw [hanswer, hnames]
        exact .congr (.throw _) (outcome_of_error_bind ..) (outcome_of_error_bind ..)
      · rw [hanswer, hnames]
        refine Follows.congr ?_ (outcome_of_ok_bind ..) (outcome_of_ok_bind ..)
        rw [Host.resolve_of_candidates _ hcandidates]
        exact Host.find_follows h.templates names

/-- The variables that an include or an embed passes after it was routed. -/
theorem passed {context : Context} {bindings : Option Expr} {result : Except Failure Context}
    (hbindings : bindingsOf plain.settings plain.functions context bindings =
      result.map Value.mapping) :
    outcome (τ := Cache × Unit) (hooked.host.passed context bindings) =
      outcome (.of result : Rendering (StateT Cache Id) Context) := by
  cases bindings with
  | none => cases result <;> cases hbindings
  | some expr =>
    refine (outcome_bind_of_outcome (h.evaluate context expr) _).trans ?_
    have hvalue : valueOf plain.settings plain.functions context expr =
        result.map Value.mapping := hbindings
    rw [hvalue]
    cases result with
    | error failure => exact outcome_of_error_bind ..
    | ok fields => exact outcome_of_ok_bind ..

/-- A template that an include found, with the variables that the last round leaves. -/
theorem found {context : Context} (span : Span) {target : Expr} {clauses : Clauses}
    {value answer : Value} {bindings : Context} {names : List String}
    (hasked : asked plain.settings plain.functions context target clauses = .ok (value, bindings))
    (hanswer : (c.renamedValue
      { bindings := bindings, context := context, only := clauses.only } value).run = .ok answer)
    (hnamed : names ≠ [] → Named value) :
    Follows (fun _ => False) (Keeping (RoutedTimes (earlier + 1)) (Eq (α := Unit)))
      (Option.Rel (Insertion.Corresponds (routings (earlier + 1))))
      (Host.optional clauses.ignoreMissing (hooked.host.find names) >>= fun
        | none => pure none
        | some tree => hooked.host.passed context (routedClauses target span clauses).bindings >>=
          fun bindings => pure (some ⟨tree, tree, Host.scope context clauses.only bindings⟩))
      (plain.directFound c clauses.ignoreMissing (firstName value)
        { bindings := bindings, context := context, only := clauses.only } names) := by
  refine (Host.optional_follows (fun _ => not_false) (Host.find_follows_of_ne_nil h.templates names)
    clauses.ignoreMissing).bind ?_
  intro found found' hfound
  cases hfound with
  | none => exact .pure .none
  | some hfound =>
    have hpassed := h.passed (bindingsOf_routedClauses h.hooks hasked hanswer span)
    rw [c.reboundFor_of_named (hnamed hfound.2)] at hpassed
    refine Follows.congr (.bind_of fun bindings _ => ?_) (outcome_bind_of_outcome hpassed _)
      (outcome_bind_of_outcome (consult_id ..) _)
    exact .pure (.some ⟨hfound.1, hfound.1, rfl⟩)

theorem named (context : Context) (owner owner' : Tree) (span : Span) (target : Expr)
    (clauses : Clauses) :
    Follows (fun _ => False) (Keeping (RoutedTimes (earlier + 1)) (Eq (α := Unit)))
      (Option.Rel (Insertion.Corresponds (routings (earlier + 1))))
      (hooked.host.insertion? context owner'
        (.named (routedTimes span target clauses (earlier + 1)).1)
        (routedTimes span target clauses (earlier + 1)).2)
      (plain.insertionInRounds? c earlier context owner (.named target) clauses) := by
  have hrounds : asked plain.settings plain.functions context
      (routedTimes span target clauses earlier).1 (routedTimes span target clauses earlier).2 = _ :=
    asked_routedTimes h.hooks context span target clauses earlier
  have hplain := outcome_namedInRounds plain c earlier context target clauses
  obtain ⟨honly, hignore⟩ := routedTimes_flags span target clauses earlier
  simp only [routedTimes, insertionInRounds?]
  generalize (routedTimes span target clauses earlier).1 = last at hrounds ⊢
  generalize (routedTimes span target clauses earlier).2 = lastClauses at hrounds honly hignore ⊢
  have hhooked := (hooked.host.outcome_insertion?_named context owner'
    (routedTarget last lastClauses) (routedClauses last span lastClauses)).trans
    ((outcome_bind_assoc ..).trans
      (outcome_bind_of_outcome (h.evaluate context (routedTarget last lastClauses)) _))
  refine Follows.congr ?_ hhooked hplain
  rw [valueOf_routedTarget h.hooks, ← hrounds]
  cases hasked : asked plain.settings plain.functions context last lastClauses with
  | error failure =>
    exact .congr (.throw failure) (outcome_of_error_bind ..) (outcome_of_error_bind ..)
  | ok p =>
    obtain ⟨value, bindings⟩ := p
    refine Follows.congr ?_ rfl ((outcome_of_ok_bind ..).trans
      (outcome_bind_of_outcome (consult_id ..) _))
    simp only [Except.bind]
    rw [← honly, ← hignore]
    obtain ⟨fault, hanswer, hnames⟩ | ⟨answer, names, hanswer, hnames, hcandidates, hnamed⟩ :=
      c.renamed_cases value
        { bindings := bindings, context := context, only := lastClauses.only }
    · rw [hanswer, hnames]
      exact .congr (.throw _) (outcome_of_error_bind ..) (outcome_of_error_bind ..)
    · rw [hanswer, hnames]
      refine Follows.congr ?_ (outcome_of_ok_bind ..) (outcome_of_ok_bind ..)
      rw [Host.resolve_of_candidates _ hcandidates]
      have hfound := h.found span hasked hanswer hnamed
      exact hfound

theorem embedded (context : Context) {owner owner' : Tree}
    (howner : owner'.Corresponds (routings (earlier + 1)) owner) (span : Span) (filename : String)
    (index : Nat) (clauses : Clauses) :
    Follows (fun _ => False) (Keeping (RoutedTimes (earlier + 1)) (Eq (α := Unit)))
      (Option.Rel (Insertion.Corresponds (routings (earlier + 1))))
      (hooked.host.insertion? context owner' (.embedded filename index)
        (embeddedTimes span filename clauses (earlier + 1)))
      (plain.insertionInRounds? c earlier context owner (.embedded filename index) clauses) := by
  have hembedded := howner.embedded index
  generalize htree' : owner'.embedded[index]? = found' at hembedded
  generalize htree : owner.embedded[index]? = found at hembedded
  cases hembedded with
  | none =>
    simp only [insertionInRounds?, htree]
    exact .congr (.throw _) (hooked.host.outcome_insertion?_missing context htree' ..) rfl
  | @some tree' tree hinner =>
    simp only [insertionInRounds?, htree, embeddedInRounds]
    have hbindings : bindingsOf plain.settings plain.functions context
        (embeddedTimes span filename clauses (earlier + 1)).bindings = _ :=
      bindingsOf_embeddedTimes h.hooks context span filename clauses earlier
    have hpassed := h.passed hbindings
    have hhooked := (hooked.host.outcome_insertion?_embedded context htree' filename
      (embeddedTimes span filename clauses (earlier + 1))).trans
      (outcome_bind_of_outcome hpassed _)
    have hplain := outcome_bind_of_outcome
      (originalBindings_id plain .parameters context clauses.bindings) fun original =>
        Rendering.of (c.reboundRounds context clauses.only filename (earlier + 1) original) >>=
          fun bindings => pure (some (Insertion.mk tree owner
            (Host.scope context clauses.only bindings)))
    refine Follows.congr ?_ hhooked hplain
    cases originalOf plain.settings plain.functions .parameters context clauses.bindings with
    | error failure =>
      exact .congr (.throw failure) (outcome_of_error_bind ..) (outcome_of_error_bind ..)
    | ok original =>
      refine Follows.congr (.bind_of fun bindings _ => ?_) rfl (outcome_of_ok_bind ..)
      rw [embeddedTimes_only]
      exact .pure (.some ⟨hinner, howner, rfl⟩)

/-- The engine with hooks does at every place that was routed some times what the interpreter does
    in as many rounds at the place as it was before. -/
theorem corresponds : hooked.host.access.Corresponds (routings (earlier + 1)) (fun _ => False) Eq
    (Keeping (RoutedTimes (earlier + 1)) (Eq (α := Unit))) (plain.inRounds c earlier) where
  same _ := rfl
  maxDepth := congrArg Settings.maxDepth h.settings
  print context e e' he := by
    obtain rfl : e = e' := he
    exact .of_follows (fun _ => rfl) (h.print context e)
  parent context e e' he := by
    obtain rfl : e = parentTimes e' (earlier + 1) := he
    exact .of_follows (fun _ => rfl) (h.parent context e')
  insertion? := by
    rintro context owner owner' howner span _ target target' clauses clauses' ⟨rfl, hinclude⟩
    refine .of_follows (fun _ => rfl) ?_
    cases hinclude with
    | named target => exact h.named context owner' owner span target clauses'
    | embedded hfilename index => exact h.embedded context howner span _ index clauses'

end Access

end Repeats

end Engine

end Stencil
