import Stencil.Override.Extension
import Stencil.Proofs.Direct
import Stencil.Proofs.Engines
import Stencil.Proofs.Routed

/-!
# Calls of hooks

An engine with hooks evaluates calls of them where an engine without hooks asks the providers of the
chain itself. The expressions that a call is made of have fixed values, since the functions of a
template have no effects; so it does not matter that some of them are evaluated twice.

Results:
* `Engine.evaluate_steady`, `Engine.evaluateAll_steady`: expressions with fixed values.
* `Engine.Consults.evaluate_invoke`: a call of a hook asks the chain.
* `Chain.callTemplate_follows`, `Chain.callParameters_of_named`: what the hooks ask it.
* `Engine.Consults.mirrors`: names of extended templates and includes with and without hooks.
-/

namespace Stencil

open Override

/-! ## Fixed values -/

/-- The host of some functions without effects. It has no templates. -/
def Host.ofFunctions (settings : Settings) (functions : Dict (Function Id)) : Host Id where
  settings := settings
  function? := Dict.get? functions
  has _ := false
  load name := .error (.templateNotFound name)

/-- A function without effects, for use in any monad. -/
def Function.lift {m : Type → Type} [Monad m] (f : Function Id) : Function m := fun values =>
  pure (f values).run

section Steady

variable {m : Type → Type} [Monad m] {τ : Type} [Runs m τ] {e : Engine m}
  {functions : Dict (Function Id)}

namespace Engine

/-- Functions without effects follow themselves from any state. -/
theorem function_steady {name : String}
    (h : Dict.get? e.functions name = (Dict.get? functions name).map Function.lift)
    (s : Cache × τ) : FunctionFollows (fun _ => False) (fun (_ : Unit) t => t = s)
      (Host.ofFunctions e.settings functions) e.host name := by
  unfold FunctionFollows FunctionCompares
  simp only [Host.ofFunctions, host, hostOf, h]
  cases Dict.get? functions name with
  | none => exact trivial
  | some f =>
    intro values
    refine .of_outcome ?_
    rintro _ ⟨kept, t⟩ rfl
    refine ⟨_, _, (), (kept, t), rfl, ?_, rfl, .refl _⟩
    rw [outcome_ofAction, run_map, run_lift]
    simp only [Function.lift, run_pure, Option.map_some]
    rfl

/-- An expression that calls only functions without effects has the same value from any state. -/
theorem evaluate_steady {expr : Expr}
    (h : ∀ name ∈ expr.calls,
      Dict.get? e.functions name = (Dict.get? functions name).map Function.lift)
    (context : Context) :
    outcome (τ := Cache × τ) (e.host.evaluate context expr) =
      outcome (.of ((Host.ofFunctions e.settings functions).evaluate context expr).run :
        Rendering (StateT Cache m) Value) := by
  funext s
  have hsettings : (Host.ofFunctions e.settings functions).settings = e.host.settings := rfl
  have hfollows : Follows (fun _ => False) (fun (_ : Unit) t => t = s) Eq
      ((Host.ofFunctions e.settings functions).evaluate context expr)
      (e.host.evaluate context expr) :=
    Host.evaluate_follows hsettings context expr fun name hname => function_steady (h name hname) s
  obtain ⟨t, ht, rfl⟩ := hfollows.eq (s := ()) (t := s) rfl rfl
  rw [ht, outcome_of]

/-- Expressions that call only functions without effects have the same values from any state. -/
theorem evaluateAll_steady {exprs : List Expr}
    (h : ∀ name ∈ Expr.callsInAll exprs,
      Dict.get? e.functions name = (Dict.get? functions name).map Function.lift)
    (context : Context) :
    outcome (τ := Cache × τ) (e.host.evaluateAll context exprs) =
      outcome (.of ((Host.ofFunctions e.settings functions).evaluateAll context exprs).run :
        Rendering (StateT Cache m) (List Value)) := by
  funext s
  have hsettings : (Host.ofFunctions e.settings functions).settings = e.host.settings := rfl
  have hfollows : Follows (fun _ => False) (fun (_ : Unit) t => t = s) Eq
      ((Host.ofFunctions e.settings functions).evaluateAll context exprs)
      (e.host.evaluateAll context exprs) :=
    Host.evaluateAll_follows hsettings context exprs fun name hname => function_steady (h name hname) s
  obtain ⟨t, ht, rfl⟩ := hfollows.eq (s := ()) (t := s) rfl rfl
  rw [ht, outcome_of]

end Engine

end Steady

/-! ## Asking a chain -/

section Asking

variable {m : Type → Type} [Monad m] {τ : Type} [Runs m τ]

namespace Engine

theorem outcome_consult {α : Type} (hook : Hook) (question : ExceptT Fault m α) (kept : Cache)
    (s : τ) :
    outcome (consult hook question) (kept, s) =
      (outcome question s).map fun p => (Except.mapError hook.failure p.1, kept, p.2) := by
  unfold consult
  rw [outcome_ofAction, run_lift, run_map, Option.map_map]
  rfl

/-- Questions whose answers follow each other. -/
theorem consult_follows {α β : Type} {excuse : Failure → Prop} {R : α → β → Prop}
    {K : Template → Template → Prop} {x : ExceptT Fault m α} {y : ExceptT Fault m β} (hook : Hook)
    (h : Follows (fun _ => False) (Eq (α := τ)) R x y) :
    Follows excuse (Keeping K (Eq (α := τ))) R (consult hook x) (consult hook y) :=
  .excused (lift_follows (h.mapError hook.failure))

theorem consult_throw {α : Type} (hook : Hook) (fault : Fault) :
    outcome (τ := Cache × τ) (consult hook (throw fault : ExceptT Fault m α)) =
      outcome (throw (hook.failure fault) : Rendering (StateT Cache m) α) := by
  funext ⟨kept, s⟩
  rw [outcome_consult, outcome_throw, outcome_throw]
  rfl

/-- A hook as a function asks the chain. -/
theorem outcome_function (c : Chain m) (hook : Hook) (arguments : List Value) :
    outcome (τ := Cache × τ) (.ofAction (Except.mapError (.functionFailed hook.name) <$>
        StateT.lift (c.function hook arguments)) : Rendering (StateT Cache m) Value) =
      outcome (consult hook (c.call hook arguments)) := by
  funext ⟨kept, s⟩
  rw [outcome_consult, outcome_ofAction, run_map, run_lift]
  unfold Chain.function
  rw [run_map]
  change Option.map _ (Option.map _ (Option.map _ (outcome (c.call hook arguments) s))) = _
  cases outcome (c.call hook arguments) s with
  | none => rfl
  | some p =>
    obtain ⟨r, s'⟩ := p
    cases r <;> rfl

end Engine

end Asking

/-! ## The hooks of a chain -/

namespace Override

/-- The arguments of a call of a hook. -/
theorem HookArguments.ofValues_call (target value : Value) (only : Bool) (context : Context) :
    HookArguments.ofValues [target, .bool only, value, .mapping context] =
      (HookArguments.mapping "with" (some value)).map fun bindings =>
        ⟨target, { bindings := bindings, context := context, only := only }⟩ := by
  cases value <;> rfl

/-- A value that stands for at least one name. -/
def Named : Value → Prop
  | .string _ => True
  | .array (.string _ :: _) => True
  | _ => False

theorem Named.cases {value : Value} (h : Named value) :
    (∃ name, value = .string name) ∨ ∃ name rest, value = .array (.string name :: rest) := by
  unfold Named at h
  split at h
  next name => exact .inl ⟨name, rfl⟩
  next name rest => exact .inr ⟨name, rest, rfl⟩
  next => exact h.elim

namespace Chain

variable {m : Type → Type} [Monad m] {τ : Type} [Runs m τ] (c : Chain m)

/-- A call of a hook with variables that are no mapping fails. -/
theorem call_of_misuse (hook : Hook) (target value : Value) (only : Bool) (context : Context)
    {misuse : Misuse} (h : HookArguments.mapping "with" (some value) = .error misuse) :
    c.call hook [target, .bool only, value, .mapping context] =
      throw (.invalidArgument hook misuse) := by
  have hvalues : HookArguments.ofValues [target, .bool only, value, .mapping context] =
      .error misuse := by
    rw [HookArguments.ofValues_call, h]
    rfl
  cases hook with
  | template => simp only [call, callTemplate, hvalues]
  | parameters => simp only [call, callParameters, hvalues]

/-- Variables that are left out are no variables. -/
theorem call_of_mapping (hook : Hook) (target value : Value) (only : Bool) (context : Context)
    {bindings : Context} (h : HookArguments.mapping "with" (some value) = .ok bindings) :
    c.call hook [target, .bool only, value, .mapping context] =
      c.call hook [target, .bool only, .mapping bindings, .mapping context] := by
  have hvalues : HookArguments.ofValues [target, .bool only, value, .mapping context] =
      HookArguments.ofValues [target, .bool only, .mapping bindings, .mapping context] := by
    rw [HookArguments.ofValues_call, HookArguments.ofValues_call, h]
    rfl
  cases hook with
  | template => simp only [call, callTemplate, hvalues]
  | parameters => simp only [call, callParameters, hvalues]

theorem renameNames_follows (inclusion : Inclusion) (items : List Value) :
    Follows (fun _ => False) (Eq (α := τ))
      (fun values names => values = names.map .string ∧ (names ≠ [] → Named (.array items)))
      (c.renameNames inclusion items) (c.renamedItems inclusion items) := by
  induction items with
  | nil =>
    simp only [renameNames, renamedItems]
    exact .pure ⟨rfl, fun h => (h rfl).elim⟩
  | cons item rest ih =>
    cases item with
    | string name =>
      simp only [renameNames, renamedItems, rename_eq_renamed]
      refine (Follows.same _).bind ?_
      rintro first _ rfl
      refine ih.bind ?_
      rintro values names ⟨rfl, -⟩
      exact .pure ⟨rfl, fun _ => trivial⟩
    | _ =>
      simp only [renameNames, renamedItems]
      exact .throw _

/-- The names that the items of an array stand for, one item at a time. -/
theorem candidates_cons (name : String) (rest : List Value) :
    Host.candidates (.array (.string name :: rest)) =
      (Host.candidates (.array rest)).map (name :: ·) := by
  simp only [Host.candidates, List.mapM_cons]
  generalize (List.mapM _ rest : Except Misfit (List String)) = names
  cases names <;> rfl

section Renamed

variable {f : String → String} {inclusion : Inclusion}
  (h : ∀ name (s : τ), outcome (c.renamed inclusion name) s = some (.ok (f name), s))

include h

theorem renamedItems_of_renamed (items : List Value) (s : τ) :
    match Host.candidates (.array items) with
    | .ok names => outcome (c.renamedItems inclusion items) s = some (.ok (names.map f), s)
    | .error _ => ∃ fault, outcome (c.renamedItems inclusion items) s = some (.error fault, s) := by
  induction items with
  | nil => exact outcome_pure [] s
  | cons item rest ih =>
    cases item with
    | string name =>
      rw [candidates_cons]
      have hfirst : outcome (c.renamedItems inclusion (.string name :: rest)) s =
          outcome (c.renamedItems inclusion rest >>= fun others => pure (f name :: others)) s :=
        outcome_bind_ok (h name s) _
      cases hrest : Host.candidates (.array rest) with
      | ok names =>
        rw [hrest] at ih
        exact (hfirst.trans (outcome_bind_ok ih _)).trans (outcome_pure _ s)
      | error misfit =>
        rw [hrest] at ih
        obtain ⟨fault, ih⟩ := ih
        exact ⟨fault, hfirst.trans (outcome_bind_error ih _)⟩
    | _ => exact ⟨_, outcome_throw _ s⟩

/-- A chain that renames single names by a function renames all that a value stands for. -/
theorem renamedCandidates_of_renamed (value : Value) (s : τ) :
    match Host.candidates value with
    | .ok names => outcome (c.renamedCandidates inclusion value) s = some (.ok (names.map f), s)
    | .error _ =>
      ∃ fault, outcome (c.renamedCandidates inclusion value) s = some (.error fault, s) := by
  cases value with
  | string name => exact (outcome_bind_ok (h name s) _).trans (outcome_pure _ s)
  | array items => exact c.renamedItems_of_renamed h items s
  | _ => exact ⟨_, outcome_throw _ s⟩

end Renamed

/-- The hook of names answers a value that stands for the names after the providers. -/
theorem callTemplate_follows (target : Value) (bindings : Context) (only : Bool)
    (context : Context) :
    Follows (fun _ => False) (Eq (α := τ))
      (fun value names => Host.candidates value = .ok names ∧ (names ≠ [] → Named target))
      (c.call .template [target, .bool only, .mapping bindings, .mapping context])
      (c.renamedCandidates { bindings := bindings, context := context, only := only } target) := by
  have hvalues : HookArguments.ofValues [target, .bool only, .mapping bindings, .mapping context] =
      .ok ⟨target, { bindings := bindings, context := context, only := only }⟩ :=
    HookArguments.ofValues_call ..
  cases target with
  | string name =>
    simp only [call, callTemplate, hvalues, renamedCandidates, rename_eq_renamed]
    refine (Follows.same _).bind ?_
    rintro first _ rfl
    exact .pure ⟨rfl, fun _ => trivial⟩
  | array items =>
    simp only [call, callTemplate, hvalues, renamedCandidates]
    refine Follows.congr ((c.renameNames_follows _ items).bind ?_) rfl (outcome_bind_pure _).symm
    rintro values names ⟨rfl, hnamed⟩
    exact .pure ⟨Host.candidates_strings names, hnamed⟩
  | _ =>
    simp only [call, callTemplate, hvalues, renamedCandidates]
    exact .throw _

/-- The hook of variables asks with the first name. -/
theorem callParameters_of_named {target : Value} (h : Named target) (bindings : Context)
    (only : Bool) (context : Context) :
    c.call .parameters [target, .bool only, .mapping bindings, .mapping context] = (do
      let answer ← c.rebound (firstName target)
        { bindings := bindings, context := context, only := only }
      pure (.mapping answer)) := by
  have hvalues : HookArguments.ofValues [target, .bool only, .mapping bindings, .mapping context] =
      .ok ⟨target, { bindings := bindings, context := context, only := only }⟩ :=
    HookArguments.ofValues_call ..
  obtain ⟨name, rfl⟩ | ⟨name, rest, rfl⟩ := h.cases <;>
    simp only [call, callParameters, hvalues, rebind_eq_rebound, firstName]

end Chain

end Override

/-! ## Engines with and without hooks -/

section Consults

variable {m : Type → Type} [Monad m] {τ : Type} [Runs m τ]

/-- Two engines of the same functions without effects, of which the first one has the hooks of a
    chain in addition. -/
structure Engine.Consults (hooked plain : Engine m) (c : Chain m) (functions : Dict (Function Id)) :
    Prop where
  settings : hooked.settings = plain.settings
  loader : hooked.loader = plain.loader
  patience : hooked.patience = plain.patience
  hook : ∀ hook : Hook, Dict.get? hooked.functions hook.name = some (c.function hook)
  hooked : ∀ name, (∀ hook : Hook, name ≠ hook.name) →
    Dict.get? hooked.functions name = (Dict.get? functions name).map Function.lift
  plain : ∀ name, (∀ hook : Hook, name ≠ hook.name) →
    Dict.get? plain.functions name = (Dict.get? functions name).map Function.lift

namespace Engine

variable {hooked plain : Engine m} {c : Chain m} {functions : Dict (Function Id)}

/-- The value of an expression without hooks. -/
def valueOf (settings : Settings) (functions : Dict (Function Id)) (context : Context)
    (expr : Expr) : Except Failure Value :=
  ((Host.ofFunctions settings functions).evaluate context expr).run

/-- The value of the variables that an include without hooks passes. -/
def bindingsOf (settings : Settings) (functions : Dict (Function Id)) (context : Context) :
    Option Expr → Except Failure Value
  | none => .ok .null
  | some expr => valueOf settings functions context expr

/-- The variables that an include without hooks passes. -/
def originalOf (settings : Settings) (functions : Dict (Function Id)) (hook : Hook)
    (context : Context) (bindings : Option Expr) : Except Failure Context :=
  (bindingsOf settings functions context bindings).bind fun value =>
    Except.mapError (fun misuse => hook.failure (.invalidArgument hook misuse))
      (HookArguments.mapping "with" (some value))

/-- The variables are a mapping that has been evaluated, whichever hook asks for them. -/
theorem originalOf_ok_iff {settings : Settings} {hook : Hook} {context original : Context}
    {bindings : Option Expr} : originalOf settings functions hook context bindings = .ok original ↔
      ∃ value, bindingsOf settings functions context bindings = .ok value ∧
        HookArguments.mapping "with" (some value) = .ok original := by
  unfold originalOf
  cases bindingsOf settings functions context bindings with
  | error failure => exact ⟨nofun, nofun⟩
  | ok value =>
    simp only [Except.bind, Except.ok.injEq, exists_eq_left']
    cases HookArguments.mapping "with" (some value) with
    | error misuse => exact ⟨nofun, nofun⟩
    | ok fields => simp only [Except.mapError, Except.ok.injEq]

/-- The variables are the same for both hooks. -/
theorem originalOf_ok {settings : Settings} {hook : Hook} {context original : Context}
    {bindings : Option Expr} (h : originalOf settings functions hook context bindings = .ok original)
    (other : Hook) : originalOf settings functions other context bindings = .ok original :=
  originalOf_ok_iff.2 (originalOf_ok_iff.1 h)

/-- The variables that an include passes, if they have a fixed value. -/
theorem originalBindings_of_value {e : Engine m} (hook : Hook) {context : Context}
    {bindings : Option Expr}
    (h : outcome (τ := Cache × τ) (e.bindingsValue context bindings) =
      outcome (.of (bindingsOf e.settings functions context bindings) :
        Rendering (StateT Cache m) Value)) :
    outcome (τ := Cache × τ) (e.originalBindings hook context bindings) =
      outcome (.of (originalOf e.settings functions hook context bindings) :
        Rendering (StateT Cache m) Context) := by
  unfold originalBindings originalOf
  rw [outcome_bind_of_outcome h]
  cases bindingsOf e.settings functions context bindings with
  | error failure => exact outcome_of_error_bind failure _
  | ok value =>
    rw [outcome_of_ok_bind]
    cases value <;> rfl

/-- The arguments of a call of a hook: the values of its name and of its variables, the flag and the
    context. -/
theorem evaluateAll_arguments (settings : Settings) (functions : Dict (Function Id))
    (target : Expr) (only : Bool) (bindings : Option Expr) (span : Span) (context : Context) :
    ((Host.ofFunctions settings functions).evaluateAll context
        [target, .constant span (.bool only), bindings.getD (.constant span .null),
          .name span Expr.contextName]).run =
      (valueOf settings functions context target).bind fun value =>
        (bindingsOf settings functions context bindings).map fun passed =>
          [value, .bool only, passed, .mapping context] := by
  have hbindings : ((Host.ofFunctions settings functions).evaluate context
      (bindings.getD (.constant span .null))).run =
        bindingsOf settings functions context bindings := by
    cases bindings with
    | none => rw [Option.getD_none, Host.evaluate_constant]; rfl
    | some expr => rfl
  have hcontext : variableValue (Host.ofFunctions settings functions).settings context
      Expr.contextName span = .ok (.mapping context) := by
    simp [variableValue]
  simp only [Host.evaluateAll, Host.evaluate_constant, Host.evaluate_name, hcontext, valueOf,
    ← hbindings]
  generalize (Host.ofFunctions settings functions).evaluate context target = first
  generalize (Host.ofFunctions settings functions).evaluate context
    (bindings.getD (.constant span .null)) = third
  cases first with
  | error failure => rfl
  | ok value => cases third <;> rfl

/-- Asks a chain what a hook would ask it, after evaluating the name and the variables. -/
def ask (settings : Settings) (functions : Dict (Function Id)) (c : Chain m) (hook : Hook)
    (context : Context) (target : Expr) (only : Bool) (bindings : Option Expr) :
    Rendering (StateT Cache m) Value := do
  let value ← Rendering.of (valueOf settings functions context target)
  let original ← Rendering.of (originalOf settings functions hook context bindings)
  consult hook (c.call hook [value, .bool only, .mapping original, .mapping context])

namespace Consults

variable (h : hooked.Consults plain c functions)

include h

theorem evaluate_plain {expr : Expr} (hexpr : expr.Hookless) (context : Context) :
    outcome (τ := Cache × τ) (plain.host.evaluate context expr) =
      outcome (.of (valueOf plain.settings functions context expr) :
        Rendering (StateT Cache m) Value) :=
  evaluate_steady (fun name hname => h.plain name (hexpr name hname)) context

theorem originalBindings_plain (hook : Hook) {bindings : Option Expr}
    (hbindings : ∀ e, bindings = some e → e.Hookless) (context : Context) :
    outcome (τ := Cache × τ) (plain.originalBindings hook context bindings) =
      outcome (.of (originalOf plain.settings functions hook context bindings) :
        Rendering (StateT Cache m) Context) := by
  refine originalBindings_of_value hook ?_
  cases bindings with
  | none => rfl
  | some expr => exact h.evaluate_plain (hbindings expr rfl) context

/-- The functions that are called in the arguments of a call of a hook. -/
theorem hooked_arguments {target : Expr} (htarget : target.Hookless) (only : Bool)
    {bindings : Option Expr} (hbindings : ∀ e, bindings = some e → e.Hookless) (span : Span) :
    ∀ name ∈ Expr.callsInAll [target, .constant span (.bool only),
        bindings.getD (.constant span .null), .name span Expr.contextName],
      Dict.get? hooked.functions name = (Dict.get? functions name).map Function.lift := by
  intro name hname
  refine h.hooked name ?_
  simp only [Expr.callsInAll, Expr.calls, List.nil_append, List.append_nil, List.mem_append] at hname
  rcases hname with hname | hname
  · exact htarget name hname
  · cases bindings with
    | none => cases hname
    | some expr => exact hbindings expr rfl name hname

/-- A call of a hook asks the chain, after its name and its variables have been evaluated. -/
theorem evaluate_invoke (hook : Hook) {target : Expr} (htarget : target.Hookless) (only : Bool)
    {bindings : Option Expr} (hbindings : ∀ e, bindings = some e → e.Hookless) (span : Span)
    (context : Context) :
    outcome (τ := Cache × τ)
        (hooked.host.evaluate context (hook.invoke target only bindings span)) =
      outcome (ask plain.settings functions c hook context target only bindings) := by
  simp only [Hook.invoke, Host.evaluate]
  have hfunction : hooked.host.function? hook.name =
      some fun values => StateT.lift (c.function hook values) := by
    simp only [host, hostOf, h.hook hook, Option.map_some]
  simp only [hfunction]
  rw [outcome_bind_of_outcome (evaluateAll_steady (h.hooked_arguments htarget only hbindings span)
      context), h.settings,
    evaluateAll_arguments]
  unfold ask originalOf
  cases valueOf plain.settings functions context target with
  | error failure =>
    rw [outcome_of_error_bind]
    exact outcome_of_error_bind failure _
  | ok value =>
    rw [outcome_of_ok_bind]
    cases bindingsOf plain.settings functions context bindings with
    | error failure => exact (outcome_of_error_bind ..).trans (outcome_of_error_bind ..).symm
    | ok passed =>
      refine (outcome_of_ok_bind _ _).trans ?_
      rw [outcome_function]
      simp only [Except.bind]
      cases hmapping : HookArguments.mapping "with" (some passed) with
      | error misuse =>
        rw [c.call_of_misuse hook value passed only context hmapping, consult_throw]
        exact (outcome_of_error_bind ..).symm
      | ok original =>
        rw [c.call_of_mapping hook value passed only context hmapping]
        exact (outcome_of_ok_bind (n := StateT Cache m) original fun original => consult hook
          (c.call hook [value, .bool only, .mapping original, .mapping context])).symm

section Ask

omit h

variable {settings : Settings} {hook : Hook} {context : Context} {target : Expr} {only : Bool}
  {bindings : Option Expr} {β : Type}

/-- Asking a chain, step by step. -/
theorem ask_bind (k : Value → Rendering (StateT Cache m) β) :
    outcome (τ := Cache × τ) (ask settings functions c hook context target only bindings >>= k) =
      outcome (Rendering.of (valueOf settings functions context target) >>= fun value =>
        Rendering.of (originalOf settings functions hook context bindings) >>= fun original =>
          consult hook (c.call hook [value, .bool only, .mapping original, .mapping context]) >>=
            k) :=
  (outcome_bind_assoc ..).trans (outcome_bind_congr _ fun _ => outcome_bind_assoc ..)

end Ask

/-- The variables that a call of the second hook passes, if its name has a value. -/
theorem passed_invoke {target : Expr} (htarget : target.Hookless) (only : Bool)
    {bindings : Option Expr} (hbindings : ∀ e, bindings = some e → e.Hookless) (span : Span)
    {context : Context} {value : Value}
    (hvalue : valueOf plain.settings functions context target = .ok value) :
    outcome (τ := Cache × τ)
        (hooked.host.passed context (some (Hook.parameters.invoke target only bindings span))) =
      outcome (Rendering.of (originalOf plain.settings functions .parameters context bindings) >>=
        fun original => consult .parameters
            (c.call .parameters [value, .bool only, .mapping original, .mapping context]) >>=
          fun value => Rendering.of (Host.variablesOf value span)) := by
  have hask := outcome_bind_of_outcome
    (h.evaluate_invoke (τ := τ) .parameters htarget only hbindings span context)
    fun value => Rendering.of (Host.variablesOf value span)
  refine (hask.trans (ask_bind _)).trans ?_
  rw [hvalue, outcome_of_ok_bind]

omit h in
/-- The answer of the second hook is the variables after the providers. -/
theorem consulted_follows {excuse : Failure → Prop} {K : Template → Template → Prop} {value : Value}
    (hnamed : Named value) (only : Bool) (original context : Context) (span : Span) :
    Follows excuse (Keeping K (Eq (α := τ))) Eq
      (consult .parameters
          (c.call .parameters [value, .bool only, .mapping original, .mapping context]) >>=
        fun value => Rendering.of (Host.variablesOf value span))
      (consult .parameters (c.rebound (firstName value)
        { bindings := original, context := context, only := only })) := by
  have hcall : Follows (fun _ => False) (Eq (α := τ)) (fun value answer => value = .mapping answer)
      (c.call .parameters [value, .bool only, .mapping original, .mapping context])
      (c.rebound (firstName value)
        { bindings := original, context := context, only := only }) := by
    rw [c.callParameters_of_named hnamed]
    refine Follows.congr ((Follows.same _).bind ?_) rfl (outcome_bind_pure _).symm
    rintro answer _ rfl
    exact .pure rfl
  refine Follows.congr ((consult_follows .parameters hcall).bind ?_) rfl (outcome_bind_pure _).symm
  rintro _ answer rfl
  exact .pure rfl

/-! ### Names of extended templates and includes -/

variable {excuse : Failure → Prop}

/-- An embed of a routed tree stands for the embedded tree that its number leads to. -/
theorem embedded_tree_follows (context : Context) {owner tree : Tree}
    (howner : owner.AllRoutable) (filename : String) {index : Nat}
    (htree : owner.embedded[index]? = some tree) {clauses : Clauses}
    (hbindings : ∀ e, clauses.bindings = some e → e.Hookless) (span : Span) :
    Follows excuse (Keeping RoutedTemplate (Eq (α := τ))) (Option.Rel RoutedInsertion)
      (hooked.host.insertion? context owner.routed (.embedded filename index)
        (routedClauses (.constant span (.string filename)) span clauses))
      (plain.directEmbedded c context clauses filename tree owner) := by
  have hrouted : owner.routed.embedded[index]? = some tree.routed := by
    rw [Tree.routed_embedded, List.getElem?_map, htree, Option.map_some]
  have hconstant : Expr.Hookless (.constant span (.string filename)) := by
    intro name hname
    cases hname
  have hvalue : valueOf plain.settings functions context (.constant span (.string filename)) =
      .ok (.string filename) := by
    rw [valueOf, Host.evaluate_constant]
    rfl
  have hpassed := h.passed_invoke (τ := τ) hconstant clauses.only hbindings span hvalue
  have hhooked := (hooked.host.outcome_insertion?_embedded context hrouted filename
    (routedClauses (.constant span (.string filename)) span clauses)).trans
    ((outcome_bind_of_outcome hpassed _).trans (outcome_bind_assoc ..))
  have hplain := outcome_bind_of_outcome
    (h.originalBindings_plain (τ := τ) .parameters hbindings context) fun original => do
      let bindings ← consult .parameters (c.rebound filename
        { bindings := original, context := context, only := clauses.only })
      pure (some (Insertion.mk tree owner (Host.scope context clauses.only bindings)))
  refine Follows.congr (.bind_of fun original _ => ?_) hhooked hplain
  have hnamed : Named (.string filename) := trivial
  refine (consulted_follows hnamed clauses.only original context span).bind ?_
  rintro bindings _ rfl
  exact .pure (.some ⟨rfl, rfl, rfl, howner.embedded tree (List.mem_of_getElem? htree), howner⟩)

theorem embedded_follows (context : Context) {owner : Tree} (howner : owner.AllRoutable)
    (filename : String) (index : Nat) {clauses : Clauses}
    (hbindings : ∀ e, clauses.bindings = some e → e.Hookless) (span : Span) :
    Follows excuse (Keeping RoutedTemplate (Eq (α := τ))) (Option.Rel RoutedInsertion)
      (hooked.host.insertion? context owner.routed (.embedded filename index)
        (routedClauses (.constant span (.string filename)) span clauses))
      (plain.directInsertion? c context owner (.embedded filename index) clauses) := by
  cases htree : owner.embedded[index]? with
  | none =>
    have hrouted : owner.routed.embedded[index]? = none := by
      rw [Tree.routed_embedded, List.getElem?_map, htree, Option.map_none]
    simp only [directInsertion?, htree]
    exact Follows.congr (.throw _) (hooked.host.outcome_insertion?_missing context hrouted ..) rfl
  | some tree =>
    simp only [directInsertion?, htree]
    exact h.embedded_tree_follows context howner filename htree hbindings span

variable (ht : TemplatesFollow excuse (Keeping RoutedTemplate (Eq (α := τ))) RoutedTree
  hooked.host plain.host)

include ht

theorem parent_follows (context : Context) {parent : Expr} (hparent : parent.Hookless) :
    Follows excuse (Keeping RoutedTemplate (Eq (α := τ))) RoutedTree
      (hooked.host.parent context (routedParent parent)) (plain.directParent c context parent) := by
  have hnone : ∀ e, (none : Option Expr) = some e → e.Hookless := nofun
  have hhooked := (outcome_bind_of_outcome
    (h.evaluate_invoke (τ := τ) .template hparent false hnone parent.span context)
    fun value => hooked.host.resolve value (routedParent parent).span).trans (ask_bind _)
  have hplain := outcome_bind_of_outcome (h.evaluate_plain (τ := τ) hparent context) fun value => do
    let names ← consult .template
      (c.renamedCandidates { bindings := [], context := context, only := false } value)
    plain.host.find names
  refine Follows.congr (.bind_of fun value _ => ?_) hhooked hplain
  -- An `extends` tag passes no variables.
  refine Follows.congr ?_ (outcome_of_ok_bind [] _) rfl
  refine (consult_follows .template (c.callTemplate_follows value [] false context)).bind ?_
  rintro answer names ⟨hnames, -⟩
  rw [Host.resolve_of_candidates _ hnames]
  exact Host.find_follows ht names

variable (hexcuse : ∀ name, ¬ excuse (.templateNotFound name))

include hexcuse

/-- A template that an include found, with the variables after the providers. -/
theorem found_follows (context : Context) {target : Expr} {clauses : Clauses}
    (htarget : target.Hookless) (hbindings : ∀ e, clauses.bindings = some e → e.Hookless)
    (span : Span) {value : Value} {original : Context}
    (hvalue : valueOf plain.settings functions context target = .ok value)
    (horiginal : originalOf plain.settings functions .parameters context clauses.bindings =
      .ok original)
    {names : List String} (hnamed : names ≠ [] → Named value) :
    Follows excuse (Keeping RoutedTemplate (Eq (α := τ))) (Option.Rel RoutedInsertion)
      (Host.optional clauses.ignoreMissing (hooked.host.find names) >>= fun
        | none => pure none
        | some tree => hooked.host.passed context (routedClauses target span clauses).bindings >>=
          fun bindings => pure (some ⟨tree, tree, Host.scope context clauses.only bindings⟩))
      (plain.directFound c clauses.ignoreMissing (firstName value)
        { bindings := original, context := context, only := clauses.only } names) := by
  refine (Host.optional_follows hexcuse (Host.find_follows_of_ne_nil ht names)
    clauses.ignoreMissing).bind ?_
  intro found found' hfound
  cases hfound with
  | none => exact .pure .none
  | some hfound =>
    have hpassed := h.passed_invoke (τ := τ) htarget clauses.only hbindings span hvalue
    rw [horiginal, outcome_of_ok_bind] at hpassed
    refine (Follows.congr (consulted_follows (hnamed hfound.2) clauses.only original context span)
      hpassed rfl).bind ?_
    rintro bindings _ rfl
    exact .pure (.some (hfound.1.insertion _))

theorem named_follows (context : Context) (owner owner' : Tree) {target : Expr}
    {clauses : Clauses} (htarget : target.Hookless)
    (hbindings : ∀ e, clauses.bindings = some e → e.Hookless) (span : Span) :
    Follows excuse (Keeping RoutedTemplate (Eq (α := τ))) (Option.Rel RoutedInsertion)
      (hooked.host.insertion? context owner' (.named (routedTarget target clauses))
        (routedClauses target span clauses))
      (plain.directInsertion? c context owner (.named target) clauses) := by
  have hask := h.evaluate_invoke (τ := τ) .template htarget clauses.only hbindings target.span context
  have hhooked := (hooked.host.outcome_insertion?_named context owner'
    (routedTarget target clauses) (routedClauses target span clauses)).trans
    ((outcome_bind_assoc ..).trans ((outcome_bind_of_outcome hask _).trans (ask_bind _)))
  have hplain := outcome_bind_of_outcome (h.evaluate_plain (τ := τ) htarget context)
    (plain.directNamed c context clauses)
  refine Follows.congr (.bind_of fun value hvalue => ?_) hhooked hplain
  have horiginal := h.originalBindings_plain (τ := τ) .template hbindings context
  unfold directNamed
  refine Follows.congr (.bind_of fun original horiginal => ?_) rfl
    (outcome_bind_of_outcome horiginal _)
  refine (consult_follows .template
    (c.callTemplate_follows value original clauses.only context)).bind ?_
  rintro answer names ⟨hnames, hnamed⟩
  rw [Host.resolve_of_candidates _ hnames]
  exact h.found_follows ht hexcuse context htarget hbindings span hvalue
    (originalOf_ok horiginal .parameters) hnamed

/-- The engine with hooks does at every place that was routed what the interpreter without hooks does
    at the place as it was before. -/
theorem mirrors : Access.Mirrors excuse (Keeping RoutedTemplate (Eq (α := τ))) hooked.host.access
    (plain.direct c) where
  maxDepth := congrArg Settings.maxDepth h.settings
  print context _ he := Host.print_follows h.settings context fun name hname =>
    hostOf_function_follows
      ((h.hooked name (he name hname)).trans (h.plain name (he name hname)).symm)
  parent context _ he := h.parent_follows ht context he
  named context owner _ _ htarget hbindings owner' span :=
    h.named_follows ht hexcuse context owner owner' htarget hbindings span
  embedded context _ filename index _ howner hbindings span :=
    h.embedded_follows context howner filename index hbindings span

end Consults

end Engine

end Consults

end Stencil
