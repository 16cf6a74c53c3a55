import Stencil.Override.Extension
import Stencil.Proofs.Comparisons
import Stencil.Proofs.Direct
import Stencil.Proofs.Engines
import Stencil.Proofs.Purity
import Stencil.Proofs.Unbounded

/-!
# Failing calls end a rendering

Functions and providers keep a record of their calls here. A step aborts if a call that fails while
it runs is the last one of the record, and the step ends with the failure of that call. Steps that
call nothing do so, and steps one after the other do so if each of them does; the only step that
forgives failures finds a template, and calls nothing.

Results:
* `Aborts.bind`, `Aborts.mapError`, `Aborts.logged`: steps that abort.
* `Chain.call_aborts`: the hooks of a chain.
* `Host.access_aborts`: printing expressions and finding templates.
* `Engine.render_aborts`: the first failing call of a rendering is its last one, and its failure is
  how the rendering ends, without a bound on the definitions of blocks and with any patience.
-/

namespace Stencil

open Override

/-! ## Calls -/

/-- The hook that asks the providers at a stage. -/
def Override.Stage.hook : Stage → Hook
  | .rename => .template
  | .rebindArguments => .parameters

/-- A call of a function or of a provider, with its fault if it failed. -/
inductive Call where
  | function (name : String) (fault : Option FunctionFault)
  | provider (name : String) (stage : Stage) (message : Option String)
deriving DecidableEq, Repr, Inhabited

/-- The failure of a rendering in which the call failed. -/
def Call.failure? : Call → Option Failure
  | .function name fault => fault.map (.functionFailed name)
  | .provider name stage message =>
    message.map fun message => stage.hook.failure (.provider name stage message)

/-- The calls so far, the first one first. -/
abbrev Calls := List Call

/-- No call failed. -/
def Calls.Calm (calls : Calls) : Prop := ∀ call ∈ calls, call.failure? = none

theorem Calls.calm_append {calls more : Calls} : Calm (calls ++ more) ↔ calls.Calm ∧ more.Calm :=
  List.forall_mem_append

section Logging

variable {m : Type → Type} [Monad m] {ε α : Type}

/-- The fault of an answer. -/
def fault? : Except ε α → Option ε
  | .ok _ => none
  | .error e => some e

/-- A call that is recorded. -/
def logged (call : Option ε → Call) (action : m (Except ε α)) : StateT Calls m (Except ε α) :=
  fun calls => do
    let answer ← action
    pure (answer, calls ++ [call (fault? answer)])

/-- A function whose calls are recorded. -/
def Function.logged (f : Function m) (name : String) : Function (StateT Calls m) := fun values =>
  Stencil.logged (.function name) (f values)

/-- A provider whose calls are recorded. -/
def Override.Provider.logged (p : Provider m) : Provider (StateT Calls m) where
  name := p.name
  problem := p.problem
  rename template inclusion :=
    Stencil.logged (.provider p.name .rename) (p.rename template inclusion)
  rebind template inclusion :=
    Stencil.logged (.provider p.name .rebindArguments) (p.rebind template inclusion)

/-- A chain of such providers. -/
def Override.Chain.logged (c : Chain m) : Chain (StateT Calls m) :=
  ⟨c.providers.map Provider.logged⟩

/-- A loader beside the record. -/
def Loader.beside (loader : Loader m) : Loader (StateT Calls m) where
  source name := StateT.lift (loader.source name)
  has name := StateT.lift (loader.has name)

theorem run_logged {τ : Type} [Runs m τ] (call : Option ε → Call) (action : m (Except ε α))
    (calls : Calls) (s : τ) : run (logged call action) (calls, s) =
      (run action s).map fun p => (p.1, calls ++ [call (fault? p.1)], p.2) := by
  rw [run_stateT]
  simp only [StateT.run, logged, run_bind]
  cases run action s <;> simp

end Logging

/-! ## Steps that abort -/

section Aborts

variable {n : Type → Type} [Monad n] {τ : Type} [Runs n τ] {ε ε' α β : Type}

/-- A step that calls nothing. The first argument is where the record is in a state. -/
def Silent (record : τ → Calls) (x : n α) : Prop :=
  ∀ s a s', run x s = some (a, s') → record s' = record s

/-- All calls went well, or the last one and no other failed, and is to blame for the result. -/
def Aborted (blames : Call → ε → Prop) (calls : Calls) (r : Except ε α) : Prop :=
  calls.Calm ∨ ∃ before last e, calls = before ++ [last] ∧ Calls.Calm before ∧ blames last e ∧
    r = .error e

/-- A step that ends with the first call that fails, and with a failure that this call is to blame
    for. -/
def Aborts (record : τ → Calls) (blames : Call → ε → Prop) (x : ExceptT ε n α) : Prop :=
  ∀ s r s', (record s).Calm → outcome x s = some (r, s') → Aborted blames (record s') r

variable {record : τ → Calls} {blames : Call → ε → Prop}

namespace Silent

theorem pure (a : α) : Silent record (pure a : n α) := by
  intro s b s' h
  rw [run_pure] at h
  cases h
  rfl

theorem bind {x : n α} {f : α → n β} (hx : Silent record x) (hf : ∀ a, Silent record (f a)) :
    Silent record (x >>= f) := by
  intro s b s' h
  rw [run_bind] at h
  obtain ⟨⟨a, s₁⟩, hx₁, h⟩ := Option.bind_eq_some_iff.1 h
  exact (hf a s₁ b s' h).trans (hx s a s₁ hx₁)

theorem map {x : n α} (hx : Silent record x) (f : α → β) : Silent record (f <$> x) := by
  intro s b s' h
  rw [run_map] at h
  obtain ⟨⟨a, s₁⟩, hx₁, h⟩ := Option.map_eq_some_iff.1 h
  cases h
  exact hx s a s₁ hx₁

theorem bindError {x : ExceptT ε n α} {f : α → ExceptT ε n β} (hx : Silent record x.run)
    (hf : ∀ a, Silent record (f a).run) : Silent record (x >>= f).run := by
  refine hx.bind fun r => ?_
  cases r with
  | ok a => exact hf a
  | error e => exact .pure _

theorem lift {x : n α} (h : Silent record x) :
    Silent record (ExceptT.lift x : ExceptT ε n α).run := h.map _

theorem of_effectless {x : n α} (h : Effectless x) : Silent record x := by
  intro s a s' hrun
  obtain ⟨answer, hx⟩ := h
  rw [hx] at hrun
  obtain ⟨b, -, heq⟩ := Option.map_eq_some_iff.1 hrun
  cases heq
  rfl

/-- A step that calls nothing aborts. -/
theorem aborts {x : ExceptT ε n α} (h : Silent record x.run) : Aborts record blames x := by
  intro s r s' hcalm hrun
  refine .inl ?_
  rw [h s r s' hrun]
  exact hcalm

end Silent

namespace Aborts

theorem pure (a : α) : Aborts record blames (pure a : ExceptT ε n α) := (Silent.pure _).aborts

theorem throw (e : ε) : Aborts record blames (throw e : ExceptT ε n α) := (Silent.pure _).aborts

/-- A failing call ends the first step, and with it both steps. -/
theorem bind {x : ExceptT ε n α} {f : α → ExceptT ε n β} (hx : Aborts record blames x)
    (hf : ∀ a, Aborts record blames (f a)) : Aborts record blames (x >>= f) := by
  intro s r s' hcalm hrun
  rw [outcome_bind] at hrun
  obtain ⟨⟨r₁, s₁⟩, hx₁, hrun⟩ := Option.bind_eq_some_iff.1 hrun
  have hended := hx s r₁ s₁ hcalm hx₁
  cases r₁ with
  | ok a =>
    rcases hended with hcalm' | ⟨_, _, _, _, _, _, herror⟩
    · exact hf a s₁ r s' hcalm' hrun
    · cases herror
  | error e =>
    cases hrun
    rcases hended with hcalm' | ⟨before, last, e', hcalls, hbefore, hblames, herror⟩
    · exact .inl hcalm'
    · cases herror
      exact .inr ⟨before, last, e, hcalls, hbefore, hblames, rfl⟩

theorem mapError {blames : Call → ε' → Prop} {make : ε → ε'} {x : n (Except ε α)}
    (h : Aborts record (fun call e => blames call (make e)) (ExceptT.mk x : ExceptT ε n α)) :
    Aborts record blames (ExceptT.mk (Except.mapError make <$> x) : ExceptT ε' n α) := by
  intro s r s' hcalm hrun
  rw [outcome_mk, run_map] at hrun
  obtain ⟨⟨r₁, s₁⟩, hx₁, heq⟩ := Option.map_eq_some_iff.1 hrun
  cases heq
  rcases h s r₁ s₁ hcalm hx₁ with hcalm' | ⟨before, last, e, hcalls, hbefore, hblames, rfl⟩
  · exact .inl hcalm'
  · exact .inr ⟨before, last, make e, hcalls, hbefore, hblames, rfl⟩

end Aborts

/-- Calls are to blame for their failures. -/
def Call.Blames (call : Call) (failure : Failure) : Prop := call.failure? = some failure

/-- Steps that abort, compared with themselves. -/
def Aborts.comparison (record : τ → Calls) : Comparison n n where
  holds x y := x = y ∧ Aborts record Call.Blames x
  pure a := ⟨rfl, .pure a⟩
  throw e := ⟨rfl, .throw e⟩
  bind := by
    rintro α β x _ f g ⟨rfl, hx⟩ hf
    obtain rfl : f = g := funext fun a => (hf a).1
    exact ⟨rfl, hx.bind fun a => (hf a).2⟩

end Aborts

section Calls

variable {m : Type → Type} [Monad m] {τ : Type} [Runs m τ] {ε α : Type}

/-- A recorded call aborts if it is to blame for its own fault. -/
theorem Aborts.logged {blames : Call → ε → Prop} {call : Option ε → Call}
    (hnone : (call none).failure? = none) (hsome : ∀ e, blames (call (some e)) e)
    (action : m (Except ε α)) :
    Aborts (Prod.fst : Calls × τ → Calls) blames (ExceptT.mk (Stencil.logged call action)) := by
  rintro ⟨calls, s⟩ r s' hcalm hrun
  rw [outcome_mk, run_logged] at hrun
  obtain ⟨⟨r, s'⟩, -, heq⟩ := Option.map_eq_some_iff.1 hrun
  cases heq
  cases r with
  | ok a =>
    refine .inl (Calls.calm_append.2 ⟨hcalm, fun call hcall => ?_⟩)
    rw [List.mem_singleton.1 hcall]
    exact hnone
  | error e => exact .inr ⟨calls, _, e, rfl, hcalm, hsome e, rfl⟩

/-! ## Hooks -/

namespace Override.Chain

/-- Calls that are to blame for a fault of a hook. -/
def Blames (hook : Hook) (call : Call) (fault : Fault) : Prop := call.Blames (hook.failure fault)

theorem renameAll_aborts (providers : List (Provider m)) (inclusion : Inclusion)
    (template : String) :
    Aborts (Prod.fst : Calls × τ → Calls) (Blames .template)
      (renameAll inclusion (providers.map Provider.logged) template) := by
  induction providers generalizing template with
  | nil => exact .pure _
  | cons p rest ih =>
    refine .bind (.mapError (.logged rfl (fun _ => rfl) _)) fun next => ?_
    exact ih next

theorem rebindAll_aborts (providers : List (Provider m)) (template : String)
    (inclusion : Inclusion) :
    Aborts (Prod.fst : Calls × τ → Calls) (Blames .parameters)
      (rebindAll template (providers.map Provider.logged) inclusion) := by
  induction providers generalizing inclusion with
  | nil => exact .pure _
  | cons p rest ih =>
    refine .bind (.mapError (.logged rfl (fun _ => rfl) _)) fun next => ?_
    exact ih _

theorem renameNames_aborts (c : Chain m) (inclusion : Inclusion) (items : List Value) :
    Aborts (Prod.fst : Calls × τ → Calls) (Blames .template)
      (c.logged.renameNames inclusion items) := by
  induction items with
  | nil =>
    simp only [renameNames]
    exact .pure _
  | cons item rest ih =>
    cases item with
    | string name =>
      simp only [renameNames]
      exact .bind (renameAll_aborts c.providers _ _) fun _ => .bind ih fun _ => .pure _
    | _ =>
      simp only [renameNames]
      exact .throw _

/-- A hook ends with the first provider that fails. -/
theorem call_aborts (c : Chain m) (hook : Hook) (arguments : List Value) :
    Aborts (Prod.fst : Calls × τ → Calls) (Blames hook) (c.logged.call hook arguments) := by
  cases hook with
  | template =>
    simp only [call, callTemplate]
    split
    · exact .throw _
    · exact .bind (renameAll_aborts c.providers _ _) fun _ => .pure _
    · exact .bind (renameNames_aborts c _ _) fun _ => .pure _
    · exact .throw _
  | parameters =>
    simp only [call, callParameters]
    split
    · exact .throw _
    · exact .bind (rebindAll_aborts c.providers _ _) fun _ => .pure _
    · exact .bind (rebindAll_aborts c.providers _ _) fun _ => .pure _
    · exact .throw _
    · exact .throw _

end Override.Chain

end Calls

/-! ## Hosts -/

section Hosts

variable {n : Type → Type} [Monad n] {τ : Type} [Runs n τ] {record : τ → Calls}

/-- A host that calls nothing to give a template, and whose functions end with the first call that
    fails. -/
structure Host.Aborts {T : Type} (record : τ → Calls) (host : Host n T) : Prop where
  has : ∀ name, Silent record (host.has name)
  load : ∀ name, Silent record (host.load name)
  function : ∀ name f, host.function? name = some f → ∀ values,
    Stencil.Aborts record Call.Blames
      (.ofAction (Except.mapError (.functionFailed name) <$> f values) : Rendering n Value)

namespace Host

variable {T : Type} {host : Host n T}

theorem Aborts.compares (h : host.Aborts record) (name : String) :
    FunctionCompares (Aborts.comparison record) host host name := by
  unfold FunctionCompares
  cases hf : host.function? name with
  | none => exact trivial
  | some f => exact fun values => ⟨rfl, h.function name f hf values⟩

theorem evaluate_aborts (h : host.Aborts record) (context : Context) (e : Expr) :
    Stencil.Aborts record Call.Blames (host.evaluate context e) :=
  (evaluate_compares (c := Aborts.comparison record) rfl context e fun name _ => h.compares name).2

theorem firstOf_silent (h : host.Aborts record) (names : List String) :
    Silent record (host.firstOf names) := by
  induction names with
  | nil => exact .pure _
  | cons name rest ih =>
    refine (h.has name).bind fun there => ?_
    cases there with
    | true => exact .pure _
    | false => exact ih

/-- No function and no provider is called while a template is looked for. -/
theorem resolve_silent (h : host.Aborts record) (value : Value) (span : Span) :
    Silent record (host.resolve value span).run := by
  unfold resolve
  cases candidates value with
  | error misfit => exact .pure _
  | ok names =>
    refine Silent.bindError (firstOf_silent h names).lift fun found => ?_
    cases found with
    | none => exact .pure _
    | some name => exact h.load name

/-- The step that forgives a failure calls nothing. -/
theorem optional_silent {α : Type} (forgiven : Bool) {step : Rendering n α}
    (h : Silent record step.run) : Silent record (optional forgiven step).run := by
  refine h.bind fun r => ?_
  cases r with
  | ok a => exact .pure _
  | error failure => cases failure <;> exact .pure _

theorem included?_aborts (h : host.Aborts record) (context : Context) (ignoreMissing : Bool)
    (e : Expr) : Stencil.Aborts record Call.Blames (host.included? context ignoreMissing e) :=
  (evaluate_aborts h context e).bind fun value =>
    (optional_silent ignoreMissing (resolve_silent h value e.span)).aborts

theorem passed_aborts (h : host.Aborts record) (context : Context) (bindings : Option Expr) :
    Stencil.Aborts record Call.Blames (host.passed context bindings) :=
  (passed_compares (c := Aborts.comparison record) rfl context fun _ _ name _ => h.compares name).2

theorem insertion?_aborts {host : Host n} (h : host.Aborts record) (context : Context)
    (owner : Tree) (target : Target) (clauses : Clauses) :
    Stencil.Aborts record Call.Blames (host.insertion? context owner target clauses) := by
  have htarget : Stencil.Aborts record Call.Blames
      (host.target? context owner clauses.ignoreMissing target) := by
    cases target with
    | named expr => exact (included?_aborts h context _ expr).bind fun _ => .pure _
    | embedded filename index =>
      cases htree : owner.embedded[index]? with
      | none =>
        simp only [target?, htree]
        exact .throw _
      | some tree =>
        simp only [target?, htree]
        exact .pure _
  refine htarget.bind fun found => ?_
  cases found with
  | none => exact .pure _
  | some pair => exact (passed_aborts h context clauses.bindings).bind fun _ => .pure _

/-- Printing and finding templates aborts. -/
theorem access_aborts {host : Host n} (h : host.Aborts record) :
    host.access.Compares (Aborts.comparison record) host.access where
  maxDepth := rfl
  print context _ := print_compares rfl context fun name _ => h.compares name
  parent context e := ⟨rfl, (evaluate_aborts h context e).bind fun value =>
    (resolve_silent h value e.span).aborts⟩
  insertion? context owner target clauses :=
    ⟨rfl, insertion?_aborts h context owner target clauses⟩

end Host

end Hosts

/-! ## Engines -/

section Engines

variable {m : Type → Type} [Monad m] {τ : Type} [Runs m τ]

/-- An engine of which all functions are recorded: host functions under their names, and hooks of
    chains of recorded providers. Loading and compiling call nothing. -/
structure Engine.Records (e : Engine (StateT Calls m)) : Prop where
  loader : ∃ loader : Loader m, e.loader = loader.beside
  passes : ∀ p ∈ e.passes, p.Quiet
  function : ∀ name f, Dict.get? e.functions name = some f →
    (∃ g : Function m, f = g.logged name) ∨
      ∃ (c : Chain m) (hook : Hook), name = hook.name ∧ f = c.logged.function hook

/-- The record of a state of an engine. -/
def recordOf (s : Cache × Calls × τ) : Calls := s.2.1

namespace Engine

variable {e : Engine (StateT Calls m)}

theorem silent_lift {α : Type} (x : m α) :
    Silent (Prod.fst : Calls × τ → Calls) (StateT.lift x : StateT Calls m α) := by
  rintro ⟨calls, s⟩ a s' hrun
  rw [run_lift] at hrun
  obtain ⟨p, -, heq⟩ := Option.map_eq_some_iff.1 hrun
  cases heq
  rfl

theorem loadFresh_silent (h : e.Records) (name : String) :
    Silent (Prod.fst : Calls × τ → Calls) (e.loadFresh name).run := by
  obtain ⟨loader, hloader⟩ := h.loader
  unfold loadFresh
  rw [hloader]
  refine Silent.bindError ((silent_lift _).map _) fun source => ?_
  exact .of_effectless (compile_effectless h.passes name source)

theorem load_silent (h : e.Records) (name : String) :
    Silent (recordOf (τ := τ)) (e.load name) := by
  rintro ⟨cache, calls, s⟩ r s' hrun
  cases hkept : Dict.get? cache name with
  | some template =>
    have hkeep : run (e.load name) (cache, calls, s) = _ := run_keep_of_kept hkept (calls, s)
    rw [hkeep] at hrun
    cases hrun
    rfl
  | none =>
    have hkeep : run (e.load name) (cache, calls, s) = _ := run_keep_of_new hkept (calls, s)
    rw [hkeep] at hrun
    obtain ⟨⟨r₁, s₁⟩, hfresh, heq⟩ := Option.map_eq_some_iff.1 hrun
    have hsilent := loadFresh_silent h name (calls, s) r₁ s₁ hfresh
    cases r₁ <;> · cases heq; exact hsilent

theorem has_silent (h : e.Records) (name : String) :
    Silent (recordOf (τ := τ)) (e.has name) := by
  rintro ⟨cache, calls, s⟩ r s' hrun
  cases hkept : Dict.contains cache name with
  | true =>
    have hhas : run (e.has name) (cache, calls, s) = _ := run_available_of_kept hkept (calls, s)
    rw [hhas] at hrun
    cases hrun
    rfl
  | false =>
    have hhas : run (e.has name) (cache, calls, s) = _ := run_available_of_new hkept (calls, s)
    rw [hhas] at hrun
    obtain ⟨⟨r₁, s₁⟩, hrun₁, heq⟩ := Option.map_eq_some_iff.1 hrun
    obtain ⟨loader, hloader⟩ := h.loader
    rw [hloader] at hrun₁
    have hsilent := silent_lift _ (calls, s) r₁ s₁ hrun₁
    cases heq
    exact hsilent

theorem function_aborts (h : e.Records) {name : String} {f : Function (StateT Calls m)}
    (hf : Dict.get? e.functions name = some f) (values : List Value) :
    Aborts (Prod.fst : Calls × τ → Calls) Call.Blames
      (ExceptT.mk (Except.mapError (.functionFailed name) <$> f values) :
        ExceptT Failure (StateT Calls m) Value) := by
  rcases h.function name f hf with ⟨g, rfl⟩ | ⟨c, hook, rfl, rfl⟩
  · exact .mapError (.logged rfl (fun _ => rfl) _)
  · exact .mapError (.mapError (c.call_aborts hook values))

theorem host_aborts (h : e.Records) : e.host.Aborts (recordOf (τ := τ)) where
  has name := has_silent h name
  load name := (load_silent h name).map _
  function name f hf values := by
    simp only [host, hostOf] at hf
    obtain ⟨g, hg, rfl⟩ := Option.map_eq_some_iff.1 hf
    rintro ⟨cache, calls, s⟩ r s' hcalm hrun
    rw [outcome_ofAction, run_map, run_lift] at hrun
    obtain ⟨⟨r₁, cache₁, s₁⟩, hcall, heq⟩ := Option.map_eq_some_iff.1 hrun
    obtain ⟨⟨r₂, s₂⟩, hlifted, heq'⟩ := Option.map_eq_some_iff.1 hcall
    cases heq'
    cases heq
    refine function_aborts h hg values (calls, s) _ s₂ hcalm ?_
    rw [outcome_mk, run_map, hlifted]
    rfl

theorem renderTemplate_aborts (h : e.Records) (template : Template) (context : Context) :
    Aborts (recordOf (τ := τ)) Call.Blames
      (.ofAction (e.renderTemplate template context) :
        Rendering (StateT Cache (StateT Calls m)) String) :=
  ((Host.access_aborts (host_aborts h)).render e.patience template.tree context).2

theorem render_aborts_of_records (h : e.Records) (name : String) (context : Context) :
    Aborts (recordOf (τ := τ)) Call.Blames
      (.ofAction (e.render name context) : Rendering (StateT Cache (StateT Calls m)) String) :=
  (Silent.aborts (load_silent h name)).bind fun template => renderTemplate_aborts h template context

end Engine

/-! ## Environments -/

namespace Engine.Records

/-- An environment of a loader, with no function. -/
theorem ofLoader (loader : Loader m) (patience : Nat) :
    (Environment.ofLoader loader.beside patience).engine.Records where
  loader := ⟨loader, rfl⟩
  passes p hp := by
    obtain rfl : p = textMerge := List.mem_singleton.1 hp
    exact Pass.changing_quiet ..
  function _ _ h := by cases h

variable {env : Environment (StateT Calls m)}

theorem configure (h : env.engine.Records) (settings : Settings) :
    (env.configure settings).engine.Records := ⟨h.loader, h.passes, h.function⟩

theorem patient {e : Engine (StateT Calls m)} (h : e.Records) (patience : Nat) :
    (e.patient patience).Records := ⟨h.loader, h.passes, h.function⟩

theorem addPass (h : env.engine.Records) {p : Pass (StateT Calls m)} (hp : p.Quiet) :
    (env.addPass p).engine.Records where
  loader := h.loader
  passes q hq := by
    rcases (mem_insertPass q p env.engine.passes).1 hq with rfl | hq
    · exact hp
    · exact h.passes q hq
  function := h.function

theorem insertFunction (h : env.engine.Records) {name : String} {f : Function (StateT Calls m)}
    (hf : (∃ g : Function m, f = g.logged name) ∨
      ∃ (c : Chain m) (hook : Hook), name = hook.name ∧ f = c.logged.function hook) :
    (env.addFunction name f).engine.Records where
  loader := h.loader
  passes := h.passes
  function other g hg := by
    by_cases hname : other = name
    · subst hname
      rw [show (env.addFunction other f).engine.functions =
        Dict.insert env.engine.functions other f from rfl, Dict.get?_insert_self] at hg
      cases hg
      exact hf
    · rw [show (env.addFunction name f).engine.functions =
        Dict.insert env.engine.functions name f from rfl, Dict.get?_insert_of_ne _ _ hname] at hg
      exact h.function other g hg

/-- Adding a host function. -/
theorem addFunction (h : env.engine.Records) (name : String) (f : Function m) :
    (env.addFunction name (f.logged name)).engine.Records := h.insertFunction (.inl ⟨f, rfl⟩)

/-- Adding the extension of a chain. -/
theorem install (h : env.engine.Records) (c : Chain m) :
    (env.install (extension c.logged)).engine.Records :=
  addPass ((h.insertFunction (.inr ⟨c, .template, rfl, rfl⟩)).insertFunction
    (.inr ⟨c, .parameters, rfl, rfl⟩)) (Pass.changing_quiet ..)

end Engine.Records

/-! ## The first failure -/

/-- A call that fails is the first one to fail and the last one of all, and its failure is the
    result. -/
def Calls.EndWith {α : Type} (calls : Calls) (r : Except Failure α) : Prop :=
  ∀ before call after failure, calls = before ++ call :: after → call.failure? = some failure →
    Calls.Calm before ∧ after = [] ∧ r = .error failure

theorem Aborted.endWith {α : Type} {calls : Calls} {r : Except Failure α}
    (h : Aborted Call.Blames calls r) : Calls.EndWith calls r := by
  rintro before call after failure rfl hfailed
  rcases h with hcalm | ⟨before', last, failure', hcalls, hcalm, hblames, rfl⟩
  · have hnone := (Calls.calm_append.1 hcalm).2 call List.mem_cons_self
    rw [hfailed] at hnone
    cases hnone
  · rcases List.eq_nil_or_concat after with rfl | ⟨rest, other, rfl⟩
    · obtain ⟨rfl, hlast⟩ := List.append_inj' hcalls rfl
      cases hlast
      have hsame : some failure' = some failure := hblames.symm.trans hfailed
      cases hsame
      exact ⟨hcalm, rfl, rfl⟩
    · -- A call before the last one went well.
      have hsplit : (before ++ call :: rest) ++ [other] = before' ++ [last] := by
        rw [← hcalls, List.append_assoc, List.cons_append, List.concat_eq_append]
      obtain ⟨rfl, -⟩ := List.append_inj' hsplit rfl
      have hnone := (Calls.calm_append.1 hcalm).2 call List.mem_cons_self
      rw [hfailed] at hnone
      cases hnone

/-- No failure of a call is that of the bound. -/
theorem Call.failure?_ne_endlessBlock {call : Call} {failure : Failure}
    (h : call.failure? = some failure) (name : String) : failure ≠ .endlessBlock name := by
  rintro rfl
  cases call with
  | function => simp [failure?] at h
  | provider _ stage => cases stage <;> simp [failure?, Stage.hook, Hook.failure] at h

/-- No call is to blame where the patience was at an end. So a rendering that a call ends is one
    without a bound, if those are all renderings that end otherwise. -/
theorem Aborted.unbounded {α : Type} {calls : Calls} {r : Except Failure α} {Unbounded : Prop}
    (h : Aborted Call.Blames calls r)
    (hends : (∃ name, r = .error (.endlessBlock name)) ∨ Unbounded) :
    Calls.EndWith calls r ∧ (calls.Calm ∨ Unbounded) := by
  refine ⟨h.endWith, hends.imp_left ?_⟩
  rintro ⟨name, rfl⟩
  rcases h with hcalm | ⟨_, call, failure, -, -, hblames, herror⟩
  · exact hcalm
  · cases herror
    exact absurd rfl (Call.failure?_ne_endlessBlock hblames name)

namespace Engine

/-- A failing call ends a rendering. Whatever was kept before, in every rendering of a template by its
    name and of every compiled template: if a function fails, or a provider that a hook asks, all
    calls before went well, there is no call after it, and the rendering ends with the failure of
    that call. So it is in the rendering without a bound on the definitions that lead from one to the
    next, and in the rendering with any patience; and where a call fails in the latter, the former
    ends in the same way after the same calls. -/
theorem render_aborts {e : Engine (StateT Calls m)} (h : e.Records) (context : Context)
    (cache : Cache) (s : τ) :
    ((∀ name r cache' calls s',
        e.Yields name context (cache, [], s) r (cache', calls, s') → Calls.EndWith calls r) ∧
      ∀ template r cache' calls s',
        e.TemplateYields template context (cache, [], s) r (cache', calls, s') →
          Calls.EndWith calls r) ∧
    (∀ name r cache' calls s',
      run (e.render name context) (cache, [], s) = some (r, cache', calls, s') →
        Calls.EndWith calls r ∧
          (Calls.Calm calls ∨ e.Yields name context (cache, [], s) r (cache', calls, s'))) ∧
    ∀ template r cache' calls s',
      run (e.renderTemplate template context) (cache, [], s) = some (r, cache', calls, s') →
        Calls.EndWith calls r ∧
          (Calls.Calm calls ∨
            e.TemplateYields template context (cache, [], s) r (cache', calls, s')) := by
  have hcalm : Calls.Calm (recordOf (cache, [], s)) := nofun
  refine ⟨⟨fun name r cache' calls s' hyields => ?_, fun template r cache' calls s' hyields => ?_⟩,
    fun name r cache' calls s' hrun => ?_, fun template r cache' calls s' hrun => ?_⟩
  · obtain ⟨least, hleast⟩ := hyields.exists_patience
    have hrun := hleast least (Nat.le_refl least)
    exact (render_aborts_of_records (h.patient least) name context _ r _ hcalm hrun).endWith
  · obtain ⟨least, hleast⟩ := hyields.exists_patience
    have hrun := hleast least (Nat.le_refl least)
    exact (renderTemplate_aborts (h.patient least) template context _ r _ hcalm hrun).endWith
  · have haborted := render_aborts_of_records h name context _ r _ hcalm hrun
    exact haborted.unbounded (yields_of_render hrun)
  · have haborted := renderTemplate_aborts h template context _ r _ hcalm hrun
    exact haborted.unbounded (yields_of_renderTemplate hrun)

end Engine

end Engines

namespace Engine

/-- A function of one value that gives it back. -/
def same : Function Id := fun values => .ok (values.head?.getD .null)

/-- A provider that fails to rename one template. -/
def broken : Provider Id :=
  { Provider.transparent "broken" with
    rename := fun template _ => if template = "deep" then .error "no" else .ok template }

/-- Templates that ask for the template in an array of names, in the block of an embed, in a template
    that is included. All of them may be missing. -/
def nested : Dict String :=
  [("base", tag "block b" ++ tag "endblock"),
    ("outer", tag "embed 'base' ignore missing" ++ tag "block b" ++
      tag "include ['none', 'deep'] ignore missing with \x7b'x': [same('b')]\x7d" ++
      "\x7b\x7bsame('c')\x7d\x7d" ++ tag "endblock" ++ tag "endembed"),
    ("page", "\x7b\x7bsame('a')\x7d\x7d" ++ tag "include 'outer' ignore missing" ++
      "\x7b\x7bsame('d')\x7d\x7d")]

/-- An environment of these templates, with the function and the provider. -/
def nestedEnvironment : Environment (StateT Calls Id) :=
  ((Environment.ofLoader (Loader.memory nested : Loader Id).beside).addFunction "same"
    (same.logged "same")).install (extension (Chain.mk [.transparent "first", broken]).logged)

/-- A function that fails when it is called again. -/
def weary : Function (StateM Nat) := fun _ called =>
  (if called = 0 then .ok .null else .error (.refused "tired"), called + 1)

/-- A template that overrides a block by one that contains a block of the same name. -/
def selfNesting : Dict String :=
  [("base", tag "block b" ++ tag "endblock"),
    ("page", tag "extends 'base'" ++ tag "block b" ++ "\x7b\x7bweary()\x7d\x7d" ++ tag "block b" ++
      tag "endblock" ++ tag "endblock")]

/-- An environment of these templates, with the function and the patience to call it again. -/
def wearyEnvironment : Environment (StateT Calls (StateM Nat)) :=
  (Environment.ofLoader (Loader.memory selfNesting : Loader (StateM Nat)).beside 1).addFunction
    "weary" (weary.logged "weary")

/-- A provider that fails ends a rendering deep in includes and embeds, and a function that fails
    ends one that a block would lead around a circle. -/
theorem render_aborts_broken :
    (∃ r cache calls,
      run (nestedEnvironment.engine.render "page" []) ([], [], ()) = some (r, cache, calls, ()) ∧
      Calls.EndWith calls r ∧ calls.getLast? = some (.provider "broken" .rename (some "no"))) ∧
    ∃ cache calls, wearyEnvironment.engine.Yields "page" [] ([], [], 0, ())
      (.error (.functionFailed "weary" (.refused "tired"))) (cache, calls, 2, ()) := by
  constructor
  · have hrecords : nestedEnvironment.engine.Records :=
      ((Records.ofLoader _ 0).addFunction "same" same).install _
    have hrun : run (nestedEnvironment.engine.render "page" []) ([], [], ()) = some (_, _, _, ()) :=
      rfl
    have hended := ((render_aborts hrecords [] [] ()).2.1 "page" _ _ _ _ hrun).1
    exact ⟨_, _, _, hrun, hended, by decide +kernel⟩
  · have hrecords : wearyEnvironment.engine.Records :=
      (Records.ofLoader _ 1).addFunction "weary" weary
    -- The answer is given a name, so that the kernel only looks at its parts.
    obtain ⟨answer, hanswer⟩ : ∃ answer,
      ((wearyEnvironment.engine.render "page" []).run [] []).run 0 = answer := ⟨_, rfl⟩
    have hrun : run (wearyEnvironment.engine.render "page" []) ([], [], 0, ()) =
        some (answer.1.1.1, answer.1.1.2, answer.1.2, answer.2, ()) := by rw [← hanswer]; rfl
    have hresult : answer.1.1.1 = .error (.functionFailed "weary" (.refused "tired")) := by
      rw [← hanswer]
      decide +kernel
    have hcalls : answer.1.2 =
        [.function "weary" none, .function "weary" (some (.refused "tired"))] := by
      rw [← hanswer]
      decide +kernel
    have hcount : answer.2 = 2 := by
      rw [← hanswer]
      decide +kernel
    rw [hresult, hcalls, hcount] at hrun
    obtain hcalm | hyields := ((render_aborts hrecords [] [] (0, ())).2.1 "page" _ _ _ _ hrun).2
    · have hfailed := hcalm (.function "weary" (some (.refused "tired"))) (by simp)
      cases hfailed
    · exact ⟨_, _, hyields⟩

end Engine

end Stencil
