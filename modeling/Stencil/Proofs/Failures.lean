import Stencil.Proofs.Engines
import Stencil.Proofs.InPlace

/-!
# Failures that cannot happen

Steps that never end with a failure of some kind, and the kind of failure that only the trees of
embeds can give: that one of them is not there. Rendering in place has no such trees, so it never
fails like that, whatever its host does.

Results:
* `Avoids.pure`, `Avoids.throw`, `Avoids.bind`: such steps can be composed.
* `Host.evaluate_avoids`, `Host.find_avoids`: evaluating and finding templates.
* `Page.renderUnder_avoids`: rendering in place.
-/

namespace Stencil

/-- An embedded tree is not there. -/
def Failure.MissesEmbedded : Failure → Prop
  | .missingEmbedded .. => True
  | _ => False

section Avoids

variable {n : Type → Type} [Monad n] {τ : Type} [Runs n τ] {ε α β : Type}

/-- A step never ends with a failure of some kind. -/
def Avoids (bad : ε → Prop) (x : ExceptT ε n α) : Prop :=
  ∀ ⦃s e s'⦄, outcome x s = some (.error e, s') → ¬ bad e

namespace Avoids

variable {bad : ε → Prop}

theorem pure (a : α) : Avoids bad (pure a : ExceptT ε n α) := by
  intro s e s' h
  rw [outcome_pure] at h
  cases h

theorem throw {e : ε} (he : ¬ bad e) : Avoids bad (throw e : ExceptT ε n α) := by
  intro s e' s' h
  rw [outcome_throw] at h
  cases h
  exact he

theorem lift (x : n α) : Avoids bad (ExceptT.lift x : ExceptT ε n α) := by
  intro s e s' h
  rw [outcome_lift] at h
  obtain ⟨p, -, hp⟩ := Option.map_eq_some_iff.1 h
  cases hp

theorem bind {x : ExceptT ε n α} {f : α → ExceptT ε n β} (hx : Avoids bad x)
    (hf : ∀ a, Avoids bad (f a)) : Avoids bad (x >>= f) := by
  intro s e s' h
  rw [outcome_bind] at h
  obtain ⟨⟨r, s₁⟩, hx₁, h⟩ := Option.bind_eq_some_iff.1 h
  cases r with
  | ok a => exact hf a h
  | error e₁ =>
    cases h
    exact hx hx₁

theorem of {bad : Failure → Prop} {r : Except Failure α} (h : ∀ e, r = .error e → ¬ bad e) :
    Avoids bad (.of r : Rendering n α) := by
  intro s e s' hr
  rw [outcome_of] at hr
  cases hr
  exact h e rfl

/-- Failures of another kind than the one of what is done. -/
theorem mapError {ε' : Type} {make : ε' → ε} (h : ∀ e, ¬ bad (make e)) (x : n (Except ε' α)) :
    Avoids bad (ExceptT.mk (Except.mapError make <$> x) : ExceptT ε n α) := by
  intro s e s' hr
  rw [outcome_mk, run_map] at hr
  obtain ⟨⟨r, s₁⟩, -, hr⟩ := Option.map_eq_some_iff.1 hr
  cases r with
  | ok a => cases hr
  | error e' =>
    cases hr
    exact h e'

theorem map_ok {bad : Failure → Prop} {x : n (Except Failure α)}
    (h : Avoids bad (.ofAction x : Rendering n α)) (f : α → β) :
    Avoids bad (.ofAction (Except.map f <$> x) : Rendering n β) := by
  intro s e s' hr
  rw [outcome_ofAction, run_map] at hr
  obtain ⟨⟨r, s₁⟩, hx, hr⟩ := Option.map_eq_some_iff.1 hr
  cases r with
  | ok a => cases hr
  | error e' =>
    cases hr
    exact h hx

end Avoids

end Avoids

/-! ## Hosts -/

namespace Host

open Failure (MissesEmbedded)

variable {n : Type → Type} [Monad n] {τ : Type} [Runs n τ] {T : Type} {host : Host n T}

theorem printValue_avoids (value : Value) (span : Span) :
    Avoids (τ := τ) MissesEmbedded (.of (printValue value span) : Rendering n String) := by
  refine .of fun e h => ?_
  unfold printValue at h
  cases hprinted : value.printed? with
  | some text => simp [hprinted] at h
  | none =>
    simp only [hprinted] at h
    cases h
    exact not_false

theorem variableValue_avoids (settings : Settings) (context : Context) (name : String)
    (span : Span) : Avoids (τ := τ) MissesEmbedded
      (.of (variableValue settings context name span) : Rendering n Value) := by
  refine .of fun e h => ?_
  unfold variableValue at h
  split at h
  · cases h
  · split at h
    · cases h
    · split at h
      · cases h
        exact not_false
      · cases h

theorem keyValue_avoids (settings : Settings) (object : Value) (key : String) (span : Span) :
    Avoids (τ := τ) MissesEmbedded
      (.of (keyValue settings object key span) : Rendering n Value) := by
  refine .of fun e h => ?_
  unfold keyValue at h
  split at h
  · cases h
  · split at h
    · cases h
      exact not_false
    · cases h

mutual

theorem evaluate_avoids (host : Host n T) (context : Context) : ∀ e : Expr,
    Avoids (τ := τ) MissesEmbedded (host.evaluate context e)
  | .constant .. => by
    simp only [evaluate]
    exact .pure _
  | .name span name => by
    simp only [evaluate]
    exact variableValue_avoids host.settings context name span
  | .mapping _ entries => by
    simp only [evaluate]
    exact (evaluateEntries_avoids host context entries).bind fun _ => .pure _
  | .array _ items => by
    simp only [evaluate]
    exact (evaluateAll_avoids host context items).bind fun _ => .pure _
  | .attribute span object key => by
    simp only [evaluate]
    exact (evaluate_avoids host context object).bind fun value =>
      keyValue_avoids host.settings value key span
  | .concat _ left right => by
    simp only [evaluate]
    refine (evaluate_avoids host context left).bind fun first => ?_
    refine (printValue_avoids first left.span).bind fun _ => ?_
    refine (evaluate_avoids host context right).bind fun second => ?_
    exact (printValue_avoids second right.span).bind fun _ => .pure _
  | .call span name arguments => by
    simp only [evaluate]
    cases host.function? name with
    | none => exact .throw not_false
    | some function =>
      exact (evaluateAll_avoids host context arguments).bind fun values =>
        .mapError (fun _ => not_false) (function values)

theorem evaluateAll_avoids (host : Host n T) (context : Context) : ∀ items : List Expr,
    Avoids (τ := τ) MissesEmbedded (host.evaluateAll context items)
  | [] => by
    simp only [evaluateAll]
    exact .pure _
  | e :: rest => by
    simp only [evaluateAll]
    refine (evaluate_avoids host context e).bind fun value => ?_
    exact (evaluateAll_avoids host context rest).bind fun _ => .pure _

theorem evaluateEntries_avoids (host : Host n T) (context : Context) :
    ∀ entries : List (String × Expr),
    Avoids (τ := τ) MissesEmbedded (host.evaluateEntries context entries)
  | [] => by
    simp only [evaluateEntries]
    exact .pure _
  | (key, e) :: rest => by
    simp only [evaluateEntries]
    refine (evaluate_avoids host context e).bind fun value => ?_
    exact (evaluateEntries_avoids host context rest).bind fun _ => .pure _

end

theorem print_avoids (host : Host n T) (context : Context) (e : Expr) :
    Avoids (τ := τ) MissesEmbedded (host.print context e) :=
  (evaluate_avoids host context e).bind fun value => printValue_avoids value e.span

theorem passed_avoids (host : Host n T) (context : Context) (bindings : Option Expr) :
    Avoids (τ := τ) MissesEmbedded (host.passed context bindings) := by
  cases bindings with
  | none => exact .pure _
  | some e =>
    refine (evaluate_avoids host context e).bind fun value => .of fun failure h => ?_
    unfold variablesOf at h
    split at h <;> cases h
    exact not_false

/-- Finding templates avoids the failure if giving them does. -/
theorem find_avoids
    (hload : ∀ name, Avoids (τ := τ) MissesEmbedded (Rendering.ofAction (host.load name)))
    (names : List String) : Avoids (τ := τ) MissesEmbedded (host.find names) := by
  refine (Avoids.lift _).bind fun found => ?_
  cases found with
  | none => exact .throw not_false
  | some name => exact hload name

theorem resolve_avoids
    (hload : ∀ name, Avoids (τ := τ) MissesEmbedded (Rendering.ofAction (host.load name)))
    (value : Value) (span : Span) :
    Avoids (τ := τ) MissesEmbedded (host.resolve value span) := by
  unfold resolve
  cases candidates value with
  | error misfit => exact .throw not_false
  | ok names => exact find_avoids hload names

theorem optional_avoids {α : Type} {step : Rendering n α}
    (h : Avoids (τ := τ) MissesEmbedded step) (forgiven : Bool) :
    Avoids (τ := τ) MissesEmbedded (optional forgiven step) := by
  intro s e s' hr
  rw [outcome_optional] at hr
  obtain ⟨⟨r, s₁⟩, hstep, hr⟩ := Option.map_eq_some_iff.1 hr
  cases r with
  | ok a => cases hr
  | error failure =>
    have hfailure := h hstep
    cases failure with
    | templateNotFound name =>
      cases forgiven with
      | true => cases hr
      | false =>
        cases hr
        exact hfailure
    | _ =>
      cases hr
      exact hfailure

end Host

/-! ## Rendering in place -/

namespace Page

open Failure (MissesEmbedded)

variable {n : Type → Type} [Monad n] {τ : Type} [Runs n τ] {host : Host n Page}
  {render : Page → Context → Rendering n String}

theorem renderPassing_avoids
    (hrender : ∀ page context, Avoids (τ := τ) MissesEmbedded (render page context))
    (context : Context) (clauses : Clauses) (page : Page) :
    Avoids (τ := τ) MissesEmbedded (renderPassing host render context clauses page) :=
  (Host.passed_avoids host context clauses.bindings).bind fun _ => hrender page _

theorem insert_avoids
    (hload : ∀ name, Avoids (τ := τ) MissesEmbedded (Rendering.ofAction (host.load name)))
    (hrender : ∀ page context, Avoids (τ := τ) MissesEmbedded (render page context))
    (context : Context) (target : Expr) (clauses : Clauses) :
    Avoids (τ := τ) MissesEmbedded (insert host render context target clauses) := by
  have hincluded : Avoids (τ := τ) MissesEmbedded
      (host.included? context clauses.ignoreMissing target) :=
    (Host.evaluate_avoids host context target).bind fun value =>
      Host.optional_avoids (Host.resolve_avoids hload value target.span) clauses.ignoreMissing
  refine hincluded.bind fun found => ?_
  cases found with
  | none => exact .pure ""
  | some page => exact renderPassing_avoids hrender context clauses page

mutual

theorem onItem_avoids {r : ItemRendering n}
    (hprint : ∀ e, Avoids (τ := τ) MissesEmbedded (r.print e))
    (hinsert : ∀ target clauses, Avoids (τ := τ) MissesEmbedded (r.insert target clauses))
    (hembed : ∀ parent clauses body, Avoids (τ := τ) MissesEmbedded (r.embed parent clauses body))
    (hreplace : ∀ name replacement, r.replace? name = some replacement →
      Avoids (τ := τ) MissesEmbedded (replacement ())) : ∀ item : Item,
    Avoids (τ := τ) MissesEmbedded (r.onItem item)
  | .text .. => by
    simp only [ItemRendering.onItem]
    exact .pure _
  | .print _ e => by
    simp only [ItemRendering.onItem]
    exact hprint e
  | .block _ name body => by
    simp only [ItemRendering.onItem]
    cases hname : r.replace? name with
    | none => exact onItems_avoids hprint hinsert hembed hreplace body
    | some replacement => exact hreplace name replacement hname
  | .«include» _ target clauses => by
    simp only [ItemRendering.onItem]
    exact hinsert target clauses
  | .embed _ parent clauses body => by
    simp only [ItemRendering.onItem]
    exact hembed parent clauses body
  | .«extends» .. => by
    simp only [ItemRendering.onItem]
    exact .pure _

theorem onItems_avoids {r : ItemRendering n}
    (hprint : ∀ e, Avoids (τ := τ) MissesEmbedded (r.print e))
    (hinsert : ∀ target clauses, Avoids (τ := τ) MissesEmbedded (r.insert target clauses))
    (hembed : ∀ parent clauses body, Avoids (τ := τ) MissesEmbedded (r.embed parent clauses body))
    (hreplace : ∀ name replacement, r.replace? name = some replacement →
      Avoids (τ := τ) MissesEmbedded (replacement ())) : ∀ items : List Item,
    Avoids (τ := τ) MissesEmbedded (r.onItems items)
  | [] => by
    simp only [ItemRendering.onItems]
    exact .pure _
  | item :: rest => by
    simp only [ItemRendering.onItems]
    refine (onItem_avoids hprint hinsert hembed hreplace item).bind fun _ => ?_
    exact (onItems_avoids hprint hinsert hembed hreplace rest).bind fun _ => .pure _

end

theorem renderItems_avoids
    (hload : ∀ name, Avoids (τ := τ) MissesEmbedded (Rendering.ofAction (host.load name)))
    (hrender : ∀ page context, Avoids (τ := τ) MissesEmbedded (render page context))
    (context : Context) (defined : Dict Passage) (bound : Nat) (template : String)
    (body : List Item) : Avoids (τ := τ) MissesEmbedded
      (renderItems host render context defined bound template body) := by
  induction bound generalizing template body with
  | zero =>
    refine onItems_avoids (Host.print_avoids host context) (insert_avoids hload hrender context)
      (fun _ _ _ => renderPassing_avoids hrender context _ _) (fun name replacement h => ?_) body
    obtain ⟨p, -, rfl⟩ := Option.map_eq_some_iff.1 h
    exact .throw not_false
  | succ bound ih =>
    refine onItems_avoids (Host.print_avoids host context) (insert_avoids hload hrender context)
      (fun _ _ _ => renderPassing_avoids hrender context _ _) (fun name replacement h => ?_) body
    obtain ⟨p, -, rfl⟩ := Option.map_eq_some_iff.1 h
    exact ih p.template p.body

/-- Rendering in place never misses an embedded tree, if giving templates does not. -/
theorem renderUnder_avoids
    (hload : ∀ name, Avoids (τ := τ) MissesEmbedded (Rendering.ofAction (host.load name)))
    (patience depth : Nat) (defined : Dict Passage) (page : Page) (context : Context) :
    Avoids (τ := τ) MissesEmbedded (renderUnder host patience depth defined page context) := by
  induction depth generalizing defined page context with
  | zero => exact .throw not_false
  | succ depth ih =>
    cases hparent : page.parent with
    | none =>
      rw [renderUnder_root _ _ _ _ hparent]
      exact renderItems_avoids hload (ih []) context defined _ _ _
    | some parent =>
      rw [renderUnder_child _ _ _ _ hparent]
      have hfound : Avoids (τ := τ) MissesEmbedded (host.parent context parent) :=
        (Host.evaluate_avoids host context parent).bind fun value =>
          Host.resolve_avoids hload value parent.span
      exact hfound.bind fun found => ih _ found context

end Page

/-! ## Giving templates -/

section Keep

variable {m : Type → Type} [Monad m] {τ : Type} [Runs m τ] {α : Type} {bad : Failure → Prop}

theorem Avoids.keep {make : String → ExceptT Failure m α} {name : String}
    (h : Avoids (τ := τ) bad (make name)) :
    Avoids bad (.ofAction (Stencil.keep make name) : Rendering (StateT (Dict α) m) α) := by
  rintro ⟨kept, s⟩ e ⟨kept', s'⟩ hr
  rw [outcome_ofAction] at hr
  cases hkept : Dict.get? kept name with
  | some a =>
    rw [run_keep_of_kept hkept] at hr
    cases hr
  | none =>
    rw [run_keep_of_new hkept] at hr
    obtain ⟨⟨r, s₁⟩, hmake, hr⟩ := Option.map_eq_some_iff.1 hr
    cases r with
    | ok a => cases hr
    | error failure =>
      cases hr
      exact h hmake

open Failure (MissesEmbedded)

/-- Compiling a source never misses an embedded tree. -/
theorem Engine.compile_avoids (e : Engine m) (name source : String) :
    Avoids (τ := τ) MissesEmbedded (e.compile name source) := by
  unfold compile
  cases Tree.parse name source.toList with
  | error faults => exact .throw not_false
  | ok tree => exact (Avoids.mapError (fun _ => not_false) _).bind fun _ => .pure _

theorem Engine.failureOfLoad_avoids (name : String) (fault : LoadFault) :
    ¬ (failureOfLoad name fault).MissesEmbedded := by
  cases fault <;> exact not_false

end Keep

end Stencil
