import Stencil.Proofs.Engines
import Stencil.Proofs.Purity
import Stencil.Proofs.Renderings

/-!
# Up-to-date caches

What an engine keeps is up to date if it is what the engine would make now. Over a store that never
changes nobody can tell then what is kept: every step of the engine ends the same way from any two
caches that are up to date, and leaves a cache that is.

Results:
* `Engine.run_load_of_current`, `Engine.run_has_of_current`: templates.
* `Engine.render_alike`, `Engine.renderTemplate_alike`: texts.
* `Engine.Blind.of_follows`: steps that cannot see what is kept.
-/

namespace Stencil

section Current

variable {m : Type → Type} [Monad m] {τ : Type} [Runs m τ]

/-- A store in which every template is there that has a source. -/
def Loader.Finds (store : Loader Id) : Prop :=
  ∀ name source, store.source name = .ok source → store.has name = true

/-- An engine on a store, with passes without effects. -/
structure Engine.RunsOn (e : Engine m) (store : Loader Id) : Prop where
  loader : e.loader = store.lift
  finds : store.Finds
  passes : ∀ p ∈ e.passes, p.Quiet

/-- All that is kept is what loading would give. -/
def Engine.Current (e : Engine m) (cache : Cache) : Prop :=
  ∀ name template, Dict.get? cache name = some template →
    ∀ s : τ, outcome (e.loadFresh name) s = some (.ok template, s)

/-- The same state, with things kept that are up to date. -/
def Engine.Alike (e : Engine m) (s t : Cache × τ) : Prop :=
  e.Current s.1 ∧ e.Current t.1 ∧ s.2 = t.2

namespace Engine

variable {e : Engine m} {store : Loader Id}

theorem current_nil : e.Current [] := fun _ _ h => by cases h

theorem Current.insert {cache : Cache} (h : e.Current cache) {name : String} {template : Template}
    (hnew : ∀ s : τ, outcome (e.loadFresh name) s = some (.ok template, s)) :
    e.Current (Dict.insert cache name template) := by
  intro other kept hkept
  by_cases hname : other = name
  · subst hname
    rw [Dict.get?_insert_self] at hkept
    cases hkept
    exact hnew
  · rw [Dict.get?_insert_of_ne cache template hname] at hkept
    exact h other kept hkept

/-- Loading answers what it would without anything kept, and keeps what is up to date. -/
theorem run_load_of_current (he : e.RunsOn store) {cache : Cache} (h : e.Current cache)
    (name : String) : ∃ (answer : Option (Except Failure Template)) (cache' : Cache),
      e.Current cache' ∧ (∀ s : τ, outcome (e.loadFresh name) s = answer.map fun r => (r, s)) ∧
      ∀ s : τ, run (e.load name) (cache, s) = answer.map fun r => (r, cache', s) := by
  cases hget : Dict.get? cache name with
  | some template =>
    refine ⟨some (.ok template), cache, h, h name template hget, fun s => ?_⟩
    exact run_keep_of_kept hget s
  | none =>
    obtain ⟨answer, hfresh⟩ := loadFresh_effectless he.loader he.passes name
    have hfresh : ∀ s : τ, outcome (e.loadFresh name) s = answer.map fun r => (r, s) := hfresh
    have hrun : ∀ s : τ, run (e.load name) (cache, s) = _ := run_keep_of_new hget
    simp only [hfresh] at hrun
    cases answer with
    | none => exact ⟨none, cache, h, hfresh, hrun⟩
    | some r =>
      cases r with
      | ok template => exact ⟨_, _, h.insert hfresh, hfresh, hrun⟩
      | error failure => exact ⟨_, cache, h, hfresh, hrun⟩

/-- Whatever is kept has a source. -/
theorem Current.has (he : e.RunsOn store) {cache : Cache} (h : e.Current (τ := τ) cache) (s : τ)
    {name : String} (hname : Dict.contains cache name = true) : store.has name = true := by
  obtain ⟨template, htemplate⟩ := Option.isSome_iff_exists.1 hname
  have hload := h name template htemplate s
  cases hsource : store.source name with
  | ok source => exact he.finds name source hsource
  | error fault =>
    rw [loadFresh_of_fault he.loader hsource] at hload
    cases hload

/-- A template is there if it is in the store, whether it is kept or not. -/
theorem run_has_of_current (he : e.RunsOn store) {cache : Cache} (h : e.Current (τ := τ) cache)
    (name : String) (s : τ) : run (e.has name) (cache, s) = some (store.has name, cache, s) := by
  cases hname : Dict.contains cache name with
  | true =>
    rw [h.has he s hname]
    exact run_available_of_kept hname s
  | false =>
    have hrun : run (e.has name) (cache, s) = _ := run_available_of_new hname s
    rw [hrun, he.loader, Loader.lift, run_pure]
    rfl

/-! ## Renderings -/

theorem Alike.symm {s t : Cache × τ} (h : e.Alike s t) : e.Alike t s :=
  ⟨h.2.1, h.1, h.2.2.symm⟩

theorem load_alike (he : e.RunsOn store) (name : String) :
    Follows (fun _ => False) (e.Alike (τ := τ)) Eq
      (.ofAction (e.load name) : Rendering (StateT Cache m) Template)
      (.ofAction (e.load name) : Rendering (StateT Cache m) Template) := by
  rintro ⟨cache₁, s⟩ ⟨cache₂, _⟩ ⟨h₁, h₂, rfl⟩ r s' hx
  obtain ⟨answer₁, cache₁', hcurrent₁, hfresh₁, hrun₁⟩ := run_load_of_current he h₁ name
  obtain ⟨answer₂, cache₂', hcurrent₂, hfresh₂, hrun₂⟩ := run_load_of_current he h₂ name
  have hanswers : answer₁.map (fun r => (r, s)) = answer₂.map fun r => (r, s) :=
    (hfresh₁ s).symm.trans (hfresh₂ s)
  rw [outcome_ofAction] at hx ⊢
  rw [hrun₁] at hx
  obtain ⟨r₁, rfl, hpair⟩ := Option.map_eq_some_iff.1 hx
  cases hpair
  rw [Option.map_some] at hanswers
  obtain ⟨r₂, rfl, hpair⟩ := Option.map_eq_some_iff.1 hanswers.symm
  cases hpair
  exact .inr ⟨r, _, hrun₂ s, ⟨hcurrent₁, hcurrent₂, rfl⟩, .refl r⟩

theorem has_alike (he : e.RunsOn store) (name : String) :
    Follows (fun _ => False) (e.Alike (τ := τ)) Eq
      (ExceptT.lift (e.has name) : Rendering (StateT Cache m) Bool)
      (ExceptT.lift (e.has name) : Rendering (StateT Cache m) Bool) := by
  refine .of_outcome ?_
  rintro ⟨cache₁, s⟩ ⟨cache₂, _⟩ ⟨h₁, h₂, rfl⟩
  refine ⟨.ok (store.has name), _, (cache₁, s), (cache₂, s), ?_, ?_, ⟨h₁, h₂, rfl⟩, .refl _⟩
  · rw [outcome_lift, run_has_of_current he h₁]
    rfl
  · rw [outcome_lift, run_has_of_current he h₂]
    rfl

/-- A function does the same whatever is kept. -/
theorem function_alike (name : String) :
    FunctionFollows (fun _ => False) (e.Alike (τ := τ)) e.host e.host name :=
  hostOf_function_follows_of (fun hS => hS.2.2) (fun hS _ => ⟨hS.1, hS.2.1, rfl⟩) rfl

theorem host_alike (he : e.RunsOn store) :
    e.host.access.FollowedBy (fun _ => False) (e.Alike (τ := τ)) e.host.access := by
  refine Host.access_followedBy rfl function_alike ⟨has_alike he, fun name => ?_⟩ fun _ h => h
  refine (load_alike he name).map_ok ?_
  rintro template _ rfl
  rfl

theorem renderTemplate_alike (he : e.RunsOn store) (template : Template) (context : Context) :
    Follows (fun _ => False) (e.Alike (τ := τ)) Eq
      (.ofAction (e.renderTemplate template context) : Rendering (StateT Cache m) String)
      (.ofAction (e.renderTemplate template context) : Rendering (StateT Cache m) String) :=
  (host_alike he).render e.patience template.tree context

theorem render_alike (he : e.RunsOn store) (name : String) (context : Context) :
    Follows (fun _ => False) (e.Alike (τ := τ)) Eq
      (.ofAction (e.render name context) : Rendering (StateT Cache m) String)
      (.ofAction (e.render name context) : Rendering (StateT Cache m) String) := by
  refine (load_alike he name).bind ?_
  rintro template _ rfl
  exact renderTemplate_alike he template context

/-- A step that cannot see what is kept, as long as that is up to date, and keeps it so. -/
def Blind {α : Type} (e : Engine m) (x : StateT Cache m α) : Prop :=
  ∀ s : τ, ∃ answer : Option (α × τ), ∀ cache, e.Current (τ := τ) cache →
    ∃ cache', e.Current (τ := τ) cache' ∧
      run x (cache, s) = answer.map fun p => (p.1, cache', p.2)

namespace Blind

variable {α β : Type}

theorem map {x : StateT Cache m α} (h : e.Blind x) (f : α → β) : e.Blind (f <$> x) := by
  intro s
  obtain ⟨answer, hx⟩ := h s
  refine ⟨answer.map fun p => (f p.1, p.2), fun cache hcache => ?_⟩
  obtain ⟨cache', hcache', hrun⟩ := hx cache hcache
  refine ⟨cache', hcache', ?_⟩
  rw [run_map, hrun, Option.map_map, Option.map_map]
  rfl

theorem lift (x : m α) : e.Blind (StateT.lift x) :=
  fun s => ⟨run x s, fun cache hcache => ⟨cache, hcache, run_lift x cache s⟩⟩

/-- A step that follows itself, whatever is kept. -/
theorem of_follows {x : StateT Cache m (Except Failure α)}
    (h : Follows (fun _ => False) (e.Alike (τ := τ)) Eq
      (Rendering.ofAction x : Rendering (StateT Cache m) α) (Rendering.ofAction x)) :
    e.Blind x := by
  intro s
  refine ⟨(run x ([], s)).map fun p => (p.1, p.2.2), fun cache hcache => ?_⟩
  have halike : e.Alike (cache, s) ([], s) := ⟨hcache, current_nil, rfl⟩
  cases hrun : run x (cache, s) with
  | some p =>
    obtain ⟨r, cache', s'⟩ := p
    obtain ⟨⟨kept, _⟩, hnil, hcache', -, hstate⟩ := h.eq halike hrun
    cases hstate
    rw [outcome_ofAction] at hnil
    exact ⟨cache', hcache', by rw [hnil]; rfl⟩
  | none =>
    refine ⟨cache, hcache, ?_⟩
    cases hnil : run x ([], s) with
    | none => rfl
    | some p =>
      obtain ⟨t', hcontra, -⟩ := h.eq halike.symm hnil
      rw [outcome_ofAction, hrun] at hcontra
      cases hcontra

end Blind

end Engine

end Current

end Stencil
