import Stencil.Proofs.Compiled
import Stencil.Proofs.Dictionaries
import Stencil.Proofs.Hosts

/-!
# Engines that follow each other

An engine keeps what it compiles. Two engines whose compilations follow each other keep templates
that belong together, and so their hosts follow each other as well.

Results:
* `keep_follows`, `available_follows`: keeping things.
* `Engine.hostOf_function_follows`, `Engine.hostOf_templates_follow`: hosts that keep things.
-/

namespace Stencil

/-! ## Keeping -/

section Run

variable {m : Type → Type} [Monad m] {τ : Type} [Runs m τ] {α : Type}
  {make : String → ExceptT Failure m α} {there : String → m Bool} {name : String} {kept : Dict α}

theorem run_keep_of_kept {a : α} (h : Dict.get? kept name = some a) (s : τ) :
    run (keep make name) (kept, s) = some (.ok a, kept, s) := by
  rw [run_stateT]
  simp only [StateT.run, keep, h, run_pure, Option.map_some]

theorem run_keep_of_new (h : Dict.get? kept name = none) (s : τ) :
    run (keep make name) (kept, s) = (outcome (make name) s).map fun
      | (.ok a, s') => (.ok a, Dict.insert kept name a, s')
      | (.error failure, s') => (.error failure, kept, s') := by
  rw [run_stateT]
  simp only [StateT.run, keep, h, run_bind]
  change Option.map _ ((outcome (make name) s).bind _) = _
  cases outcome (make name) s with
  | none => rfl
  | some p =>
    obtain ⟨r, s'⟩ := p
    cases r <;> simp only [Option.bind_some, run_pure, Option.map_some]

theorem run_available_of_kept (h : Dict.contains kept name = true) (s : τ) :
    run (available there name) (kept, s) = some (true, kept, s) := by
  rw [run_stateT]
  simp only [StateT.run, available, h, if_true, run_pure, Option.map_some]

theorem run_available_of_new (h : Dict.contains kept name = false) (s : τ) :
    run (available there name) (kept, s) =
      (run (there name) s).map fun p => (p.1, kept, p.2) := by
  rw [run_stateT]
  simp only [StateT.run, available, h, Bool.false_eq_true, if_false, run_bind]
  cases run (there name) s <;> simp

end Run

section Follows

variable {m₁ m₂ : Type → Type} [Monad m₁] [Monad m₂] {τ₁ τ₂ : Type} [Runs m₁ τ₁] [Runs m₂ τ₂]
  {α β : Type} {excuse : Failure → Prop} {F : Failure → Failure → Prop} {S : τ₁ → τ₂ → Prop}
  {R : α → β → Prop}

/-- States that belong together, with things kept that belong together. -/
def Keeping (R : α → β → Prop) (S : τ₁ → τ₂ → Prop) (s : Dict α × τ₁) (t : Dict β × τ₂) : Prop :=
  Dict.Related R s.1 t.1 ∧ S s.2 t.2

/-- What is kept belongs together if what is made does. -/
theorem keep_tracks {make₁ : String → ExceptT Failure m₁ α} {make₂ : String → ExceptT Failure m₂ β}
    (h : ∀ name, Tracks excuse F S R (make₁ name) (make₂ name)) (name : String) :
    Tracks excuse F (Keeping R S) R
      (.ofAction (keep make₁ name) : Rendering (StateT (Dict α) m₁) α)
      (.ofAction (keep make₂ name) : Rendering (StateT (Dict β) m₂) β) := by
  rintro ⟨kept, s⟩ ⟨kept', t⟩ ⟨hkept, hS⟩ r s' hx
  rw [outcome_ofAction] at hx ⊢
  cases ha : Dict.get? kept name with
  | some a =>
    obtain ⟨b, hb, hab⟩ := hkept.get?_some ha
    rw [run_keep_of_kept ha] at hx
    cases hx
    exact .inr ⟨.ok b, (kept', t), run_keep_of_kept hb t, ⟨hkept, hS⟩, .ok hab⟩
  | none =>
    rw [run_keep_of_new ha] at hx
    rw [run_keep_of_new (hkept.get?_none ha)]
    obtain ⟨⟨r₁, s₁⟩, hx₁, hx₂⟩ := Option.map_eq_some_iff.1 hx
    obtain ⟨e, rfl, he⟩ | ⟨r₂, t₁, hy, hS', hr⟩ := h name hS hx₁
    · cases hx₂
      exact .inl ⟨e, rfl, he⟩
    · rw [hy]
      cases hr with
      | ok hab =>
        cases hx₂
        exact .inr ⟨_, _, rfl, ⟨hkept.insert name hab, hS'⟩, .ok hab⟩
      | error he =>
        cases hx₂
        exact .inr ⟨_, _, rfl, ⟨hkept, hS'⟩, .error he⟩

theorem keep_follows {make₁ : String → ExceptT Failure m₁ α}
    {make₂ : String → ExceptT Failure m₂ β}
    (h : ∀ name, Follows excuse S R (make₁ name) (make₂ name)) (name : String) :
    Follows excuse (Keeping R S) R (.ofAction (keep make₁ name) : Rendering (StateT (Dict α) m₁) α)
      (.ofAction (keep make₂ name) : Rendering (StateT (Dict β) m₂) β) :=
  follows_iff_tracks.2 (keep_tracks (fun name => follows_iff_tracks.1 (h name)) name)

theorem available_follows {there₁ : String → m₁ Bool} {there₂ : String → m₂ Bool}
    (h : ∀ name, Follows excuse S Eq (ExceptT.lift (there₁ name) : Rendering m₁ Bool)
      (ExceptT.lift (there₂ name) : Rendering m₂ Bool)) (name : String) :
    Follows excuse (Keeping R S) Eq
      (ExceptT.lift (available there₁ name) : Rendering (StateT (Dict α) m₁) Bool)
      (ExceptT.lift (available there₂ name) : Rendering (StateT (Dict β) m₂) Bool) := by
  rintro ⟨kept, s⟩ ⟨kept', t⟩ ⟨hkept, hS⟩ r s' hx
  rw [outcome_lift] at hx ⊢
  cases hcontains : Dict.contains kept name with
  | true =>
    rw [run_available_of_kept hcontains] at hx
    rw [hkept.contains] at hcontains
    rw [run_available_of_kept hcontains]
    cases hx
    exact .inr ⟨_, _, rfl, ⟨hkept, hS⟩, .ok rfl⟩
  | false =>
    rw [run_available_of_new hcontains] at hx
    rw [hkept.contains] at hcontains
    rw [run_available_of_new hcontains]
    cases hrun : run (there₁ name) s with
    | none =>
      rw [hrun] at hx
      cases hx
    | some p =>
      rw [hrun] at hx
      cases hx
      have hlift : outcome (ExceptT.lift (there₁ name) : Rendering m₁ Bool) s =
          some (.ok p.1, p.2) := by
        rw [outcome_lift, hrun]
        rfl
      rcases h name hS hlift with ⟨e, he, -⟩ | ⟨r₂, t₁, hy, hS', hr⟩
      · cases he
      · rw [outcome_lift] at hy
        obtain ⟨q, hq, heq⟩ := Option.map_eq_some_iff.1 hy
        cases heq
        rw [hq]
        exact .inr ⟨_, _, rfl, ⟨hkept, hS'⟩, hr⟩

/-- Steps that touch nothing that is kept. -/
theorem lift_tracks {γ δ : Type} {K : γ → δ → Prop} {x : ExceptT Failure m₁ α}
    {y : ExceptT Failure m₂ β} (h : Tracks excuse F S R x y) :
    Tracks excuse F (Keeping K S) R
      (.ofAction (StateT.lift x.run) : Rendering (StateT (Dict γ) m₁) α)
      (.ofAction (StateT.lift y.run) : Rendering (StateT (Dict δ) m₂) β) := by
  rintro ⟨kept, s⟩ ⟨kept', t⟩ ⟨hkept, hS⟩ r s' hx
  rw [outcome_ofAction, run_lift] at hx ⊢
  obtain ⟨⟨r₁, s₁⟩, hx₁, hx₂⟩ := Option.map_eq_some_iff.1 hx
  cases hx₂
  obtain ⟨e, rfl, he⟩ | ⟨r₂, t₁, hy, hS', hr⟩ := h hS hx₁
  · exact .inl ⟨e, rfl, he⟩
  · have hy' : run y.run t = some (r₂, t₁) := hy
    rw [hy']
    exact .inr ⟨r₂, _, rfl, ⟨hkept, hS'⟩, hr⟩

theorem lift_follows {γ δ : Type} {K : γ → δ → Prop} {x : ExceptT Failure m₁ α}
    {y : ExceptT Failure m₂ β} (h : Follows excuse S R x y) :
    Follows excuse (Keeping K S) R
      (.ofAction (StateT.lift x.run) : Rendering (StateT (Dict γ) m₁) α)
      (.ofAction (StateT.lift y.run) : Rendering (StateT (Dict δ) m₂) β) :=
  follows_iff_tracks.2 (lift_tracks (follows_iff_tracks.1 h))

end Follows

/-! ## Hosts -/

section Hosts

variable {m : Type → Type} [Monad m] {τ : Type} [Runs m τ] {α β T₁ T₂ : Type}
  {excuse : Failure → Prop} {R : α → β → Prop}

namespace Engine

variable {e₁ e₂ : Engine m} {make₁ : String → ExceptT Failure m α}
  {make₂ : String → ExceptT Failure m β} {content₁ : α → T₁} {content₂ : β → T₂}

/-- A function does the same whatever is kept: only the states below have to be equal. -/
theorem hostOf_function_follows_of {S : Dict α × τ → Dict β × τ → Prop}
    (hsame : ∀ {s t}, S s t → s.2 = t.2) (hmoved : ∀ {s t}, S s t → ∀ u, S (s.1, u) (t.1, u))
    {name : String} (h : Dict.get? e₁.functions name = Dict.get? e₂.functions name) :
    FunctionFollows excuse S (e₁.hostOf make₁ content₁) (e₂.hostOf make₂ content₂) name := by
  unfold FunctionFollows FunctionCompares
  simp only [hostOf, ← h]
  cases Dict.get? e₁.functions name with
  | none => exact trivial
  | some f =>
    intro values
    rintro ⟨kept, s⟩ ⟨kept', t⟩ hS r s' hx
    obtain rfl : s = t := hsame hS
    rw [outcome_ofAction, run_map, run_lift] at hx ⊢
    cases hrun : run (f values) s with
    | none =>
      rw [hrun] at hx
      cases hx
    | some p =>
      rw [hrun] at hx
      cases hx
      exact .inr ⟨_, (kept', p.2), rfl, hmoved hS p.2, .refl _⟩

theorem hostOf_function_follows {name : String}
    (h : Dict.get? e₁.functions name = Dict.get? e₂.functions name) :
    FunctionFollows excuse (Keeping R (Eq (α := τ))) (e₁.hostOf make₁ content₁)
      (e₂.hostOf make₂ content₂) name :=
  hostOf_function_follows_of (fun hS => hS.2) (fun hS _ => ⟨hS.1, rfl⟩) h

/-- Hosts that make what belongs together give what belongs together. -/
theorem hostOf_templates_follow (hloader : e₁.loader = e₂.loader)
    (hmake : ∀ name, Follows excuse (Eq (α := τ)) R (make₁ name) (make₂ name))
    {T : T₁ → T₂ → Prop} (hT : ∀ a b, R a b → T (content₁ a) (content₂ b)) :
    TemplatesFollow excuse (Keeping R (Eq (α := τ))) T (e₁.hostOf make₁ content₁)
      (e₂.hostOf make₂ content₂) where
  has name := by
    simp only [hostOf, hloader]
    exact available_follows (fun name => .same _) name
  load name := (keep_follows hmake name).map_ok hT

end Engine

/-- Every step follows itself, also with what is known of its answers. -/
theorem Follows.same_of_ok {ε γ : Type} {excuse : ε → Prop} {P : γ → Prop} {x : ExceptT ε m γ}
    (h : ∀ (s : τ) a s', outcome x s = some (.ok a, s') → P a) :
    Follows excuse (Eq (α := τ)) (fun a b => a = b ∧ P a) x x := by
  rintro s _ rfl r s' hx
  refine .inr ⟨r, s', hx, rfl, ?_⟩
  cases r with
  | ok a => exact .ok ⟨rfl, h s a s' hx⟩
  | error e => exact .error e

end Hosts

/-! ## Stores -/

section Stores

variable {m : Type → Type} [Monad m] {τ : Type} [Runs m τ] {e : Engine m} {store : Loader Id}
  {overridden : Bool}

/-- A template that was compiled from a source of a store. -/
def Stored (store : Loader Id) (overridden : Bool) (template : Template) : Prop :=
  ∃ source tree, store.source template.name = .ok source ∧
    Tree.parse template.name source.toList = .ok tree ∧
    template = ⟨template.name, tree.compiled overridden⟩

/-- Equal states, in which all that is kept was compiled from a store. -/
def Storing (store : Loader Id) (overridden : Bool) : Cache × τ → Cache × τ → Prop :=
  Keeping (fun a b => a = b ∧ Stored store overridden a) Eq

theorem storing_self {cache : Cache} (h : ∀ p ∈ cache, Stored store overridden p.2) (s : τ) :
    Storing store overridden (cache, s) (cache, s) := ⟨.of_all h, rfl⟩

theorem Storing.eq {s t : Cache × τ} (h : Storing store overridden s t) :
    s = t ∧ ∀ p ∈ s.1, Stored store overridden p.2 := by
  obtain ⟨hcache, hrest⟩ := h
  obtain ⟨heq, hstored⟩ := hcache.eq
  exact ⟨Prod.ext heq hrest, hstored⟩

/-- What holds of the trees of all given sources holds of every tree of their loader. -/
theorem Loader.memory_forall {P : Tree → Prop} [DecidablePred P] {templates : Dict String}
    (h : ∀ p ∈ templates, (Tree.parse p.1 p.2.toList).toOption.all (decide <| P ·))
    {name source : String} {tree : Tree}
    (hsource : (Loader.memory templates : Loader Id).source name = .ok source)
    (hparse : Tree.parse name source.toList = .ok tree) : P tree := by
  have hget : Dict.get? templates name = some source := by
    simp only [memory, lookUp] at hsource
    cases hget : Dict.get? templates name with
    | none =>
      rw [hget] at hsource
      cases hsource
    | some other =>
      rw [hget] at hsource
      cases hsource
      rfl
  have hall := h _ (Dict.mem_of_get? hget)
  rw [hparse] at hall
  simpa [Except.toOption] using hall

theorem Engine.loadFresh_of_source (hloader : e.loader = store.lift) {name source : String}
    (h : store.source name = .ok source) (s : τ) :
    outcome (e.loadFresh name) s = outcome (e.compile name source) s := by
  refine outcome_bind_ok ?_ _
  rw [outcome_mk, run_map, hloader]
  simp only [Loader.lift, h, Id.run, run_pure]
  rfl

theorem Engine.loadFresh_of_fault (hloader : e.loader = store.lift) {name : String}
    {fault : LoadFault} (h : store.source name = .error fault) (s : τ) :
    outcome (e.loadFresh name) s = some (.error (failureOfLoad name fault), s) := by
  refine outcome_bind_error ?_ _
  rw [outcome_mk, run_map, hloader]
  simp only [Loader.lift, h, Id.run, run_pure]
  rfl

/-- What an engine loads from a store was compiled from a source of it. -/
theorem Engine.loadFresh_ok (he : e.passes = standardPasses overridden)
    (hloader : e.loader = store.lift) {name : String} {template : Template} {s s' : τ}
    (h : outcome (e.loadFresh name) s = some (.ok template, s')) :
    Stored store overridden template := by
  cases hsource : store.source name with
  | error fault =>
    rw [loadFresh_of_fault hloader hsource] at h
    cases h
  | ok source =>
    rw [loadFresh_of_source hloader hsource] at h
    obtain ⟨tree, htree, -, rfl⟩ := compile_ok he h
    exact ⟨source, tree, hsource, htree, rfl⟩

/-- Two runs of an engine on a store do the same, and keep only what was compiled from the store. -/
theorem Engine.load_follows {excuse : Failure → Prop} (he : e.passes = standardPasses overridden)
    (hloader : e.loader = store.lift) (name : String) :
    Follows excuse (Storing (τ := τ) store overridden)
      (fun a b => a = b ∧ Stored store overridden a)
      (.ofAction (e.load name) : Rendering (StateT Cache m) Template)
      (.ofAction (e.load name) : Rendering (StateT Cache m) Template) :=
  keep_follows (fun _ => .same_of_ok fun _ _ _ h => loadFresh_ok he hloader h) name

theorem Engine.host_templates_follow {excuse : Failure → Prop}
    (he : e.passes = standardPasses overridden) (hloader : e.loader = store.lift)
    {P : Tree → Prop} (hP : ∀ template, Stored store overridden template → P template.tree) :
    TemplatesFollow excuse (Storing (τ := τ) store overridden)
      (fun t u => t = u ∧ P t) e.host e.host := by
  refine hostOf_templates_follow rfl
    (fun _ => .same_of_ok fun _ _ _ h => loadFresh_ok he hloader h) ?_
  rintro a _ ⟨rfl, ha⟩
  exact ⟨rfl, hP a ha⟩

end Stores

/-- A tag of a source. -/
def Engine.tag (content : String) : String := "\x7b%" ++ content ++ "%\x7d"

end Stencil
