import Stencil.Proofs.Renderings
import Stencil.Proofs.Sessions

/-!
# Templates as snapshots

An environment is used in a world that changes: sources appear, vanish and break behind the back of
the environment. Its use is a history of registrations, questions and changes of the world. A
journal of such a history holds every time that a template was loaded or looked for, by a question
or in the midst of a rendering, with the world of that moment, and every time that all that was kept
was given up.

The journal tells what is kept, whatever happens: after every event it is the first template that a
name was loaded to since everything was given up last. So a template that was loaded is a snapshot,
and a name that was not loaded, or failed to load, is loaded from the world as it is.

Results:
* `Journal.Tells.load`, `Journal.Tells.has`: loading and looking for a template.
* `Engine.watchedAnswer_mimics`: a question is answered alike while a journal is kept.
* `Environment.happen_watched`, `Environment.happenAll_watched`: one step of a history, and all of
  it.
* `Environment.keeps_snapshots`: what is loaded after any history, and was on the way.
-/

namespace Stencil

/-! ## Journals -/

/-- Something that happens while an environment is used. -/
inductive Event (σ : Type) where
  /-- A template was loaded, or failed to load. -/
  | loaded (e : Engine (StateM σ)) (world : σ) (name : String) (result : Except Failure Template)
  /-- It was asked whether a template is there. -/
  | asked (e : Engine (StateM σ)) (world : σ) (name : String) (answer : Bool)
  /-- All that was kept was given up. -/
  | cleared

/-- What has happened, the latest event first. -/
abbrev Journal (σ : Type) := List (Event σ)

namespace Journal

variable {σ : Type}

/-- The template that a name was loaded to since everything was given up last. -/
def kept? (name : String) : Journal σ → Option Template
  | [] => none
  | .loaded _ _ other (.ok template) :: earlier =>
    if name = other then some template else kept? name earlier
  | .loaded _ _ _ (.error _) :: earlier => kept? name earlier
  | .asked .. :: earlier => kept? name earlier
  | .cleared :: _ => none

/-- An event is as it has to be after the earlier ones. A template that was loaded is given again,
    and is there; any other one is loaded from what the loader finds at the moment, and is there if
    the loader says so. -/
def Admits (loader : Loader (StateM σ)) (earlier : Journal σ) : Event σ → Prop
  | .loaded e world name result => e.loader = loader ∧
    match kept? name earlier with
    | some template => result = .ok template
    | none => result = ((e.loadFresh name).run.run world).1
  | .asked e world name answer => e.loader = loader ∧
    match kept? name earlier with
    | some _ => answer = true
    | none => answer = ((loader.has name).run world).1
  | .cleared => True

/-- Every event of a journal is as it has to be. -/
def Lawful (loader : Loader (StateM σ)) : Journal σ → Prop
  | [] => True
  | event :: earlier => Admits loader earlier event ∧ Lawful loader earlier

/-- A lawful journal tells what is kept. -/
structure Tells (loader : Loader (StateM σ)) (journal : Journal σ) (cache : Cache) : Prop where
  lawful : Lawful loader journal
  kept : ∀ name, Dict.get? cache name = kept? name journal

/-- A template that was loaded is kept as long as nothing is given up. -/
theorem Lawful.kept?_of_loaded {loader : Loader (StateM σ)} {later earlier : Journal σ}
    {e : Engine (StateM σ)} {world : σ} {name : String} {template : Template}
    (h : Lawful loader (later ++ .loaded e world name (.ok template) :: earlier))
    (hlater : ∀ event ∈ later, event ≠ .cleared) :
    kept? name (later ++ .loaded e world name (.ok template) :: earlier) = some template := by
  induction later with
  | nil => exact if_pos rfl
  | cons event later ih =>
    rw [List.cons_append] at h ⊢
    have hkept := ih h.2 fun event hevent => hlater event (List.mem_cons_of_mem _ hevent)
    cases event with
    | asked => exact hkept
    | cleared => exact absurd rfl (hlater .cleared List.mem_cons_self)
    | loaded e' world' other result =>
      cases result with
      | error f => exact hkept
      | ok again =>
        rw [kept?]
        split
        · next hname =>
          subst hname
          have hagain := h.1.2
          rw [hkept] at hagain
          cases hagain
          rfl
        · exact hkept

namespace Tells

variable {loader : Loader (StateM σ)} {journal : Journal σ} {cache : Cache}

theorem nil : Tells loader [] [] := ⟨trivial, fun _ => rfl⟩

theorem cleared (h : Tells loader journal cache) : Tells loader (.cleared :: journal) [] :=
  ⟨⟨trivial, h.lawful⟩, fun _ => rfl⟩

variable {e : Engine (StateM σ)} {world : σ} {name : String} {after : Cache × σ × Unit}

/-- Loading a template. -/
theorem load (h : Tells loader journal cache) (he : e.loader = loader)
    {result : Except Failure Template}
    (hrun : run (e.load name) (cache, world, ()) = some (result, after)) :
    Tells loader (.loaded e world name result :: journal) after.1 := by
  cases hget : Dict.get? cache name with
  | some template =>
    have hkept : run (e.load name) (cache, world, ()) = some (.ok template, cache, world, ()) :=
      run_keep_of_kept hget (world, ())
    obtain ⟨rfl, rfl⟩ : Except.ok template = result ∧ (cache, world, ()) = after := by
      simpa [hkept] using hrun
    have hjournal := (h.kept name).symm.trans hget
    refine ⟨⟨⟨he, by rw [hjournal]⟩, h.lawful⟩, fun other => ?_⟩
    rw [kept?, h.kept other]
    split
    · next hname => rw [hname, hjournal]
    · rfl
  | none =>
    have hnew : run (e.load name) (cache, world, ()) = _ := run_keep_of_new hget (world, ())
    have hfresh : outcome (e.loadFresh name) (world, ()) =
        some (((e.loadFresh name).run.run world).1, ((e.loadFresh name).run.run world).2, ()) := rfl
    have hjournal := (h.kept name).symm.trans hget
    rw [hnew, hfresh, Option.map_some] at hrun
    generalize hmade : (e.loadFresh name).run.run world = made at hrun
    obtain ⟨made, world'⟩ := made
    cases made with
    | ok template =>
      obtain ⟨rfl, rfl⟩ : Except.ok template = result ∧
          (Dict.insert cache name template, world', ()) = after := by simpa using hrun
      refine ⟨⟨⟨he, by rw [hjournal, hmade]⟩, h.lawful⟩, fun other => ?_⟩
      rw [kept?]
      split
      · next hname => rw [hname, Dict.get?_insert_self]
      · next hname => rw [Dict.get?_insert_of_ne _ _ hname, h.kept other]
    | error f =>
      obtain ⟨rfl, rfl⟩ : Except.error f = result ∧ (cache, world', ()) = after := by
        simpa using hrun
      exact ⟨⟨⟨he, by rw [hjournal, hmade]⟩, h.lawful⟩, h.kept⟩

/-- Asking whether a template is there. -/
theorem has (h : Tells loader journal cache) (he : e.loader = loader) {answer : Bool}
    (hrun : run (e.has name) (cache, world, ()) = some (answer, after)) :
    Tells loader (.asked e world name answer :: journal) after.1 := by
  have hcontains : Dict.contains cache name = (kept? name journal).isSome := by
    rw [Dict.contains, h.kept name]
  cases hjournal : kept? name journal with
  | some template =>
    rw [hjournal] at hcontains
    have hkept : run (e.has name) (cache, world, ()) = some (true, cache, world, ()) :=
      run_available_of_kept hcontains (world, ())
    obtain ⟨rfl, rfl⟩ : true = answer ∧ (cache, world, ()) = after := by simpa [hkept] using hrun
    exact ⟨⟨⟨he, by rw [hjournal]⟩, h.lawful⟩, h.kept⟩
  | none =>
    rw [hjournal] at hcontains
    have hnew : run (e.has name) (cache, world, ()) = _ :=
      run_available_of_new hcontains (world, ())
    have hthere : run (e.loader.has name) (world, ()) =
        some (((loader.has name).run world).1, ((loader.has name).run world).2, ()) := by
      rw [he]
      rfl
    rw [hnew, hthere, Option.map_some] at hrun
    obtain ⟨rfl, rfl⟩ : ((loader.has name).run world).1 = answer ∧
        (cache, ((loader.has name).run world).2, ()) = after := by simpa using hrun
    exact ⟨⟨⟨he, by rw [hjournal]⟩, h.lawful⟩, h.kept⟩

end Tells

end Journal

/-! ## Watching an engine -/

section Mimics

variable {n₁ n₂ : Type → Type} [Monad n₁] [Monad n₂] {τ₁ τ₂ : Type} [Runs n₁ τ₁] [Runs n₂ τ₂]
  {S : τ₁ → τ₂ → Prop} {α β : Type}

/-- From states that belong together, the second step ends with the answer of the first one, in
    states that belong together. -/
def Mimics (S : τ₁ → τ₂ → Prop) (x : n₁ α) (y : n₂ α) : Prop :=
  ∀ ⦃s t⦄, S s t → ∀ ⦃a s'⦄, run x s = some (a, s') → ∃ t', run y t = some (a, t') ∧ S s' t'

namespace Mimics

theorem map {x : n₁ α} {y : n₂ α} (h : Mimics S x y) (f : α → β) :
    Mimics S (f <$> x) (f <$> y) := by
  intro s t hS b s' hx
  rw [run_map] at hx
  obtain ⟨⟨a, s₁⟩, hx₁, heq⟩ := Option.map_eq_some_iff.1 hx
  cases heq
  obtain ⟨t', hy, hS'⟩ := h hS hx₁
  exact ⟨t', by rw [run_map, hy]; rfl, hS'⟩

theorem lift {x : n₁ α} {y : n₂ α} (h : Mimics S x y) {excuse : Failure → Prop} :
    Follows excuse S Eq (ExceptT.lift x : Rendering n₁ α) (ExceptT.lift y : Rendering n₂ α) := by
  intro s t hS r s' hx
  rw [outcome_lift] at hx
  obtain ⟨⟨a, s₁⟩, hx₁, heq⟩ := Option.map_eq_some_iff.1 hx
  cases heq
  obtain ⟨t', hy, hS'⟩ := h hS hx₁
  exact .inr ⟨.ok a, t', by rw [outcome_lift, hy]; rfl, hS', .refl _⟩

theorem ofAction {x : n₁ (Except Failure α)} {y : n₂ (Except Failure α)} (h : Mimics S x y)
    {excuse : Failure → Prop} :
    Follows excuse S Eq (.ofAction x : Rendering n₁ α) (.ofAction y : Rendering n₂ α) := by
  intro s t hS r s' hx
  obtain ⟨t', hy, hS'⟩ := h hS hx
  exact .inr ⟨r, t', hy, hS', .refl r⟩

theorem of_follows {x : n₁ (Except Failure α)} {y : n₂ (Except Failure α)}
    (h : Follows (fun _ => False) S Eq (.ofAction x : Rendering n₁ α)
      (.ofAction y : Rendering n₂ α)) : Mimics S x y := fun _ _ hS _ _ hx => h.eq hS hx

end Mimics

end Mimics

/-- Steps of an engine in a changing world, with a journal. -/
abbrev Journaled (σ : Type) := StateT (Journal σ) (StateT Cache (StateM σ))

namespace Engine

variable {σ : Type}

/-- A step of an engine that is written down, with the world that it begins in and its answer. -/
def watch {α : Type} (event : σ → α → Event σ) (step : StateT Cache (StateM σ) α) : Journaled σ α :=
  fun journal cache world =>
    let ((a, cache), after) := step cache world
    (((a, event world a :: journal), cache), after)

variable (e : Engine (StateM σ))

/-- Loads a template and writes it down. -/
def watchedLoad (name : String) : Journaled σ (Except Failure Template) :=
  watch (fun world result => .loaded e world name result) (e.load name)

/-- Looks for a template and writes it down. -/
def watchedHas (name : String) : Journaled σ Bool :=
  watch (fun world answer => .asked e world name answer) (e.has name)

/-- The host of an engine, with a journal of the templates that are loaded and looked for. -/
def watchedHost : Host (Journaled σ) where
  settings := e.settings
  function? name := (Dict.get? e.functions name).map fun f values =>
    StateT.lift (StateT.lift (f values))
  has := e.watchedHas
  load name := Except.map Template.tree <$> e.watchedLoad name

/-- The text of a compiled template, with a journal. -/
def watchedRenderTemplate (template : Template) (context : Context) :
    Journaled σ (Except Failure String) := (e.watchedHost.render e.patience template.tree context).run

/-- The text of a template by its name, with a journal. -/
def watchedRender (name : String) (context : Context) : Journaled σ (Except Failure String) :=
  ExceptT.run do
    let template ← Rendering.ofAction (e.watchedLoad name)
    Rendering.ofAction (e.watchedRenderTemplate template context)

/-- The answer to a query, with a journal. -/
def watchedAnswer : Query → Journaled σ Reply
  | .compile name source =>
    StateT.lift (StateT.lift (Reply.template <$> (e.compile name source).run))
  | .load name => Reply.template <$> e.watchedLoad name
  | .has name => Reply.there <$> e.watchedHas name
  | .render name context => Reply.text <$> e.watchedRender name context
  | .renderTemplate template context => Reply.text <$> e.watchedRenderTemplate template context

end Engine

/-- The same state of an engine, with a journal that tells what is kept. -/
def Told {σ : Type} (loader : Loader (StateM σ)) (s : Cache × σ × Unit)
    (t : Journal σ × Cache × σ × Unit) : Prop :=
  s = t.2 ∧ t.1.Tells loader t.2.1

namespace Engine

variable {σ : Type} {loader : Loader (StateM σ)} {e : Engine (StateM σ)}

theorem eq_of_run {α : Type} {x : StateM σ α} {world world' : σ} {a : α}
    (h : run x (world, ()) = some (a, world', ())) : x.run world = (a, world') := by
  have hrun : run x (world, ()) = some ((x.run world).1, (x.run world).2, ()) := rfl
  obtain ⟨ha, hworld⟩ : (x.run world).1 = a ∧ (x.run world).2 = world' := by simpa [hrun] using h
  exact Prod.ext ha hworld

theorem eq_of_run_journaled {α : Type} {x : Journaled σ α} {journal journal' : Journal σ}
    {cache cache' : Cache} {world world' : σ} {a : α}
    (h : run x (journal, cache, world, ()) = some (a, journal', cache', world', ())) :
    ((x.run journal).run cache).run world = (((a, journal'), cache'), world') := by
  obtain ⟨p, hp⟩ : ∃ p, ((x.run journal).run cache).run world = p := ⟨_, rfl⟩
  obtain ⟨⟨⟨_, _⟩, _⟩, _⟩ := p
  have hrun : run x (journal, cache, world, ()) = some (
      (((x.run journal).run cache).run world).1.1.1, (((x.run journal).run cache).run world).1.1.2,
      (((x.run journal).run cache).run world).1.2, (((x.run journal).run cache).run world).2,
      ()) := rfl
  rw [hrun, hp] at h
  rw [hp]
  cases h
  rfl

theorem run_bind_world {α β : Type} {x : StateM σ α} {world world' : σ} {a : α}
    (h : x.run world = (a, world')) (f : α → StateM σ β) :
    (x >>= f).run world = (f a).run world' := by
  rw [StateT.run_bind, h]
  rfl

theorem run_watch {α : Type} (event : σ → α → Event σ) (step : StateT Cache (StateM σ) α)
    (journal : Journal σ) (s : Cache × σ × Unit) :
    run (watch event step) (journal, s) =
      (run step s).map fun p => (p.1, event s.2.1 p.1 :: journal, p.2) := rfl

/-- A step that is written down is the same step if its event goes with what is kept. -/
theorem watch_mimics {α : Type} {event : σ → α → Event σ} {step : StateT Cache (StateM σ) α}
    (h : ∀ journal cache world a after, Journal.Tells loader journal cache →
      run step (cache, world, ()) = some (a, after) →
      Journal.Tells loader (event world a :: journal) after.1) :
    Mimics (Told loader) step (watch event step) := by
  rintro ⟨cache, world, ⟨⟩⟩ ⟨journal, _⟩ ⟨rfl, htells⟩ a after hrun
  refine ⟨(event world a :: journal, after), ?_, rfl, h journal cache world a after htells hrun⟩
  rw [run_watch, hrun, Option.map_some]

theorem watchedLoad_mimics (he : e.loader = loader) (name : String) :
    Mimics (Told loader) (e.load name) (e.watchedLoad name) :=
  watch_mimics fun _ _ _ _ _ htells hrun => htells.load he hrun

theorem watchedHas_mimics (he : e.loader = loader) (name : String) :
    Mimics (Told loader) (e.has name) (e.watchedHas name) :=
  watch_mimics fun _ _ _ _ _ htells hrun => htells.has he hrun

/-- Functions and compiling have nothing to do with what is kept. -/
theorem lift_mimics {α : Type} (x : StateM σ α) :
    Mimics (Told loader) (StateT.lift x : StateT Cache (StateM σ) α)
      (StateT.lift (StateT.lift x) : Journaled σ α) := by
  rintro ⟨cache, world, ⟨⟩⟩ ⟨journal, _⟩ ⟨rfl, htells⟩ a after hrun
  refine ⟨(journal, after), by rw [run_lift, hrun]; rfl, rfl, ?_⟩
  rw [run_lift] at hrun
  obtain ⟨p, -, heq⟩ := Option.map_eq_some_iff.1 hrun
  cases heq
  exact htells

theorem watchedHost_followed (he : e.loader = loader) :
    e.host.access.FollowedBy (fun _ => False) (Told loader) e.watchedHost.access := by
  refine Host.access_followedBy rfl (fun name => ?_) ⟨fun name => ?_, fun name => ?_⟩ nofun
  · unfold FunctionFollows FunctionCompares
    simp only [host, hostOf, watchedHost]
    cases Dict.get? e.functions name with
    | none => exact trivial
    | some f => exact fun values => ((lift_mimics (f values)).map _).ofAction
  · exact (watchedHas_mimics he name).lift
  · exact ((watchedLoad_mimics he name).map _).ofAction

theorem watchedRenderTemplate_mimics (he : e.loader = loader) (template : Template)
    (context : Context) :
    Mimics (Told loader) (e.renderTemplate template context)
      (e.watchedRenderTemplate template context) :=
  .of_follows ((watchedHost_followed he).render e.patience template.tree context)

theorem watchedRender_mimics (he : e.loader = loader) (name : String) (context : Context) :
    Mimics (Told loader) (e.render name context) (e.watchedRender name context) := by
  refine .of_follows ((watchedLoad_mimics he name).ofAction.bind ?_)
  rintro template _ rfl
  exact (watchedRenderTemplate_mimics he template context).ofAction

/-- A question is answered alike while a journal is kept. -/
theorem watchedAnswer_mimics (he : e.loader = loader) (query : Query) :
    Mimics (Told loader) (e.answer query) (e.watchedAnswer query) := by
  cases query with
  | compile name source => exact lift_mimics _
  | load name => exact (watchedLoad_mimics he name).map _
  | has name => exact (watchedHas_mimics he name).map _
  | render name context => exact (watchedRender_mimics he name context).map _
  | renderTemplate template context =>
    exact (watchedRenderTemplate_mimics he template context).map _

end Engine

/-! ## Histories -/

/-- One step of a history. -/
inductive Happening (σ : Type) where
  | register (registration : Registration (StateM σ))
  | ask (query : Query)
  /-- The world changes. -/
  | change (f : σ → σ)

/-- Whether a registration makes an environment give up what it keeps: new settings do, and so does
    every pass. -/
def Registration.clears {m : Type → Type} : Registration m → Bool
  | .configure _ => true
  | registration => !registration.passes.isEmpty

namespace Environment

variable {σ : Type}

/-- The environment after a step of a history, with the answer if the step is a question. -/
def happen (env : Environment (StateM σ)) :
    Happening σ → StateM σ (Option Reply × Environment (StateM σ))
  | .register registration => pure (none, env.register registration)
  | .ask query => do
    let (reply, env) ← env.ask query
    pure (some reply, env)
  | .change f => do
    modify f
    pure (none, env)

/-- The environment after a history, with the answers on the way. -/
def happenAll (env : Environment (StateM σ)) :
    List (Happening σ) → StateM σ (List (Option Reply) × Environment (StateM σ))
  | [] => pure ([], env)
  | happening :: rest => do
    let (reply, env) ← env.happen happening
    let (replies, env) ← env.happenAll rest
    pure (reply :: replies, env)

/-- A step of a history, with a journal. -/
def watch (env : Environment (StateM σ)) (journal : Journal σ) :
    Happening σ → StateM σ (Option Reply × Environment (StateM σ) × Journal σ)
  | .register registration =>
    pure (none, env.register registration,
      if registration.clears then .cleared :: journal else journal)
  | .ask query => do
    let ((reply, journal), cache) ← (env.engine.watchedAnswer query journal).run env.cache
    pure (some reply, { env with cache := cache }, journal)
  | .change f => do
    modify f
    pure (none, env, journal)

/-- A history, with a journal. -/
def watchAll (env : Environment (StateM σ)) (journal : Journal σ) :
    List (Happening σ) → StateM σ (List (Option Reply) × Environment (StateM σ) × Journal σ)
  | [] => pure ([], env, journal)
  | happening :: rest => do
    let (reply, env, journal) ← env.watch journal happening
    let (replies, env, journal) ← env.watchAll journal rest
    pure (reply :: replies, env, journal)

/-- An environment with a loader, and a journal that tells what it keeps. -/
structure ToldBy (loader : Loader (StateM σ)) (journal : Journal σ)
    (env : Environment (StateM σ)) : Prop where
  engine : env.engine.loader = loader
  tells : journal.Tells loader env.cache

/-! ### Registrations -/

section Registrations

variable {m : Type → Type} [Monad m]

omit [Monad m] in
theorem foldl_addFunction (env : Environment m) (functions : List (String × Function m)) :
    (functions.foldl (fun env (name, f) => env.addFunction name f) env).engine.loader =
        env.engine.loader ∧
      (functions.foldl (fun env (name, f) => env.addFunction name f) env).cache = env.cache := by
  induction functions generalizing env with
  | nil => exact ⟨rfl, rfl⟩
  | cons f rest ih => exact ih (env.addFunction f.1 f.2)

omit [Monad m] in
theorem foldl_addPass (env : Environment m) (passes : List (Pass m)) :
    (passes.foldl addPass env).engine.loader = env.engine.loader ∧
      (passes.foldl addPass env).cache = if passes.isEmpty then env.cache else [] := by
  induction passes generalizing env with
  | nil => exact ⟨rfl, rfl⟩
  | cons p rest ih =>
    obtain ⟨hloader, hcache⟩ := ih (env.addPass p)
    refine ⟨hloader, hcache.trans ?_⟩
    cases rest <;> rfl

omit [Monad m] in
/-- A registration leaves the loader alone, and gives up what is kept or leaves it alone too. -/
theorem register_cache (env : Environment m) (registration : Registration m) :
    (env.register registration).engine.loader = env.engine.loader ∧
      (env.register registration).cache = if registration.clears then [] else env.cache := by
  have hpasses : ∀ (env : Environment m) (passes : List (Pass m)),
      (passes.foldl addPass env).engine.loader = env.engine.loader ∧
        (passes.foldl addPass env).cache = if !passes.isEmpty then [] else env.cache := by
    intro env passes
    obtain ⟨hloader, hcache⟩ := foldl_addPass env passes
    exact ⟨hloader, by rw [hcache]; cases passes <;> rfl⟩
  cases registration with
  | configure settings => exact ⟨rfl, rfl⟩
  | addFunction name function => exact ⟨rfl, rfl⟩
  | addPass pass => exact ⟨rfl, rfl⟩
  | addFunctions extension => exact foldl_addFunction env extension.functions
  | addPasses extension => exact hpasses env extension.passes
  | install extension =>
    obtain ⟨hloader, hcache⟩ := foldl_addFunction env extension.functions
    obtain ⟨hloader', hcache'⟩ := hpasses (env.addFunctions extension) extension.passes
    refine ⟨hloader'.trans hloader, hcache'.trans ?_⟩
    rw [addFunctions, hcache]
    rfl

end Registrations

/-! ### Runs -/

variable {loader : Loader (StateM σ)} {env : Environment (StateM σ)} {journal : Journal σ}

/-- A question, in an environment that a journal tells of. -/
theorem ask_watched (h : env.ToldBy loader journal) (query : Query) (world : σ) :
    ∃ reply cache journal' world',
      (env.ask query).run world = ((reply, { env with cache := cache }), world') ∧
      ((env.engine.watchedAnswer query journal).run env.cache).run world =
        (((reply, journal'), cache), world') ∧
      ToldBy loader journal' { env with cache := cache } := by
  obtain ⟨reply, cache, world', hanswer⟩ : ∃ reply cache world',
      run (env.engine.answer query) (env.cache, world, ()) = some (reply, cache, world', ()) :=
    ⟨_, _, _, rfl⟩
  have htold : Told loader (env.cache, world, ()) (journal, env.cache, world, ()) :=
    ⟨rfl, h.tells⟩
  obtain ⟨⟨journal', _, _, ⟨⟩⟩, hwatched, hstate, htells⟩ :=
    Engine.watchedAnswer_mimics h.engine query htold hanswer
  cases hstate
  have hask : run (env.ask query) (world, ()) =
      some ((reply, { env with cache := cache }), world', ()) := by
    rw [run_ask, hanswer]
    rfl
  exact ⟨reply, cache, journal', world', Engine.eq_of_run hask, Engine.eq_of_run_journaled hwatched,
    h.engine, htells⟩

/-- One step of a history: the same answer in the same environment and world, of which the journal
    tells. -/
theorem happen_watched (h : env.ToldBy loader journal) (happening : Happening σ) (world : σ) :
    ∃ reply env' journal' world',
      (env.happen happening).run world = ((reply, env'), world') ∧
      (env.watch journal happening).run world = ((reply, env', journal'), world') ∧
      env'.ToldBy loader journal' := by
  cases happening with
  | register registration =>
    refine ⟨none, env.register registration, _, world, rfl, rfl, ?_⟩
    obtain ⟨hloader, hcache⟩ := register_cache env registration
    refine ⟨hloader.trans h.engine, ?_⟩
    rw [hcache]
    cases registration.clears with
    | true => exact h.tells.cleared
    | false => exact h.tells
  | ask query =>
    obtain ⟨reply, cache, journal', world', hask, hwatched, htold⟩ := ask_watched h query world
    exact ⟨some reply, _, journal', world', Engine.run_bind_world hask _,
      Engine.run_bind_world hwatched _, htold⟩
  | change f => exact ⟨none, env, journal, f world, rfl, rfl, h⟩

/-- All of a history. -/
theorem happenAll_watched (h : env.ToldBy loader journal) (history : List (Happening σ))
    (world : σ) :
    ∃ replies env' journal' world',
      (env.happenAll history).run world = ((replies, env'), world') ∧
      (env.watchAll journal history).run world = ((replies, env', journal'), world') ∧
      env'.ToldBy loader journal' := by
  induction history generalizing env journal world with
  | nil => exact ⟨[], env, journal, world, rfl, rfl, h⟩
  | cons happening rest ih =>
    obtain ⟨reply, env₁, journal₁, world₁, hfirst, hwatched, h₁⟩ := happen_watched h happening world
    obtain ⟨replies, env', journal', world', hrest, hwatchedRest, h'⟩ := ih h₁ world₁
    refine ⟨reply :: replies, env', journal', world', ?_, ?_, h'⟩
    · rw [happenAll, Engine.run_bind_world hfirst]
      exact Engine.run_bind_world hrest _
    · rw [watchAll, Engine.run_bind_world hwatched]
      exact Engine.run_bind_world hwatchedRest _

/-! ### Snapshots -/

theorem has_of_engine {name : String} {now after : σ} {answer : Bool} {cache : Cache}
    (h : ((env.engine.has name).run env.cache).run now = ((answer, cache), after)) :
    (env.has name).run now = (answer, after) := by
  have hhas : (env.has name).run now = ((((env.engine.has name).run env.cache).run now).1.1,
      (((env.engine.has name).run env.cache).run now).2) := rfl
  rw [hhas, h]

/-- A kept template is loaded again, and is there, in every world. -/
theorem load_of_kept {name : String} {template : Template}
    (h : Dict.get? env.cache name = some template) (now : σ) :
    (env.load name).run now = ((.ok template, env), now) ∧
      (env.has name).run now = (true, now) := by
  have hload : ((env.engine.load name).run env.cache).run now =
      ((.ok template, env.cache), now) := by
    simp only [Engine.load, StateT.run, keep, h]
    rfl
  have hhas : ((env.engine.has name).run env.cache).run now = ((true, env.cache), now) := by
    simp only [Engine.has, StateT.run, available, Dict.contains, h, Option.isSome_some, if_true]
    rfl
  exact ⟨Engine.run_bind_world hload _, has_of_engine hhas⟩

/-- A template that is not kept is loaded from the world as it is, and is there if the loader says
    so. If it fails to load, the environment stays as it is. -/
theorem load_of_new {name : String} (h : Dict.get? env.cache name = none) (now : σ) :
    (∃ env' after, (env.load name).run now =
        ((((env.engine.loadFresh name).run.run now).1, env'), after) ∧
      ∀ f, ((env.engine.loadFresh name).run.run now).1 = .error f → env' = env) ∧
    (env.has name).run now = (env.engine.loader.has name).run now := by
  constructor
  · obtain ⟨⟨result, after⟩, hfresh⟩ : ∃ p, (env.engine.loadFresh name).run.run now = p := ⟨_, rfl⟩
    rw [hfresh]
    cases result with
    | ok template =>
      have hload : ((env.engine.load name).run env.cache).run now =
          ((.ok template, Dict.insert env.cache name template), after) := by
        simp only [Engine.load, StateT.run, keep, h]
        exact Engine.run_bind_world hfresh _
      refine ⟨_, after, Engine.run_bind_world hload _, fun f hf => ?_⟩
      cases hf
    | error f =>
      have hload : ((env.engine.load name).run env.cache).run now =
          ((.error f, env.cache), after) := by
        simp only [Engine.load, StateT.run, keep, h]
        exact Engine.run_bind_world hfresh _
      exact ⟨env, after, Engine.run_bind_world hload _, fun _ _ => rfl⟩
  · have hhas : ((env.engine.has name).run env.cache).run now =
        ((((env.engine.loader.has name).run now).1, env.cache),
          ((env.engine.loader.has name).run now).2) := by
      simp only [Engine.has, StateT.run, available, Dict.contains, h, Option.isSome_none,
        Bool.false_eq_true, if_false]
      rfl
    exact has_of_engine hhas

/-- What can be expected of an environment after the events of a journal. -/
structure Recalls (loader : Loader (StateM σ)) (journal : Journal σ)
    (env : Environment (StateM σ)) : Prop where
  engine : env.engine.loader = loader
  /-- Whenever a template was loaded or looked for, by a question or in a rendering, it was given
      again if it had been loaded before, and loaded from the world of that moment if not. -/
  lawful : journal.Lawful loader
  /-- Nothing is kept but what was loaded since everything was given up last. -/
  kept : ∀ name, Dict.get? env.cache name = journal.kept? name
  /-- A template that was loaded is loaded again, in every world, as long as nothing was given up
      since, and it is there. -/
  snapshot : ∀ later e world name template earlier,
    journal = later ++ .loaded e world name (.ok template) :: earlier →
    (∀ event ∈ later, event ≠ .cleared) → ∀ now,
    (env.load name).run now = ((.ok template, env), now) ∧ (env.has name).run now = (true, now)
  /-- A name without a template that was loaded is loaded from the world as it is. -/
  current : ∀ name, journal.kept? name = none → ∀ now,
    ((env.load name).run now).1.1 = ((env.engine.loadFresh name).run.run now).1 ∧
      (env.has name).run now = (loader.has name).run now
  /-- Where that fails, nothing else is kept than before. -/
  failed : ∀ name now f env' after, (env.load name).run now = ((.error f, env'), after) → env' = env

theorem ToldBy.recalls (h : env.ToldBy loader journal) : env.Recalls loader journal where
  engine := h.engine
  lawful := h.tells.lawful
  kept := h.tells.kept
  snapshot := by
    rintro later e world name template earlier rfl hlater now
    exact load_of_kept ((h.tells.kept name).trans (h.tells.lawful.kept?_of_loaded hlater)) now
  current := by
    intro name hname now
    obtain ⟨⟨env', after, hload, -⟩, hhas⟩ := load_of_new ((h.tells.kept name).trans hname) now
    rw [hload, hhas, h.engine]
    exact ⟨rfl, rfl⟩
  failed := by
    intro name now f env' after hload
    cases hget : Dict.get? env.cache name with
    | some template =>
      rw [(load_of_kept hget now).1] at hload
      cases hload
    | none =>
      obtain ⟨⟨env₁, after₁, hnew, hfailed⟩, -⟩ := load_of_new hget now
      rw [hnew] at hload
      obtain ⟨hpair, -⟩ := Prod.mk.inj hload
      obtain ⟨hresult, rfl⟩ := Prod.mk.inj hpair
      exact hfailed f hresult

/-- Loaded templates are snapshots. After every history of registrations, questions and changes of
    the world, which may be whatever a loader depends on, there is a journal of all loading on the
    way: keeping it changes no answer, no environment and no world, and the environment recalls what
    the journal tells. So it is with any patience. -/
theorem keeps_snapshots (loader : Loader (StateM σ)) (patience : Nat)
    (history : List (Happening σ)) (world : σ) :
    ∃ replies env journal after,
      ((ofLoader loader patience).happenAll history).run world = ((replies, env), after) ∧
      ((ofLoader loader patience).watchAll [] history).run world =
        ((replies, env, journal), after) ∧
      env.Recalls loader journal := by
  have hstart : (ofLoader loader patience).ToldBy loader [] := ⟨rfl, .nil⟩
  obtain ⟨replies, env, journal, after, hplain, hwatched, htold⟩ :=
    happenAll_watched hstart history world
  exact ⟨replies, env, journal, after, hplain, hwatched, htold.recalls⟩

/-- The loader of the sources that the world holds. -/
def Loader.ofWorld : Loader (StateM (Dict String)) where
  source name := do return Loader.lookUp (← get) name
  has name := do return Dict.contains (← get) name

/-- A page stays as it was loaded until the settings change. -/
example :
    ((((ofLoader Loader.ofWorld).happenAll
      [.ask (.render "page" []), .change fun _ => [("page", "new")], .ask (.render "page" []),
        .register (.configure {}), .ask (.render "page" [])]).run [("page", "old")]).1.1.filterMap
      fun
        | some (.text (.ok text)) => some text
        | _ => none) = ["old", "old", "new"] := by
  decide +kernel

end Environment

end Stencil
