import Stencil.Override.Extension
import Stencil.Proofs.Current

/-!
# Sessions

A session uses an environment: it registers functions and passes, changes the settings, and asks for
templates and texts in between. What the environment keeps on the way cannot be seen in any answer:
over a store that never changes it answers like an environment with the same registrations that
nothing was asked of.

The invariant is that everything kept is up to date. Registrations that change what is made give up
what is kept, and questions keep nothing else, whether they are answered or fail.

Results:
* `Engine.answer_blind`, `Environment.run_ask`: queries are answered by steps of the engine.
* `Environment.Sound.register`, `Environment.Sound.ask`: every operation keeps the invariant.
* `Environment.Sound.performAll`: every session does.
* `Environment.reply_session`: every answer after a session.
-/

namespace Stencil

/-! ## Operations -/

/-- What changes how an environment compiles and renders. -/
inductive Registration (m : Type → Type) where
  | configure (settings : Settings)
  | addFunction (name : String) (function : Function m)
  | addPass (pass : Pass m)
  | addFunctions (extension : Extension m)
  | addPasses (extension : Extension m)
  | install (extension : Extension m)

/-- What can be asked of an environment. -/
inductive Query where
  | compile (name source : String)
  | load (name : String)
  | has (name : String)
  | render (name : String) (context : Context)
  | renderTemplate (template : Template) (context : Context)

/-- The answer to a query. -/
inductive Reply where
  | template (result : Except Failure Template)
  | there (answer : Bool)
  | text (result : Except Failure String)

/-- One step of a session. -/
inductive Operation (m : Type → Type) where
  | register (registration : Registration m)
  | ask (query : Query)

/-- The passes that a registration adds. -/
def Registration.passes {m : Type → Type} : Registration m → List (Pass m)
  | .addPass pass => [pass]
  | .addPasses extension => extension.passes
  | .install extension => extension.passes
  | .configure _ => []
  | .addFunction .. => []
  | .addFunctions _ => []

/-- The registrations of a session, in order. -/
def registrations {m : Type → Type} : List (Operation m) → List (Registration m)
  | [] => []
  | .register registration :: rest => registration :: registrations rest
  | .ask _ :: rest => registrations rest

namespace Environment

variable {m : Type → Type} [Monad m]

/-- The environment after a registration. -/
def register (env : Environment m) : Registration m → Environment m
  | .configure settings => env.configure settings
  | .addFunction name function => env.addFunction name function
  | .addPass pass => env.addPass pass
  | .addFunctions extension => env.addFunctions extension
  | .addPasses extension => env.addPasses extension
  | .install extension => env.install extension

/-- The environment after some registrations. -/
def registerAll (env : Environment m) (registrations : List (Registration m)) : Environment m :=
  registrations.foldl register env

/-- The answer to a query, with the environment after it. -/
def ask (env : Environment m) : Query → m (Reply × Environment m)
  | .compile name source => do
    let result ← env.compile name source
    pure (.template result, env)
  | .load name => do
    let (result, env) ← env.load name
    pure (.template result, env)
  | .has name => do
    let answer ← env.has name
    pure (.there answer, env)
  | .render name context => do
    let (result, env) ← env.render name context
    pure (.text result, env)
  | .renderTemplate template context => do
    let (result, env) ← env.renderTemplate template context
    pure (.text result, env)

/-- The answer to a query. -/
def reply (env : Environment m) (query : Query) : m Reply := Prod.fst <$> env.ask query

/-- The environment after one step. -/
def perform (env : Environment m) : Operation m → m (Environment m)
  | .register registration => pure (env.register registration)
  | .ask query => Prod.snd <$> env.ask query

/-- The environment after a session. -/
def performAll (env : Environment m) : List (Operation m) → m (Environment m)
  | [] => pure env
  | operation :: rest => do
    let env ← env.perform operation
    env.performAll rest

end Environment

/-! ## Queries -/

section Sessions

variable {m : Type → Type} [Monad m] {τ : Type} [Runs m τ]

namespace Engine

variable {e : Engine m} {store : Loader Id}

/-- The answer to a query. -/
def answer (e : Engine m) : Query → StateT Cache m Reply
  | .compile name source => StateT.lift (Reply.template <$> (e.compile name source).run)
  | .load name => Reply.template <$> e.load name
  | .has name => Reply.there <$> e.has name
  | .render name context => Reply.text <$> e.render name context
  | .renderTemplate template context => Reply.text <$> e.renderTemplate template context

theorem answer_blind (he : e.RunsOn store) (query : Query) : e.Blind (τ := τ) (e.answer query) := by
  cases query with
  | compile name source => exact .lift _
  | load name => exact .map (.of_follows (load_alike he name)) _
  | has name =>
    refine .map (fun s => ⟨some (store.has name, s), fun cache hcache => ?_⟩) _
    exact ⟨cache, hcache, run_has_of_current he hcache name s⟩
  | render name context => exact .map (.of_follows (render_alike he name context)) _
  | renderTemplate template context =>
    exact .map (.of_follows (renderTemplate_alike he template context)) _

end Engine

/-! ## Sessions -/

/-- An environment on a store that keeps only what is up to date. -/
structure Environment.Sound (env : Environment m) (store : Loader Id) : Prop where
  engine : env.engine.RunsOn store
  cache : env.engine.Current (τ := τ) env.cache

namespace Environment

variable {env : Environment m} {store : Loader Id}

theorem sound_ofLoader (hstore : store.Finds) (patience : Nat) :
    (ofLoader store.lift patience : Environment m).Sound (τ := τ) store where
  engine := {
    loader := rfl
    finds := hstore
    passes := by
      intro p hp
      rw [List.mem_singleton.1 hp]
      exact Pass.changing_quiet _ _ _ }
  cache := Engine.current_nil

namespace Sound

theorem addFunction (h : env.Sound (τ := τ) store) (name : String) (function : Function m) :
    (env.addFunction name function).Sound (τ := τ) store where
  engine := ⟨h.engine.loader, h.engine.finds, h.engine.passes⟩
  cache := h.cache

theorem addPass (h : env.Sound (τ := τ) store) {pass : Pass m} (hpass : pass.Quiet) :
    (env.addPass pass).Sound (τ := τ) store where
  engine := {
    loader := h.engine.loader
    finds := h.engine.finds
    passes := by
      intro p hp
      rcases (mem_insertPass p pass _).1 hp with rfl | hp
      · exact hpass
      · exact h.engine.passes p hp }
  cache := Engine.current_nil

theorem addFunctions (h : env.Sound (τ := τ) store) (extension : Extension m) :
    (env.addFunctions extension).Sound (τ := τ) store := by
  unfold Environment.addFunctions
  generalize extension.functions = functions
  induction functions generalizing env with
  | nil => exact h
  | cons f rest ih => exact ih (h.addFunction f.1 f.2)

theorem addPasses (h : env.Sound (τ := τ) store) {extension : Extension m}
    (hpasses : ∀ p ∈ extension.passes, p.Quiet) :
    (env.addPasses extension).Sound (τ := τ) store := by
  unfold Environment.addPasses
  generalize extension.passes = passes at hpasses
  induction passes generalizing env with
  | nil => exact h
  | cons p rest ih =>
    exact ih (h.addPass (hpasses p List.mem_cons_self))
      fun q hq => hpasses q (List.mem_cons_of_mem p hq)

/-- A registration keeps what is up to date, or nothing. -/
theorem register (h : env.Sound (τ := τ) store) {registration : Registration m}
    (hpasses : ∀ p ∈ registration.passes, p.Quiet) :
    (env.register registration).Sound (τ := τ) store := by
  cases registration with
  | configure settings =>
    exact ⟨⟨h.engine.loader, h.engine.finds, h.engine.passes⟩, Engine.current_nil⟩
  | addFunction name function => exact h.addFunction name function
  | addPass pass => exact h.addPass (hpasses pass List.mem_cons_self)
  | addFunctions extension => exact h.addFunctions extension
  | addPasses extension => exact h.addPasses hpasses
  | install extension => exact (h.addFunctions extension).addPasses hpasses

theorem registerAll (h : env.Sound (τ := τ) store) {all : List (Registration m)}
    (hpasses : ∀ r ∈ all, ∀ p ∈ r.passes, p.Quiet) :
    (env.registerAll all).Sound (τ := τ) store := by
  unfold Environment.registerAll
  induction all generalizing env with
  | nil => exact h
  | cons r rest ih =>
    exact ih (h.register (hpasses r List.mem_cons_self))
      fun q hq => hpasses q (List.mem_cons_of_mem r hq)

end Sound

/-- A query that a step of the engine answers. -/
theorem run_act {α : Type} (env : Environment m) (step : StateT Cache m α) (f : α → Reply) (s : τ) :
    run (env.act step >>= fun p => pure (f p.1, p.2)) s =
      (run (f <$> step) (env.cache, s)).map fun p =>
        ((p.1, { env with cache := p.2.1 }), p.2.2) := by
  unfold act
  rw [run_bind, run_bind, run_map, run_stateT]
  cases run (step.run env.cache) s with
  | none => rfl
  | some p => simp only [Option.bind_some, Option.map_some, run_pure]

/-- A query that is answered without the cache. -/
theorem run_aside {α : Type} (env : Environment m) (x : m α) (f : α → Reply) (s : τ) :
    run (x >>= fun a => pure (f a, env)) s = (run x s).map fun p => ((f p.1, env), p.2) := by
  rw [run_bind]
  cases run x s with
  | none => rfl
  | some p => exact run_pure _ _

/-- Asking whether a template is there keeps nothing. -/
theorem run_has (env : Environment m) (name : String) (s : τ) :
    run (env.engine.has name) (env.cache, s) =
      (run (env.has name) s).map fun p => (p.1, env.cache, p.2) := by
  have hrun : run (env.has name) s = (run (env.engine.has name) (env.cache, s)).map fun p =>
      (p.1, p.2.2) := by
    rw [run_stateT, Option.map_map]
    exact run_map Prod.fst ((env.engine.has name).run env.cache) s
  rw [hrun]
  cases hname : Dict.contains env.cache name with
  | true =>
    have hkept : run (env.engine.has name) (env.cache, s) = _ := run_available_of_kept hname s
    rw [hkept]
    rfl
  | false =>
    have hnew : run (env.engine.has name) (env.cache, s) = _ := run_available_of_new hname s
    rw [hnew, Option.map_map, Option.map_map]
    rfl

/-- Every query is answered by the engine. -/
theorem run_ask (env : Environment m) (query : Query) (s : τ) :
    run (env.ask query) s = (run (env.engine.answer query) (env.cache, s)).map fun p =>
      ((p.1, { env with cache := p.2.1 }), p.2.2) := by
  cases query with
  | compile name source =>
    have hask : run (env.ask (.compile name source)) s = _ :=
      run_aside env (env.compile name source) .template s
    rw [hask, Engine.answer, run_lift, run_map, Option.map_map, Option.map_map]
    rfl
  | has name =>
    have hask : run (env.ask (.has name)) s = _ := run_aside env (env.has name) .there s
    rw [hask, Engine.answer, run_map, run_has, Option.map_map, Option.map_map]
    rfl
  | load name => exact run_act env (env.engine.load name) .template s
  | render name context => exact run_act env (env.engine.render name context) .text s
  | renderTemplate template context =>
    exact run_act env (env.engine.renderTemplate template context) .text s

/-- A query keeps what is up to date, or nothing, and leaves the engine alone. -/
theorem Sound.ask (h : env.Sound (τ := τ) store) {query : Query} {s s' : τ} {reply : Reply}
    {env' : Environment m} (hrun : run (env.ask query) s = some ((reply, env'), s')) :
    env'.Sound (τ := τ) store ∧ env'.engine = env.engine := by
  obtain ⟨answer, hanswer⟩ := Engine.answer_blind h.engine query s
  obtain ⟨cache', hcache', hend⟩ := hanswer env.cache h.cache
  rw [run_ask, hend, Option.map_map] at hrun
  obtain ⟨p, -, hp⟩ := Option.map_eq_some_iff.1 hrun
  cases hp
  exact ⟨⟨h.engine, hcache'⟩, rfl⟩

/-- Environments on one engine answer alike, whatever they keep. -/
theorem Sound.reply_eq {env₁ env₂ : Environment m} (h₁ : env₁.Sound (τ := τ) store)
    (h₂ : env₂.Sound (τ := τ) store) (hengine : env₁.engine = env₂.engine) (query : Query) (s : τ) :
    run (env₁.reply query) s = run (env₂.reply query) s := by
  obtain ⟨answer, hanswer⟩ := Engine.answer_blind h₁.engine query s
  have hreply : ∀ env : Environment m, env.engine = env₁.engine → env.Sound (τ := τ) store →
      run (env.reply query) s = answer := by
    intro env heq henv
    have hcache : env₁.engine.Current (τ := τ) env.cache := heq ▸ henv.cache
    obtain ⟨cache', -, hend⟩ := hanswer env.cache hcache
    rw [reply, run_map, run_ask, heq, hend, Option.map_map, Option.map_map]
    exact congrFun Option.map_id answer
  rw [hreply env₁ rfl h₁, hreply env₂ hengine.symm h₂]

/-- The second environment has the engine of the first one, and keeps nothing. -/
def Renewed (env fresh : Environment m) : Prop := env.engine = fresh.engine ∧ fresh.cache = []

omit [Monad m] in
/-- What a registration makes of an engine does not depend on what is kept. -/
theorem Renewed.register {env fresh : Environment m} (h : Renewed env fresh)
    (registration : Registration m) :
    Renewed (env.register registration) (fresh.register registration) := by
  have hfunctions : ∀ functions : List (String × Function m),
      Renewed (functions.foldl (fun env f => env.addFunction f.1 f.2) env)
        (functions.foldl (fun env f => env.addFunction f.1 f.2) fresh) := fun functions =>
    List.foldl_rel h fun f _ _ _ hf => ⟨congrArg (Engine.addFunction · f.1 f.2) hf.1, hf.2⟩
  have hpasses : ∀ (passes : List (Pass m)) {env fresh : Environment m}, Renewed env fresh →
      Renewed (passes.foldl addPass env) (passes.foldl addPass fresh) := fun passes _ _ h =>
    List.foldl_rel h fun p _ _ _ hp => ⟨congrArg (Engine.addPass · p) hp.1, rfl⟩
  cases registration with
  | configure settings => exact ⟨congrArg (fun e => { e with settings := settings }) h.1, rfl⟩
  | addFunction name function => exact hfunctions [(name, function)]
  | addPass pass => exact hpasses [pass] h
  | addFunctions extension => exact hfunctions extension.functions
  | addPasses extension => exact hpasses extension.passes h
  | install extension => exact hpasses extension.passes (hfunctions extension.functions)

/-- A session keeps what is up to date, and leaves the engine that its registrations make. -/
theorem Sound.performAll {operations : List (Operation m)}
    (hpasses : ∀ r ∈ registrations operations, ∀ p ∈ r.passes, p.Quiet)
    {env fresh env' : Environment m} (h : env.Sound (τ := τ) store) (hfresh : Renewed env fresh)
    {s s' : τ} (hrun : run (env.performAll operations) s = some (env', s')) :
    env'.Sound (τ := τ) store ∧
      Renewed env' (fresh.registerAll (registrations operations)) := by
  induction operations generalizing env fresh s with
  | nil =>
    rw [Environment.performAll, run_pure] at hrun
    cases hrun
    exact ⟨h, hfresh⟩
  | cons operation rest ih =>
    rw [Environment.performAll, run_bind] at hrun
    obtain ⟨⟨env₁, s₁⟩, hfirst, hrest⟩ := Option.bind_eq_some_iff.1 hrun
    cases operation with
    | register registration =>
      rw [perform, run_pure] at hfirst
      cases hfirst
      have hrestPasses : ∀ r ∈ registrations rest, ∀ p ∈ r.passes, p.Quiet :=
        fun r hr => hpasses r (List.mem_cons_of_mem _ hr)
      have hregistered := h.register (hpasses registration List.mem_cons_self)
      exact ih hrestPasses hregistered (hfresh.register registration) hrest
    | ask query =>
      rw [perform, run_map] at hfirst
      obtain ⟨⟨⟨reply, _⟩, _⟩, hask, hp⟩ := Option.map_eq_some_iff.1 hfirst
      cases hp
      obtain ⟨h₁, hengine⟩ := h.ask hask
      exact ih hpasses h₁ ⟨hengine.trans hfresh.1, hfresh.2⟩ hrest

/-- What is kept cannot be seen. After any session over a store that never changes, with passes
    without effects, every query is answered, from every state, as an environment answers it that
    has the same engine through the same registrations in the same order and was asked nothing. So it
    is with any patience. -/
theorem reply_session (hstore : store.Finds) {patience : Nat} {operations : List (Operation m)}
    (hpasses : ∀ r ∈ registrations operations, ∀ p ∈ r.passes, p.Quiet) {env : Environment m}
    {s s' : τ}
    (hrun : run ((ofLoader store.lift patience).performAll operations) s = some (env, s')) :
    Renewed env ((ofLoader store.lift patience).registerAll (registrations operations)) ∧
      ∀ query (t : τ), run (env.reply query) t =
        run (((ofLoader store.lift patience).registerAll (registrations operations)).reply query)
          t := by
  have hsound : (ofLoader store.lift patience : Environment m).Sound (τ := τ) store :=
    sound_ofLoader hstore patience
  obtain ⟨h, hfresh⟩ := Sound.performAll hpasses hsound ⟨rfl, rfl⟩ hrun
  exact ⟨hfresh, h.reply_eq (hsound.registerAll hpasses) hfresh.1⟩

end Environment

end Sessions

/-- Given sources are there. -/
theorem Loader.memory_finds (templates : Dict String) :
    (Loader.memory templates : Loader Id).Finds := by
  intro name source h
  have hsource : lookUp templates name = .ok source := h
  have hhas : (memory templates : Loader Id).has name = isSource (lookUp templates name) :=
    memory_has templates name
  rw [hhas, hsource]
  rfl

namespace Environment

/-- Templates of which one is broken and one includes the first that is there. -/
def notes : Dict String :=
  [("broken", Engine.tag "include 'note'" ++ Engine.tag "block"),
    ("note", "note"),
    ("page", Engine.tag "include ['none', 'old']" ++ Engine.tag "include 'broken'")]

/-- A session in which a rendering fails after it has kept some templates, and the hooks of a chain
    come in later. -/
def noted : List (Operation Id) :=
  [.ask (.render "page" []), .register (.configure { strictVariables := true }),
    .ask (.load "note"), .ask (.load "broken"), .ask (.has "old"),
    .register (.install (Override.extension ⟨[.table [("old", "note")]]⟩)),
    .ask (.render "page" []), .register (.addFunction "twice" fun values => .ok (.array values))]

/-- The environment after the session. -/
def notedEnvironment : Environment Id := (ofLoader (Loader.memory notes).lift).performAll noted

/-- The environment after its registrations alone. -/
def freshEnvironment : Environment Id :=
  (ofLoader (Loader.memory notes).lift).registerAll (registrations noted)

theorem reply_session_noted :
    notedEnvironment.cache.length = 2 ∧ Renewed notedEnvironment freshEnvironment ∧
      ∀ query, notedEnvironment.reply query = freshEnvironment.reply query := by
  have hpasses : ∀ r ∈ registrations noted, ∀ p ∈ r.passes, p.Quiet :=
    fun _ _ p _ => Pass.Quiet.of_id p
  have hrun : run ((ofLoader (Loader.memory notes).lift).performAll noted) () =
      some (notedEnvironment, ()) := rfl
  obtain ⟨hrenewed, hreply⟩ := reply_session (Loader.memory_finds notes) hpasses hrun
  refine ⟨by decide +kernel, hrenewed, fun query => ?_⟩
  have hsome : some (notedEnvironment.reply query, ()) = some (freshEnvironment.reply query, ()) :=
    hreply query ()
  exact (Prod.mk.inj (Option.some.inj hsome)).1

end Environment

end Stencil
