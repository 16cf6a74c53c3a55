import Stencil.Proofs.Direct
import Stencil.Proofs.Embeds

/-!
# Engines that keep nothing

An engine whose functions, passes and loader have no effects renders the same text whether it keeps
the templates it compiles or makes the page of a source anew each time. A cache shows only that a
template is there, and templates that are found were there before.

Results:
* `Engine.Holds.insert`: what is kept stays what loading would give.
* `Engine.find_uncached`: the first template that is there, with and without a cache.
* `Engine.renderTemplate_uncached`: rendering a compiled template.
* `Engine.renderSource_uncached`, `Engine.render_uncached`: rendering from an empty cache.
-/

namespace Stencil

namespace Engine

variable (e : Engine Id) (overridden : Bool) (there : String → Bool)

/-- The engine as a host that makes a page anew whenever one is asked for. The last argument says
    which templates are there. -/
def uncached : Host Id Page where
  settings := e.settings
  function? := Dict.get? e.functions
  has name := there name
  load name := (e.loadPage overridden name).run

/-- Such a host, with the templates that the loader has. -/
abbrev pages : Host Id Page := e.uncached overridden fun name => Id.run (e.loader.has name)

/-- All that is kept is what loading would give, and the templates that are kept or known to the
    loader are the given ones. -/
structure Holds (cache : Cache) : Prop where
  kept : ∀ name template, Dict.get? cache name = some template →
    (e.loadFresh name).run = .ok template
  there : ∀ name, (Dict.contains cache name || Id.run (e.loader.has name)) = there name

/-- A state with such a cache. -/
def Holding (s : Cache × Unit) (_ : Unit) : Prop := e.Holds there s.1

variable {e overridden there}

theorem holds_nil : e.Holds (fun name => Id.run (e.loader.has name)) [] where
  kept _ _ h := by cases h
  there _ := rfl

/-- A template that is loaded first is there from then on. -/
theorem holds_single {name : String} {template : Template}
    (hload : (e.loadFresh name).run = .ok template) :
    e.Holds (fun other => other = name || Id.run (e.loader.has other)) [(name, template)] where
  kept other kept hkept := by
    simp only [Dict.get?] at hkept
    split at hkept
    · next hother =>
      cases hkept
      rw [hother, hload]
    · cases hkept
  there other := by
    by_cases hother : other = name <;> simp [Dict.contains, Dict.get?, hother]

/-- Keeping one more of the given templates. -/
theorem Holds.insert {cache : Cache} (h : e.Holds there cache) {name : String}
    {template : Template} (hload : (e.loadFresh name).run = .ok template)
    (hname : there name = true) : e.Holds there (Dict.insert cache name template) where
  kept other kept hkept := by
    by_cases hother : other = name
    · subst hother
      rw [Dict.get?_insert_self] at hkept
      cases hkept
      exact hload
    · rw [Dict.get?_insert_of_ne _ _ hother] at hkept
      exact h.kept other kept hkept
  there other := by
    by_cases hother : other = name
    · subst hother
      simp [Dict.contains, Dict.get?_insert_self, hname]
    · have hcontains : Dict.contains (Dict.insert cache name template) other =
          Dict.contains cache other := by
        simp [Dict.contains, Dict.get?_insert_of_ne _ _ hother]
      rw [hcontains]
      exact h.there other

/-! ## Templates -/

theorem function_uncached (name : String) :
    FunctionFollows (fun _ => False) (e.Holding there) e.host (e.uncached overridden there)
      name := by
  unfold FunctionFollows FunctionCompares
  simp only [host, hostOf, uncached]
  cases Dict.get? e.functions name with
  | none => exact trivial
  | some f =>
    intro values
    refine .of_outcome ?_
    rintro ⟨cache, _⟩ _ hcache
    exact ⟨_, _, (cache, ()), (), rfl, rfl, hcache, .refl _⟩

theorem has_uncached (name : String) :
    Follows (fun _ => False) (e.Holding there)
      (fun answer answer' => answer = there name ∧ answer' = there name)
      (ExceptT.lift (e.host.has name) : Rendering (StateT Cache Id) Bool)
      (ExceptT.lift ((e.uncached overridden there).has name) : Rendering Id Bool) := by
  refine .of_outcome ?_
  rintro ⟨cache, _⟩ _ hcache
  have hname := hcache.there name
  have hrun : run (available e.loader.has name : StateT Cache Id Bool) (cache, ()) =
      some (there name, cache, ()) := by
    cases hcontains : Dict.contains cache name with
    | true =>
      rw [run_available_of_kept hcontains, ← hname, hcontains]
      rfl
    | false =>
      rw [run_available_of_new hcontains, ← hname, hcontains]
      rfl
  refine ⟨.ok (there name), .ok (there name), (cache, ()), (), ?_, rfl, hcache, .ok ⟨rfl, rfl⟩⟩
  rw [outcome_lift]
  exact congrArg (Option.map _) hrun

/-- The first of some templates that is there. -/
theorem firstOf_uncached (names : List String) :
    Follows (fun _ => False) (e.Holding there)
      (fun found found' => found = found' ∧ ∀ name, found = some name → there name = true)
      (ExceptT.lift (e.host.firstOf names) : Rendering (StateT Cache Id) (Option String))
      (ExceptT.lift ((e.uncached overridden there).firstOf names) :
        Rendering Id (Option String)) := by
  induction names with
  | nil =>
    refine Follows.congr (.pure ⟨rfl, ?_⟩) (outcome_lift_pure none) (outcome_lift_pure none)
    intro name h
    cases h
  | cons name rest ih =>
    refine Follows.congr ((has_uncached name).bind ?_) (outcome_lift_bind _ _)
      (outcome_lift_bind _ _)
    rintro _ _ ⟨rfl, rfl⟩
    cases hname : there name with
    | true =>
      refine Follows.congr (.pure ⟨rfl, ?_⟩) (outcome_lift_pure _) (outcome_lift_pure _)
      rintro _ ⟨⟩
      exact hname
    | false => exact ih

/-- Loading a template and making its page end alike. -/
theorem loadPage_ends (he : e.passes = standardPasses overridden) (name : String) :
    Ends (CompiledFrom overridden) (e.loadFresh name).run (e.loadPage overridden name).run := by
  have hfresh : outcome (e.loadFresh name) () = some ((e.loadFresh name).run, ()) := rfl
  rcases loadFresh_follows he name rfl hfresh with ⟨_, _, hexcuse⟩ | ⟨r, _, hpage, _, hends⟩
  · exact hexcuse.elim
  · cases hpage
    exact hends

/-- Loading what is not kept yet. -/
theorem run_load_of_new {cache : Cache} {name : String} (h : Dict.get? cache name = none) :
    run (e.load name) (cache, ()) = match (e.loadFresh name).run with
      | .ok template => some (.ok template, Dict.insert cache name template, ())
      | .error failure => some (.error failure, cache, ()) := by
  have hrun : run (e.load name) (cache, ()) = _ := run_keep_of_new h ()
  have hfresh : outcome (e.loadFresh name) () = some ((e.loadFresh name).run, ()) := rfl
  rw [hrun, hfresh]
  cases (e.loadFresh name).run <;> rfl

/-- A template that is kept or compiled, and the page that is made anew. -/
theorem load_uncached (he : e.passes = standardPasses overridden) {name : String}
    (hname : there name = true) :
    Follows (fun _ => False) (e.Holding there) (CompiledFrom overridden)
      (.ofAction (e.load name) : Rendering (StateT Cache Id) Template)
      (e.loadPage overridden name) := by
  rintro ⟨cache, _⟩ _ hcache r s' hx
  have hpage : outcome (e.loadPage overridden name) () =
      some ((e.loadPage overridden name).run, ()) := rfl
  have hends := loadPage_ends he name
  rw [outcome_ofAction] at hx
  cases hkept : Dict.get? cache name with
  | some template =>
    have hrun : run (e.load name) (cache, ()) = _ := run_keep_of_kept hkept ()
    rw [hrun] at hx
    cases hx
    rw [hcache.kept name template hkept] at hends
    exact .inr ⟨_, (), hpage, hcache, hends⟩
  | none =>
    rw [run_load_of_new hkept] at hx
    cases hload : (e.loadFresh name).run with
    | ok template =>
      rw [hload] at hx hends
      cases hx
      exact .inr ⟨_, (), hpage, hcache.insert hload hname, hends⟩
    | error failure =>
      rw [hload] at hx hends
      cases hx
      exact .inr ⟨_, (), hpage, hcache, hends⟩

theorem find_uncached (he : e.passes = standardPasses overridden) (names : List String) :
    Follows (fun _ => False) (e.Holding there) (fun tree page => tree.Shows tree page)
      (e.host.find names) ((e.uncached overridden there).find names) := by
  refine (firstOf_uncached names).bind ?_
  rintro found _ ⟨rfl, hthere⟩
  cases found with
  | none => exact .throw _
  | some name =>
    have hload : Follows (fun _ => False) (e.Holding there) (fun tree page => tree.Shows tree page)
        (.ofAction (Except.map Template.tree <$> e.load name) : Rendering (StateT Cache Id) Tree)
        (.ofAction (Except.map id <$> (e.loadPage overridden name).run) : Rendering Id Page) :=
      (load_uncached he (hthere name rfl)).map_ok fun template page h => h.shows
    rw [Except.map_id, id_map] at hload
    exact hload

theorem matches_uncached (he : e.passes = standardPasses overridden) :
    Access.Matches (e.Holding there) e.host (e.uncached overridden there) where
  settings := rfl
  functions name := function_uncached name
  find names := find_uncached he names

/-! ### What loading a page gives -/

section Loading

variable {store : Loader Id}

theorem loadPage_of_fault (hloader : e.loader = store.lift) {name : String} {fault : LoadFault}
    (h : store.source name = .error fault) :
    (e.loadPage overridden name).run = .error (failureOfLoad name fault) := by
  unfold loadPage
  rw [hloader]
  simp only [Loader.lift, h]
  rfl

/-- The page of a source that the loader gives: the source is no template, the template is refused,
    or the page is the one of the source. -/
theorem loadPage_of_source (he : e.passes = standardPasses overridden)
    (hloader : e.loader = store.lift) {name source : String} (h : store.source name = .ok source) :
    match Tree.parse name source.toList with
    | .error faults => (e.loadPage overridden name).run = .error (.invalidSource name source faults)
    | .ok tree => (Fine overridden tree ∧
        (e.loadPage overridden name).run = .ok (Page.ofSource overridden name source)) ∨
      (¬ Fine overridden tree ∧
        ∃ fault, (e.loadPage overridden name).run = .error (.invalidTree name fault)) := by
  have hload : ∀ {result}, outcome (e.compile name source) () = some (result, ()) →
      (e.loadPage overridden name).run =
        result.map fun template => Page.ofSource overridden template.name source := by
    intro result hresult
    obtain rfl : (e.compile name source).run = result :=
      congrArg Prod.fst (Option.some.inj hresult)
    unfold loadPage
    rw [hloader]
    simp only [Loader.lift, h]
    change (e.compile name source >>= fun template =>
      pure (Page.ofSource overridden template.name source)).run = _
    rw [ExceptT.run_bind]
    cases (e.compile name source).run <;> rfl
  cases htree : Tree.parse name source.toList with
  | error faults => exact hload (compile_of_faults htree ())
  | ok tree =>
    rcases compile_of_tree he htree () with ⟨hrefused, fault, hfault⟩ | ⟨hfine, hok⟩
    · exact .inr ⟨hrefused, fault, hload hfault⟩
    · exact .inl ⟨hfine, hload hok⟩

end Loading

/-! ## Renderings -/

/-- A compiled template is rendered as its page is without a cache. -/
theorem renderTemplate_uncached (he : e.passes = standardPasses overridden) {template : Template}
    {page : Page} (h : CompiledFrom overridden template page) (context : Context) :
    Follows (fun _ => False) (e.Holding there) Eq
      (.ofAction (e.renderTemplate template context) : Rendering (StateT Cache Id) String)
      (Page.render (e.uncached overridden there) e.patience page context) :=
  Access.renderTree_follows (matches_uncached he) _ _ .nil h.shows context

/-- A step without a monad below the cache ends in one way only. -/
theorem run_eq_of_outcome {α : Type} {x : Rendering (StateT Cache Id) α} {cache cache' : Cache}
    {r : Except Failure α} (h : outcome x (cache, ()) = some (r, cache', ())) :
    x.run.run cache = (r, cache') := by
  have hx : outcome x (cache, ()) = some ((x.run.run cache).1, (x.run.run cache).2, ()) := rfl
  rw [hx] at h
  cases h
  rfl

/-- From a cache that is up to date, what follows a step without a cache ends like that. -/
theorem outcome_of_uncached {α : Type} {x : Rendering (StateT Cache Id) α} {y : Rendering Id α}
    (h : Follows (fun _ => False) (e.Holding there) Eq x y) {cache : Cache}
    (hcache : e.Holds there cache) :
    ∃ cache', outcome x (cache, ()) = some (y.run, cache', ()) := by
  have hx : outcome x (cache, ()) = some ((x.run.run cache).1, (x.run.run cache).2, ()) := rfl
  have hholding : e.Holding there (cache, ()) () := hcache
  obtain ⟨_, hy, -⟩ := h.eq hholding hx
  have hresult : y.run = (x.run.run cache).1 := congrArg Prod.fst (Option.some.inj hy)
  exact ⟨_, by rw [hx, hresult]⟩

variable (e overridden)

/-- The text of the page of a source, without a cache. -/
def renderSourceUncached (name source : String) (context : Context) : Rendering Id String := do
  let _ ← e.compile name source
  Page.render (e.pages overridden) e.patience (Page.ofSource overridden name source) context

/-- The text of the page of a template by its name, without a cache. -/
def renderUncached (name : String) (context : Context) : Rendering Id String := do
  let page ← e.loadPage overridden name
  Page.render (e.uncached overridden fun other => other = name || Id.run (e.loader.has other))
    e.patience page context

variable {e overridden}

theorem renderSourceUncached_of_faults {name source : String} {faults : List Syntax.Fault}
    (h : Tree.parse name source.toList = .error faults) (context : Context) :
    (e.renderSourceUncached overridden name source context).run =
      .error (.invalidSource name source faults) := by
  have hcompile : outcome (e.compile name source) () = _ := compile_of_faults h ()
  exact congrArg Prod.fst (Option.some.inj (outcome_bind_error hcompile _))

theorem renderSourceUncached_of_tree (he : e.passes = standardPasses overridden)
    {name source : String} {tree : Tree} (h : Tree.parse name source.toList = .ok tree)
    (context : Context) :
    (¬ Fine overridden tree ∧
      ∃ fault, (e.renderSourceUncached overridden name source context).run =
        .error (.invalidTree name fault)) ∨
    (Fine overridden tree ∧ (e.renderSourceUncached overridden name source context).run =
      (Page.render (e.pages overridden) e.patience (Page.ofSource overridden name source)
        context).run) := by
  rcases compile_of_tree he h () with ⟨hrefused, fault, hcompile⟩ | ⟨hfine, hcompile⟩
  · exact .inl ⟨hrefused, fault,
      congrArg Prod.fst (Option.some.inj (outcome_bind_error hcompile _))⟩
  · exact .inr ⟨hfine, congrArg Prod.fst (Option.some.inj (outcome_bind_ok hcompile _))⟩

/-- From an empty cache, a source is rendered as its page is without a cache. -/
theorem renderSource_uncached (he : e.passes = standardPasses overridden) (name source : String)
    (context : Context) :
    ∃ cache, (e.renderSource name source context).run.run [] =
      ((e.renderSourceUncached overridden name source context).run, cache) := by
  have hcompile : Follows (fun _ => False) (e.Holding fun other => Id.run (e.loader.has other))
      (fun template _ => CompiledFrom overridden template (Page.ofSource overridden name source))
      (.ofAction (StateT.lift (e.compile name source).run) : Rendering (StateT Cache Id) Template)
      (e.compile name source) := by
    refine .of_outcome ?_
    rintro ⟨cache, _⟩ _ hcache
    refine ⟨(e.compile name source).run, _, (cache, ()), (), rfl, rfl, hcache, ?_⟩
    cases hrun : (e.compile name source).run with
    | error failure => exact .error failure
    | ok template =>
      have houtcome : outcome (e.compile name source) () = some (.ok template, ()) := by
        rw [← hrun]; rfl
      exact .ok (.of_compile he houtcome)
  have hrender : Follows (fun _ => False) (e.Holding fun other => Id.run (e.loader.has other)) Eq
      (e.renderSource name source context)
      (e.renderSourceUncached overridden name source context) :=
    hcompile.bind fun template _ h => renderTemplate_uncached he h context
  obtain ⟨cache, hrun⟩ := outcome_of_uncached hrender holds_nil
  exact ⟨cache, run_eq_of_outcome hrun⟩

/-- From an empty cache, a template by its name is rendered as its page is without a cache. -/
theorem render_uncached (he : e.passes = standardPasses overridden) (name : String)
    (context : Context) :
    ∃ cache, (e.render name context).run [] =
      ((e.renderUncached overridden name context).run, cache) := by
  have hends := loadPage_ends he name
  have hnew : run (e.load name) ([], ()) = _ := run_load_of_new rfl
  have hpage : outcome (e.loadPage overridden name) () =
      some ((e.loadPage overridden name).run, ()) := rfl
  revert hends hnew hpage
  generalize hfresh : (e.loadFresh name).run = result
  generalize (e.loadPage overridden name).run = result'
  intro hends hnew hpage
  cases hends with
  | error failure =>
    have hrun : outcome (.ofAction (e.render name context) : Rendering (StateT Cache Id) String)
        ([], ()) = some (.error failure, [], ()) := outcome_bind_error hnew _
    have huncached : outcome (e.renderUncached overridden name context) () =
        some (.error failure, ()) := outcome_bind_error hpage _
    refine ⟨[], (run_eq_of_outcome hrun).trans (Prod.ext ?_ rfl)⟩
    exact (congrArg Prod.fst (Option.some.inj huncached)).symm
  | @ok template page hcompiled =>
    have hholds : e.Holds (fun other => other = name || Id.run (e.loader.has other))
        (Dict.insert [] name template) := holds_single hfresh
    obtain ⟨cache, hcache⟩ :=
      outcome_of_uncached (renderTemplate_uncached he hcompiled context) hholds
    have hrun : outcome (.ofAction (e.render name context) : Rendering (StateT Cache Id) String)
        ([], ()) = some (_, cache, ()) := (outcome_bind_ok hnew _).trans hcache
    have huncached : outcome (e.renderUncached overridden name context) () = _ :=
      outcome_bind_ok hpage _
    refine ⟨cache, (run_eq_of_outcome hrun).trans (Prod.ext ?_ rfl)⟩
    exact (congrArg Prod.fst (Option.some.inj huncached)).symm

/-- A source renders to a text from an empty cache. -/
def RendersSource (e : Engine Id) (name source : String) (context : Context) (output : String) :
    Prop :=
  ∃ cache, (e.renderSource name source context).run.run [] = (.ok output, cache)

theorem rendersSource_iff {e : Engine Id} {name source : String} {context : Context}
    {output : String} : e.RendersSource name source context output ↔
      ((e.renderSource name source context).run.run []).1 = .ok output :=
  ⟨fun ⟨_, h⟩ => by rw [h], fun h => ⟨_, Prod.ext h rfl⟩⟩

theorem rendersSource_iff_uncached {e : Engine Id} {overridden : Bool}
    (he : e.passes = standardPasses overridden) {name source : String} {context : Context}
    {output : String} : e.RendersSource name source context output ↔
      (e.renderSourceUncached overridden name source context).run = .ok output := by
  obtain ⟨cache, hrun⟩ := renderSource_uncached he name source context
  rw [rendersSource_iff, hrun]

end Engine

end Stencil
