import Stencil.Proofs.Engines
import Stencil.Proofs.Unbounded

/-!
# Rendering ends

Definitions of templates in which no block contains a block of its own name never lead around a
circle. So the rendering without a bound on the definitions that lead from one to the next ends as
the one with any patience does, and templates that include, embed or extend each other in circles run
into the depth limit.

Results:
* `Host.access_keeps`: hosts of tidy templates insert nothing else.
* `Engine.render_ends`: every rendering of a template of a tidy store ends.
-/

namespace Stencil

/-! ## Hosts -/

namespace Host

variable {n : Type → Type} [Monad n] {τ : Type} [Runs n τ] {S : τ → τ → Prop} {host : Host n}

/-- What an include stands for has no circles of its own. -/
theorem target?_keeps (hf : ∀ name, FunctionFollows (fun _ => False) S host host name)
    (ht : TemplatesFollow (fun _ => False) S (fun t u => t = u ∧ t.Tidy) host host)
    (context : Context) {owner : Tree} (howner : owner.Tidy) (ignoreMissing : Bool)
    (target : Target) :
    Follows (fun _ => False) S (fun i j => i = j ∧ ∀ x, i = some x → x.1.Fresh ∧ x.2.Tidy)
      (host.target? context owner ignoreMissing target)
      (host.target? context owner ignoreMissing target) := by
  cases target with
  | named expr =>
    have hfound := included?_follows rfl (find_follows ht) (fun _ h => h) context ignoreMissing
      fun name (_ : name ∈ expr.calls) => hf name
    refine hfound.bind ?_
    intro found found' hrel
    cases hrel with
    | none => exact .pure ⟨rfl, fun x hx => by cases hx⟩
    | some htree =>
      obtain ⟨rfl, htidy⟩ := htree
      refine .pure ⟨rfl, fun x hx => ?_⟩
      cases hx
      exact ⟨htidy.1, htidy⟩
  | embedded filename index =>
    rw [target?]
    cases htree : owner.embedded[index]? with
    | none => exact .throw _
    | some tree =>
      refine .pure ⟨rfl, fun x hx => ?_⟩
      cases hx
      exact ⟨howner.2 tree (List.mem_of_getElem? htree), howner⟩

/-- A host whose functions and templates do the same from states that belong together, and whose
    templates are tidy. -/
theorem access_keeps (hf : ∀ name, FunctionFollows (fun _ => False) S host host name)
    (ht : TemplatesFollow (fun _ => False) S (fun t u => t = u ∧ t.Tidy) host host) :
    host.access.Keeps (fun s => S s s) fun tree owner => tree.Fresh ∧ owner.Tidy where
  print context expr := by
    have hprint := print_follows rfl context fun name (_ : name ∈ expr.calls) => hf name
    exact (hprint.mono fun a b hab => ⟨hab, trivial⟩).preserves
  parent context expr := by
    have hparent := parent_follows rfl (find_follows ht) context
      fun name (_ : name ∈ expr.calls) => hf name
    exact (hparent.mono fun found _ h => ⟨h.1, h.2.1, h.2⟩).preserves
  insertion? context _ owner target clauses howner := by
    refine Follows.preserves ?_
    refine (target?_keeps hf ht context howner.2 clauses.ignoreMissing target).bind ?_
    rintro found _ ⟨rfl, hfound⟩
    cases found with
    | none => exact .pure ⟨rfl, fun i hi => by cases hi⟩
    | some p =>
      refine (passed_follows rfl context fun e _ name _ => hf name).bind ?_
      rintro bindings _ rfl
      refine .pure ⟨rfl, fun i hi => ?_⟩
      cases hi
      exact hfound p rfl

end Host

/-! ## Engines -/

/-- A store all of whose templates are tidy. -/
def Loader.Tidy (store : Loader Id) : Prop :=
  ∀ name source tree, store.source name = .ok source →
    Tree.parse name source.toList = .ok tree → tree.Tidy

/-- Given sources are tidy if each of them is. -/
theorem Loader.memory_tidy {templates : Dict String}
    (h : ∀ p ∈ templates, (Tree.parse p.1 p.2.toList).toOption.all (decide ·.Tidy)) :
    (Loader.memory templates : Loader Id).Tidy :=
  fun _ _ _ hsource hparse => memory_forall h hsource hparse

theorem Stored.tidy {store : Loader Id} {overridden : Bool} {template : Template}
    (h : Stored store overridden template) (hstore : store.Tidy) : template.tree.Tidy := by
  obtain ⟨source, tree, hsource, htree, htemplate⟩ := h
  rw [htemplate]
  exact (hstore _ _ _ hsource htree).compiled overridden

namespace Engine

section Yields

variable {m : Type → Type} [Monad m] {τ : Type} [Runs m τ]
variable {e : Engine m} {store : Loader Id} {overridden : Bool}

theorem host_access_keeps (he : e.passes = standardPasses overridden)
    (hloader : e.loader = store.lift) (htidy : store.Tidy) :
    e.host.access.Keeps (fun s : Cache × τ => Storing store overridden s s)
      fun tree owner => tree.Fresh ∧ owner.Tidy :=
  Host.access_keeps (fun _ => hostOf_function_follows rfl)
    (host_templates_follow he hloader fun _ h => h.tidy htidy)

theorem templateYields (he : e.passes = standardPasses overridden) (hloader : e.loader = store.lift)
    (htidy : store.Tidy) {template : Template} (htemplate : template.tree.Tidy) {context : Context}
    {s s' : Cache × τ} {r : Except Failure String} (hs : Storing store overridden s s)
    (h : run (e.renderTemplate template context) s = some (r, s')) :
    Storing store overridden s' s' ∧ e.TemplateYields template context s r s' := by
  have hrenders : Access.Renders e.host.access (fun s : Cache × τ => Storing store overridden s s)
      (fun _ => False) (.tree 0 context [] template.tree template.tree)
      (e.host.render e.patience template.tree context) :=
    .tree (host_access_keeps he hloader htidy) rfl (.of_fresh fun _ _ h => h.1) .nil
      ⟨htemplate.1, htemplate⟩
  obtain ⟨hs', ⟨_, -, hnever⟩ | hyields⟩ := hrenders hs h
  · exact hnever.elim
  · exact ⟨hs', hyields⟩

theorem yields (he : e.passes = standardPasses overridden) (hloader : e.loader = store.lift)
    (htidy : store.Tidy) {name : String} {context : Context} {s s' : Cache × τ}
    {r : Except Failure String} (hs : Storing store overridden s s)
    (h : run (e.render name context) s = some (r, s')) :
    Storing store overridden s' s' ∧ e.Yields name context s r s' := by
  have hsteps : outcome (Rendering.ofAction (e.load name) >>= fun template =>
      Rendering.ofAction (e.renderTemplate template context)) s = some (r, s') := h
  rw [outcome_bind] at hsteps
  obtain ⟨⟨template, s₁⟩, hload, hrest⟩ := Option.bind_eq_some_iff.1 hsteps
  obtain ⟨hs₁, hstored⟩ := (load_follows he hloader name).preserves hs hload
  cases template with
  | error failure =>
    cases hrest
    exact ⟨hs₁, .notLoaded hload⟩
  | ok template =>
    have htemplate : template.tree.Tidy := (hstored template rfl).tidy htidy
    obtain ⟨hs', hyields⟩ := templateYields he hloader htidy htemplate hs₁ hrest
    exact ⟨hs', .loaded hload hyields⟩

end Yields

/-- A step with a cache that returns, as a run. -/
theorem run_of_eq {σ α : Type} {x : StateT Cache (StateM σ) α} {cache cache' : Cache} {s s' : σ}
    {a : α} (h : (x.run cache).run s = ((a, cache'), s')) :
    run x (cache, s, ()) = some (a, cache', s', ()) := by
  rw [run_stateT, run_stateT, h]
  rfl

/-- Every rendering ends: of a template by its name, and of a template that was compiled apart from
    the store, after any other renderings. It ends as it does without a bound on the definitions
    that lead from one to the next. -/
theorem render_ends {σ : Type} {e : Engine (StateM σ)} {store : Loader Id} {overridden : Bool}
    (he : e.passes = standardPasses overridden) (hloader : e.loader = store.lift)
    (htidy : store.Tidy) {cache : Cache} (hcache : ∀ p ∈ cache, Stored store overridden p.2)
    (context : Context) (s : σ) :
    (∀ name, ∃ result cache' s', e.Yields name context (cache, s, ()) result (cache', s', ()) ∧
      ((e.render name context).run cache).run s = ((result, cache'), s') ∧
      ∀ p ∈ cache', Stored store overridden p.2) ∧
    ∀ (name source : String) (tree : Tree), Tree.parse name source.toList = .ok tree →
      tree.Tidy → ∃ result cache' s',
        e.TemplateYields ⟨name, tree.compiled overridden⟩ context (cache, s, ()) result
          (cache', s', ()) ∧
        ((e.renderTemplate ⟨name, tree.compiled overridden⟩ context).run cache).run s =
          ((result, cache'), s') ∧
        ∀ p ∈ cache', Stored store overridden p.2 := by
  have hs : Storing store overridden (cache, s, ()) (cache, s, ()) := storing_self hcache (s, ())
  refine ⟨fun name => ?_, fun name source tree _ htree => ?_⟩
  · rcases hrun : ((e.render name context).run cache).run s with ⟨⟨result, cache'⟩, s'⟩
    obtain ⟨hs', hyields⟩ := yields he hloader htidy hs (run_of_eq hrun)
    exact ⟨result, cache', s', hyields, rfl, hs'.eq.2⟩
  · have htemplate : (Template.mk name (tree.compiled overridden)).tree.Tidy :=
      htree.compiled overridden
    rcases hrun : ((e.renderTemplate ⟨name, tree.compiled overridden⟩ context).run cache).run s with
      ⟨⟨result, cache'⟩, s'⟩
    obtain ⟨hs', hyields⟩ := templateYields he hloader htidy htemplate hs (run_of_eq hrun)
    exact ⟨result, cache', s', hyields, rfl, hs'.eq.2⟩

/-- Two templates that include and extend each other in circles, with blocks that lead from one
    template to the other and back. -/
def circles : Dict String :=
  [("a", tag "block x" ++ tag "block y" ++ tag "endblock" ++ tag "endblock" ++ tag "include 'b'"),
    ("b", tag "extends 'a'" ++ tag "block y" ++ tag "block z" ++ tag "endblock" ++
      tag "endblock" ++ tag "block z" ++ tag "embed 'b'" ++ tag "endembed" ++ tag "endblock")]

/-- An engine for them that also renames one of them. -/
def circlesEngine : Engine (StateM Nat) :=
  (Override.environment (Loader.memory circles).lift ⟨[.table [("a", "b")]]⟩).engine

theorem render_ends_circles :
    ∃ result cache' s', circlesEngine.Yields "b" [] ([], 0, ()) result (cache', s', ()) := by
  have hpasses : circlesEngine.passes = standardPasses true :=
    Environment.passes_install (Environment.passes_ofLoader _) _
  have hloader : circlesEngine.loader = (Loader.memory circles).lift := rfl
  have htidy : (Loader.memory circles).Tidy := Loader.memory_tidy (by decide +kernel)
  have hkept : ∀ p ∈ ([] : Cache), Stored (Loader.memory circles) true p.2 := by simp
  obtain ⟨result, cache', s', hyields, -⟩ := (render_ends hpasses hloader htidy hkept [] 0).1 "b"
  exact ⟨result, cache', s', hyields⟩

end Engine

end Stencil
