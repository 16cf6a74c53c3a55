import Stencil.Proofs.Hooks

/-!
# The meaning of overrides

An engine with the extension of a chain compiles templates to trees with hooks and renders these. It
does what the interpreter without hooks does with the trees that no hook was put into: it asks the
providers of the chain the same questions in the same order, and ends with the same text or failure.

Results:
* `Tree.fine_of_parse`: a template with a name is not refused when it is routed.
* `Engine.compile_routed`, `Engine.loadFresh_routed`: compiling and loading.
* `Engine.Overrides.render`, `Engine.Overrides.renderSource`: rendering, in any monad.
* `Engine.render_routed`, `Engine.renderSource_routed`: rendering templates with names.
* `Engine.render_overridden`: rendering with a record of the questions.
-/

namespace Stencil

open Override

/-! ## Names of embeds -/

namespace Item

open Pass Node

mutual

theorem assemble_accepts {name : String} (hname : name ≠ "") : ∀ (item : Item) (d : Draft),
    Accepts routeNode (Tree.tagsInAll d.embedded) →
      Accepts routeNode (Tree.tagsInAll (item.assemble name d).2.embedded) ∧
        Accepts routeNode (tagsIn (item.assemble name d).1.toList)
  | .text .., d, h => by
    simp only [assemble]
    exact ⟨h, accepts_nil.2 trivial⟩
  | .print .., d, h => by
    simp only [assemble]
    exact ⟨h, accepts_tag.2 ⟨_, rfl⟩⟩
  | .block span blockName body, d, h => by
    obtain ⟨hembedded, hbody⟩ := assembleAll_accepts hname body d h
    simp only [assemble]
    refine ⟨hembedded, ?_⟩
    simpa only [Option.toList, tagsIn, tags, List.append_nil] using hbody
  | .«include» .., d, h => by
    simp only [assemble]
    exact ⟨h, accepts_tag.2 ⟨_, rfl⟩⟩
  | .embed span target clauses body, d, h => by
    obtain ⟨hembedded, hbody⟩ := assembleAll_accepts hname body d h
    have hfilename : name.isEmpty = false := by simpa using hname
    simp only [assemble, Draft.checkBody]
    refine ⟨?_, accepts_tag.2 ⟨_, by simp only [routeNode, hfilename]; rfl⟩⟩
    rw [Tree.tagsInAll_append, accepts_append]
    refine ⟨hembedded, ?_⟩
    simpa only [Tree.tagsInAll, Tree.tags, List.nil_append, List.append_nil] using hbody
  | .«extends» .., d, h => by
    simp only [assemble, Draft.report]
    exact ⟨h, accepts_nil.2 trivial⟩

theorem assembleAll_accepts {name : String} (hname : name ≠ "") : ∀ (items : List Item) (d : Draft),
    Accepts routeNode (Tree.tagsInAll d.embedded) →
      Accepts routeNode (Tree.tagsInAll (assembleAll name items d).2.embedded) ∧
        Accepts routeNode (tagsIn (assembleAll name items d).1)
  | [], d, h => by
    simp only [assembleAll]
    exact ⟨h, accepts_nil.2 trivial⟩
  | item :: rest, d, h => by
    obtain ⟨hembedded, hitem⟩ := assemble_accepts hname item d h
    obtain ⟨hembedded', hrest⟩ := assembleAll_accepts hname rest (item.assemble name d).2 hembedded
    simp only [assembleAll]
    rw [tagsIn_append, accepts_append]
    exact ⟨hembedded', hitem, hrest⟩

end

theorem assembleTop_accepts {name : String} (hname : name ≠ "") (parent : Option Expr)
    (items : List Item) (d : Draft) (h : Accepts routeNode (Tree.tagsInAll d.embedded)) :
    Accepts routeNode (Tree.tagsInAll (assembleTop name parent items d).2.embedded) ∧
      Accepts routeNode (tagsIn (assembleTop name parent items d).1.2) := by
  induction items generalizing parent d with
  | nil => exact ⟨h, accepts_nil.2 trivial⟩
  | cons item rest ih =>
    cases item with
    | «extends» span expr =>
      cases parent with
      | none => exact ih (some expr) d h
      | some first => exact ih (some first) (d.report span .repeatedExtends) h
    | _ =>
      obtain ⟨hembedded, hnode⟩ := assemble_accepts hname _ d h
      obtain ⟨hembedded', hrest⟩ := ih parent _ hembedded
      simp only [assembleTop, tagsIn_append, accepts_append]
      exact ⟨hembedded', hnode, hrest⟩

end Item

/-- A template with a name is not refused when it is routed. -/
theorem Tree.fine_of_parse {name source : String} (hname : name ≠ "") {tree : Tree}
    (h : Tree.parse name source.toList = .ok tree) (overridden : Bool) :
    Engine.Fine overridden tree := by
  intro _
  obtain ⟨items, -, hitems⟩ := Tree.parse_ok h
  obtain ⟨rfl, -⟩ := Tree.ofItems_ok hitems
  rw [Tree.tags, Pass.accepts_append]
  exact Item.assembleTop_accepts hname none items {} (Pass.accepts_nil.2 trivial)

/-! ## Compiling and loading -/

section Loading

variable {m : Type → Type} [Monad m] {τ : Type} [Runs m τ] {excuse : Failure → Prop}

/-- A source that calls no hook and, unless that is excused, is not refused when it is routed. -/
structure Routes (excuse : Failure → Prop) (name source : String) : Prop where
  hookless : ∀ tree, Tree.parse name source.toList = .ok tree → tree.Hookless
  refused : ∀ tree, Tree.parse name source.toList = .ok tree →
    Engine.Fine true tree ∨ ∀ fault, excuse (.invalidTree name fault)

/-- A store of such sources. -/
def Loader.Routes (excuse : Failure → Prop) (store : Loader Id) : Prop :=
  ∀ name source, store.source name = .ok source → Stencil.Routes excuse name source

/-- A template with a name is not refused. -/
theorem Routes.of_name {name source : String} (hname : name ≠ "")
    (hsource : ∀ tree, Tree.parse name source.toList = .ok tree → tree.Hookless) :
    Routes excuse name source where
  hookless := hsource
  refused _ htree := .inl (Tree.fine_of_parse hname htree true)

/-- A store of templates with names that call no hook. -/
structure Loader.Hookless (store : Loader Id) : Prop where
  named : ∀ source, store.source "" ≠ .ok source
  hookless : ∀ name source tree, store.source name = .ok source →
    Tree.parse name source.toList = .ok tree → tree.Hookless

theorem Loader.Hookless.routes {store : Loader Id} (h : store.Hookless) :
    store.Routes excuse := by
  intro name source hsource
  refine .of_name ?_ fun tree => h.hookless name source tree hsource
  rintro rfl
  exact h.named source hsource

namespace Engine

variable {hooked plain : Engine m}

/-- A source is compiled to a routed tree and to the tree that it was made from. -/
theorem compile_routed (hhooked : hooked.passes = standardPasses true)
    (hplain : plain.passes = standardPasses false) {name source : String}
    (hsource : Routes excuse name source) :
    Follows excuse (Eq (α := τ)) RoutedTemplate (hooked.compile name source)
      (plain.compile name source) := by
  rintro s _ rfl r s' hrun
  cases htree : Tree.parse name source.toList with
  | error faults =>
    rw [compile_of_faults htree] at hrun
    cases hrun
    exact .inr ⟨_, s, compile_of_faults htree s, rfl, .error _⟩
  | ok tree =>
    rcases compile_of_tree hhooked htree s with ⟨hrefused, fault, hfault⟩ | ⟨hfine, hrouted⟩
    · rw [hfault] at hrun
      cases hrun
      have hexcused := (hsource.refused tree htree).resolve_left hrefused
      exact .inl ⟨_, rfl, hexcused fault⟩
    · rw [hrouted] at hrun
      cases hrun
      have hmerged : outcome (plain.compile name source) s =
          some (.ok ⟨name, tree.compiled false⟩, s) :=
        (compile_of_tree hplain htree s).elim (fun h => (h.1 nofun).elim) (·.2)
      exact .inr ⟨_, s, hmerged, rfl,
        .ok ⟨rfl, rfl, (hsource.hookless tree htree).routable hfine⟩⟩

variable {store : Loader Id}

theorem loadFresh_routed (hhooked : hooked.passes = standardPasses true)
    (hplain : plain.passes = standardPasses false) (hloader : hooked.loader = store.lift)
    (hloader' : plain.loader = store.lift) (hstore : store.Routes excuse) (name : String) :
    Follows excuse (Eq (α := τ)) RoutedTemplate (hooked.loadFresh name)
      (plain.loadFresh name) := by
  cases hsource : store.source name with
  | error fault =>
    refine .of_outcome ?_
    rintro s _ rfl
    exact ⟨_, _, s, s, loadFresh_of_fault hloader hsource s, loadFresh_of_fault hloader' hsource s,
      rfl, .error _⟩
  | ok source =>
    refine Follows.congr (compile_routed hhooked hplain (hstore name source hsource)) ?_ ?_
    · exact funext (loadFresh_of_source hloader hsource)
    · exact funext (loadFresh_of_source hloader' hsource)

/-! ## Rendering -/

variable {c : Chain m} {functions : Dict (Function Id)}

/-- An engine with hooks and the engine without them that has the same store. -/
structure Overrides (excuse : Failure → Prop) (hooked plain : Engine m) (c : Chain m)
    (functions : Dict (Function Id)) (store : Loader Id) : Prop where
  consults : hooked.Consults plain c functions
  hookedPasses : hooked.passes = standardPasses true
  plainPasses : plain.passes = standardPasses false
  loader : plain.loader = store.lift
  routes : store.Routes excuse
  /-- A missing template is no excuse, since that may be forgiven. -/
  missing : ∀ name, ¬ excuse (.templateNotFound name)

namespace Overrides

variable (h : Overrides excuse hooked plain c functions store)

include h

theorem loadFresh (name : String) : Follows excuse (Eq (α := τ)) RoutedTemplate
    (hooked.loadFresh name) (plain.loadFresh name) :=
  loadFresh_routed h.hookedPasses h.plainPasses (h.consults.loader.trans h.loader) h.loader h.routes
    name

/-- An engine with hooks renders a routed template as the interpreter without hooks renders the
    template that it was made from. -/
theorem renderTemplate {template template' : Template} (ht : RoutedTemplate template template')
    (context : Context) :
    Follows excuse (Keeping RoutedTemplate (Eq (α := τ))) Eq
      (.ofAction (hooked.renderTemplate template context) : Rendering (StateT Cache m) String)
      (plain.renderTemplateDirectly c template' context) := by
  have hmirrors := h.consults.mirrors (τ := τ)
    (hostOf_templates_follow h.consults.loader h.loadFresh fun _ _ hrouted => hrouted.2) h.missing
  have hdepth : hooked.host.access.maxDepth = (plain.direct c).maxDepth := hmirrors.maxDepth
  have hrender := Access.renderTree_routed hmirrors plain.patience ((plain.direct c).maxDepth + 1)
    .nil ht.2.2.self ht.2.2 context
  refine Follows.congr hrender ?_ rfl
  rw [← ht.2.1, ← hdepth, ← h.consults.patience]
  rfl

theorem render (name : String) (context : Context) :
    Follows excuse (Keeping RoutedTemplate (Eq (α := τ))) Eq
      (.ofAction (hooked.render name context) : Rendering (StateT Cache m) String)
      (plain.renderDirectly c name context) := by
  refine (keep_follows h.loadFresh name).bind ?_
  intro template template' ht
  exact h.renderTemplate ht context

theorem renderSource {name source : String} (hsource : Routes excuse name source)
    (context : Context) :
    Follows excuse (Keeping RoutedTemplate (Eq (α := τ))) Eq
      (hooked.renderSource name source context) (plain.renderSourceDirectly c name source context) := by
  refine (lift_follows (compile_routed h.hookedPasses h.plainPasses hsource)).bind ?_
  intro template template' ht
  exact h.renderTemplate ht context

end Overrides

theorem render_routed (h : hooked.Consults plain c functions)
    (hhooked : hooked.passes = standardPasses true) (hplain : plain.passes = standardPasses false)
    (hloader : plain.loader = store.lift) (hstore : store.Hookless) (name : String)
    (context : Context) :
    Follows (fun _ => False) (Keeping RoutedTemplate (Eq (α := τ))) Eq
      (.ofAction (hooked.render name context) : Rendering (StateT Cache m) String)
      (plain.renderDirectly c name context) :=
  Overrides.render ⟨h, hhooked, hplain, hloader, hstore.routes, fun _ => not_false⟩ name context

theorem renderSource_routed (h : hooked.Consults plain c functions)
    (hhooked : hooked.passes = standardPasses true) (hplain : plain.passes = standardPasses false)
    (hloader : plain.loader = store.lift) (hstore : store.Hookless) {name source : String}
    (hname : name ≠ "")
    (hsource : ∀ tree, Tree.parse name source.toList = .ok tree → tree.Hookless)
    (context : Context) :
    Follows (fun _ => False) (Keeping RoutedTemplate (Eq (α := τ))) Eq
      (hooked.renderSource name source context) (plain.renderSourceDirectly c name source context) :=
  Overrides.renderSource ⟨h, hhooked, hplain, hloader, hstore.routes, fun _ => not_false⟩
    (.of_name hname hsource) context

end Engine

end Loading

/-! ## Installing a chain -/

/-- The function of a name after all functions were changed. -/
theorem Dict.get?_map {α β : Type} (f : α → β) (d : Dict α) (key : String) :
    Dict.get? (d.map fun p => (p.1, f p.2)) key = (Dict.get? d key).map f := by
  induction d with
  | nil => rfl
  | cons p rest ih =>
    simp only [List.map_cons, Dict.get?]
    split
    · rfl
    · exact ih

namespace Engine

variable {m : Type → Type} [Monad m]

/-- The engine of a store and of functions without effects, without an extension. -/
def ofFunctions (store : Loader Id) (settings : Settings) (functions : Dict (Function Id))
    (patience : Nat) : Engine m where
  loader := store.lift
  settings := settings
  functions := functions.map fun p => (p.1, p.2.lift)
  passes := [textMerge]
  patience := patience

/-- The engine with the extension of a chain installed. -/
def overriding (store : Loader Id) (settings : Settings) (functions : Dict (Function Id))
    (patience : Nat) (c : Chain m) : Engine m :=
  ((Environment.mk (ofFunctions store settings functions patience) []).install (extension c)).engine

theorem ofFunctions_passes (store : Loader Id) (settings : Settings)
    (functions : Dict (Function Id)) (patience : Nat) :
    (ofFunctions store settings functions patience : Engine m).passes = standardPasses false := rfl

theorem overriding_passes (store : Loader Id) (settings : Settings)
    (functions : Dict (Function Id)) (patience : Nat) (c : Chain m) :
    (overriding store settings functions patience c).passes = standardPasses true :=
  Environment.passes_install (ofFunctions_passes store settings functions patience) c

theorem overriding_functions (store : Loader Id) (settings : Settings)
    (functions : Dict (Function Id)) (patience : Nat) (c : Chain m) :
    (overriding store settings functions patience c).functions =
      Dict.insert (Dict.insert (functions.map fun p => (p.1, p.2.lift)) Hook.template.name
        (c.function .template)) Hook.parameters.name (c.function .parameters) := rfl

theorem overriding_consults (store : Loader Id) (settings : Settings)
    (functions : Dict (Function Id)) (patience : Nat) (c : Chain m) :
    (overriding store settings functions patience c).Consults
      (ofFunctions store settings functions patience) c functions where
  settings := rfl
  loader := rfl
  patience := rfl
  hook hook := by
    rw [overriding_functions]
    cases hook with
    | template =>
      rw [Dict.get?_insert_of_ne _ _ (by decide : Hook.template.name ≠ Hook.parameters.name),
        Dict.get?_insert_self]
    | parameters => rw [Dict.get?_insert_self]
  hooked name hname := by
    rw [overriding_functions, Dict.get?_insert_of_ne _ _ (hname .parameters),
      Dict.get?_insert_of_ne _ _ (hname .template), Dict.get?_map]
  plain name _ := Dict.get?_map _ functions name

/-- Two steps in a monad with a state that follow each other end the same way, in the same state. -/
theorem of_follows {σ α : Type} {K : Template → Template → Prop}
    {x y : Rendering (StateT Cache (StateM σ)) α}
    (h : Follows (fun _ => False) (Keeping K Eq) Eq x y) {kept kept' : Cache}
    (hkept : Dict.Related K kept kept') (s : σ) :
    ∃ result cache cache' s', (x.run.run kept).run s = ((result, cache), s') ∧
      (y.run.run kept').run s = ((result, cache'), s') ∧ Dict.Related K cache cache' := by
  have hx : outcome x (kept, s, ()) = some (((x.run.run kept).run s).1.1,
      ((x.run.run kept).run s).1.2, ((x.run.run kept).run s).2, ()) := rfl
  have hy : outcome y (kept', s, ()) = some (((y.run.run kept').run s).1.1,
      ((y.run.run kept').run s).1.2, ((y.run.run kept').run s).2, ()) := rfl
  have hS : Keeping K Eq (kept, s, ()) (kept', s, ()) := ⟨hkept, rfl⟩
  obtain ⟨⟨cache', s'⟩, hrun, hcache, hstate⟩ := h.eq hS hx
  cases hstate
  rw [hy] at hrun
  simp only [Option.some.injEq, Prod.mk.injEq] at hrun
  obtain ⟨hresult, hcache', hrecord, -⟩ := hrun
  exact ⟨_, _, cache', _, rfl, Prod.ext (Prod.ext hresult hcache') hrecord, hcache⟩

/-- Overrides mean what the interpreter without hooks does. From any templates kept before, the
    engine with the extension of a chain ends with the same text or failure as the interpreter, and
    the providers have been asked the same questions in the same order: for a template by its name,
    and for one that is compiled apart from the store. So it is with any patience. -/
theorem render_overridden (store : Loader Id) (settings : Settings)
    (functions : Dict (Function Id)) (patience : Nat) (c : Chain Id) (hstore : store.Hookless)
    (context : Context) {kept kept' : Cache} (hkept : Dict.Related RoutedTemplate kept kept')
    (record : List Consultation) :
    (∀ name, ∃ result cache cache' record',
      (((overriding store settings functions patience c.recorded).render name context).run
        kept).run record = ((result, cache), record') ∧
      (((ofFunctions store settings functions patience).renderDirectly c.recorded name
        context).run.run kept').run record = ((result, cache'), record') ∧
      Dict.Related RoutedTemplate cache cache') ∧
    ∀ name source, name ≠ "" →
      (∀ tree, Tree.parse name source.toList = .ok tree → tree.Hookless) →
      ∃ result cache cache' record',
        (((overriding store settings functions patience c.recorded).renderSource name source
          context).run.run kept).run record = ((result, cache), record') ∧
        (((ofFunctions store settings functions patience).renderSourceDirectly c.recorded name
          source context).run.run kept').run record = ((result, cache'), record') ∧
        Dict.Related RoutedTemplate cache cache' := by
  have hconsults := overriding_consults store settings functions patience c.recorded
  have hhooked := overriding_passes store settings functions patience c.recorded
  have hplain :=
    ofFunctions_passes (m := StateM (List Consultation)) store settings functions patience
  refine ⟨fun name => ?_, fun name source hname hsource => ?_⟩
  · exact of_follows (render_routed hconsults hhooked hplain rfl hstore name context) hkept record
  · exact of_follows
      (renderSource_routed hconsults hhooked hplain rfl hstore hname hsource context) hkept record

/-- Templates that extend, include and embed each other. -/
def layouts : Dict String :=
  [("base", "<" ++ tag "block main" ++ tag "endblock" ++ ">"),
    ("new", "\x7b\x7b" ++ "shout(word)" ++ "\x7d\x7d"),
    ("page", tag "extends 'base'" ++ tag "block main" ++
      tag "include ['old', 'base'] with \x7b'word': 'a' ~ 'b'\x7d only" ++
      tag "embed 'base' with \x7b'word': shout('c')\x7d" ++ tag "block main" ++
      tag "include 'none' ignore missing" ++ tag "endblock" ++
      tag "endembed" ++ tag "endblock")]

/-- A function of one string. -/
def shout : Function Id := fun
  | [.string word] => .ok (.string (word ++ "!"))
  | _ => .error (.refused "one word")

/-- A chain that renames a template and changes a variable. -/
def layoutChain : Chain Id := ⟨[.table [("old", "new")], .argumentTable [("word", .string "x")]]⟩

theorem render_overridden_layouts :
    ∃ result cache cache' record,
      (((overriding (Loader.memory layouts) {} [("shout", shout)] 0 layoutChain.recorded).render
        "page" []).run []).run [] = ((result, cache), record) ∧
      (((ofFunctions (Loader.memory layouts) {} [("shout", shout)] 0).renderDirectly
        layoutChain.recorded "page" []).run.run []).run [] = ((result, cache'), record) := by
  have hstore : (Loader.memory layouts : Loader Id).Hookless := by
    refine ⟨fun source h => ?_, fun name source tree => Loader.memory_forall ?_⟩
    · cases h
    · decide +kernel
  obtain ⟨result, cache, cache', record, hrun, hdirect, -⟩ :=
    (render_overridden (Loader.memory layouts) {} [("shout", shout)] 0 layoutChain hstore [] .nil
      []).1 "page"
  exact ⟨result, cache, cache', record, hrun, hdirect⟩

end Engine

end Stencil
