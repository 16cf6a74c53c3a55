import Stencil.Proofs.Failures
import Stencil.Proofs.Lowering
import Stencil.Proofs.Texts

/-!
# Embeds find their own bodies

An engine renders trees, in which an embed is a number that has to be looked up among the embedded
trees of its owner. An engine in place renders the pages of the same sources, in which an embed has
its own body. Here the second one is shown to follow the first one, whatever templates are kept: so
every number leads to the tree of the very embed that it replaced, in whatever body it is met.

Results:
* `Access.renderBody_follows`, `Access.renderTree_follows`: trees and the pages they show.
* `Engine.loadFresh_follows`: loading a template and loading its page.
* `Engine.render_embeds`: every rendering of an engine is the rendering in place.
-/

namespace Stencil

/-! ## Definitions that show passages -/

/-- The body of a definition stands for the body of a passage. -/
def Definition.Shows (d : Definition) (p : Passage) : Prop :=
  Stands p.template d.owner.embedded d.body p.body

/-- Adding the blocks of a tree and of the page it shows. -/
theorem Tree.Shows.add {tree owner : Tree} {page : Page} (h : tree.Shows owner page)
    {defined : Definitions} {passages : Dict Passage}
    (hdefined : Dict.Related Definition.Shows defined passages) :
    Dict.Related Definition.Shows (addDefinitions defined owner tree.blocks)
      (addPassages passages page.name (Item.blocksIn page.body)) :=
  hdefined.foldl_insertNew h.body.blocks

/-! ## Rendering trees and pages -/

namespace Access

variable {n₁ n₂ : Type → Type} [Monad n₁] [Monad n₂] {τ₁ τ₂ : Type} [Runs n₁ τ₁] [Runs n₂ τ₂]
  {S : τ₁ → τ₂ → Prop} {host : Host n₁} {pages : Host n₂ Page}

/-- Two hosts have the same functions and settings, and trees that show pages. -/
structure Matches (S : τ₁ → τ₂ → Prop) (host : Host n₁) (pages : Host n₂ Page) : Prop where
  settings : host.settings = pages.settings
  functions : ∀ name, FunctionFollows (fun _ => False) S host pages name
  find : ∀ names, Follows (fun _ => False) S (fun tree page => tree.Shows tree page)
    (host.find names) (pages.find names)

variable {render : Insertion → Rendering n₁ String} {renderPage : Page → Context → Rendering n₂ String}

/-- An insertion is rendered as the page it shows. -/
def RendersPages (S : τ₁ → τ₂ → Prop) (render : Insertion → Rendering n₁ String)
    (renderPage : Page → Context → Rendering n₂ String) : Prop :=
  ∀ (i : Insertion) (page : Page), i.tree.Shows i.owner page →
    Follows (fun _ => False) S Eq (render i) (renderPage page i.context)

/-- The text of a tree with the variables that an include passes to it. -/
def renderPassing (host : Host n₁) (render : Insertion → Rendering n₁ String) (context : Context)
    (clauses : Clauses) (tree owner : Tree) : Rendering n₁ String := do
  let bindings ← host.passed context clauses.bindings
  render ⟨tree, owner, Host.scope context clauses.only bindings⟩

theorem renderPassing_follows (hm : Matches S host pages)
    (hrender : RendersPages S render renderPage) (context : Context) (clauses : Clauses)
    {tree owner : Tree} {page : Page} (h : tree.Shows owner page) :
    Follows (fun _ => False) S Eq (renderPassing host render context clauses tree owner)
      (Page.renderPassing pages renderPage context clauses page) := by
  refine (Host.passed_follows hm.settings context fun e _ name _ => hm.functions name).bind ?_
  rintro bindings _ rfl
  exact hrender _ page h

/-- What an include of a template by its name does, step by step. -/
theorem outcome_insert_named (host : Host n₁) (render : Insertion → Rendering n₁ String)
    (context : Context) (owner : Tree) (target : Expr) (clauses : Clauses) :
    outcome (τ := τ₁) (host.access.insert render context owner (.named target) clauses) =
      outcome (host.included? context clauses.ignoreMissing target >>= fun
        | none => pure ""
        | some tree => renderPassing host render context clauses tree tree) := by
  refine (outcome_bind_of_outcome (host.outcome_insertion?_named ..) _).trans ?_
  rw [outcome_bind_assoc]
  refine outcome_bind_congr _ fun found => ?_
  cases found with
  | none => exact outcome_pure_bind _ _
  | some tree =>
    rw [outcome_bind_assoc]
    exact outcome_bind_congr _ fun bindings => outcome_pure_bind _ _

/-- What an include of an embedded tree does, step by step. -/
theorem outcome_insert_embedded (host : Host n₁) (render : Insertion → Rendering n₁ String)
    (context : Context) {owner tree : Tree} {index : Nat}
    (h : owner.embedded[index]? = some tree) (filename : String) (clauses : Clauses) :
    outcome (τ := τ₁) (host.access.insert render context owner (.embedded filename index) clauses) =
      outcome (renderPassing host render context clauses tree owner) := by
  refine (outcome_bind_of_outcome (host.outcome_insertion?_embedded context h ..) _).trans ?_
  rw [outcome_bind_assoc]
  exact outcome_bind_congr _ fun bindings => outcome_pure_bind _ _

/-- An include of a template by its name is rendered as the include of the page. -/
theorem insert_named_follows (hm : Matches S host pages)
    (hrender : RendersPages S render renderPage) (context : Context) (owner : Tree) (target : Expr)
    (clauses : Clauses) :
    Follows (fun _ => False) S Eq (host.access.insert render context owner (.named target) clauses)
      (Page.insert pages renderPage context target clauses) := by
  have hincluded := Host.included?_follows hm.settings hm.find (fun _ => not_false) context
    clauses.ignoreMissing (e := target) fun name _ => hm.functions name
  refine Follows.congr (hincluded.bind ?_) (outcome_insert_named ..) rfl
  intro found found' h
  cases h with
  | none => exact .pure rfl
  | some h => exact renderPassing_follows hm hrender context clauses h

section Bodies

variable {defined : Definitions} {passages : Dict Passage}
  (hdefined : Dict.Related Definition.Shows defined passages)

include hdefined

/-- A body is rendered as the items it stands for, if definitions are rendered as the passages they
    show. -/
theorem renderBody_follows_of_follow (hm : Matches S host pages)
    (hrender : RendersPages S render renderPage) (context : Context) (bound : Nat)
    (hfollow : ∀ name (d : Definition) p, d.Shows p → Follows (fun _ => False) S Eq
      (host.access.follow render context defined bound name d)
      (Page.follow pages renderPage context passages bound name p))
    {name : String} {owner : Tree} {nodes : List Node} {items : List Item}
    (h : Stands name owner.embedded nodes items) :
    Follows (fun _ => False) S Eq
      (host.access.renderBody render context defined bound owner nodes)
      (Page.renderItems pages renderPage context passages bound name items) := by
  induction h with
  | nil =>
    rw [renderBody_nil, Page.renderItems_nil]
    exact .pure rfl
  | text _ ih =>
    rw [renderBody_cons, renderNode_text, Page.renderItems_cons, Page.renderItem_text]
    exact .join (.pure rfl) ih
  | print _ ih =>
    rw [renderBody_cons, renderNode_print, Page.renderItems_cons, Page.renderItem_print]
    exact .join (Host.print_follows hm.settings context fun name _ => hm.functions name) ih
  | @block span block body nodes inner items _ _ ihBody ih =>
    rw [renderBody_cons, Page.renderItems_cons]
    refine .join ?_ ih
    cases hd : Dict.get? defined block with
    | none =>
      rw [renderNode_own _ _ _ _ _ _ hd,
        Page.renderItem_own _ _ _ _ _ _ (hdefined.get?_none hd)]
      exact ihBody
    | some d =>
      obtain ⟨p, hp, hshows⟩ := hdefined.get?_some hd
      rw [renderNode_defined _ _ _ _ _ _ hd, Page.renderItem_defined _ _ _ _ _ _ hp]
      exact hfollow block d p hshows
  | «include» _ ih =>
    rw [renderBody_cons, renderNode_include, Page.renderItems_cons, Page.renderItem_include]
    exact .join (insert_named_follows hm hrender context owner _ _) ih
  | embed htree hname hparent hbody _ _ ih =>
    -- The index leads to the tree that has the body of the embed.
    rw [renderBody_cons, renderNode_include, Page.renderItems_cons, Page.renderItem_embed]
    refine .join ?_ ih
    exact Follows.congr (renderPassing_follows hm hrender context _ ⟨hname, hparent, hbody⟩)
      (outcome_insert_embedded host render context htree _ _) rfl

theorem renderBody_follows (hm : Matches S host pages) (hrender : RendersPages S render renderPage)
    (context : Context) (bound : Nat) {name : String} {owner : Tree} {nodes : List Node}
    {items : List Item} (h : Stands name owner.embedded nodes items) :
    Follows (fun _ => False) S Eq
      (host.access.renderBody render context defined bound owner nodes)
      (Page.renderItems pages renderPage context passages bound name items) := by
  induction bound generalizing name owner nodes items with
  | zero =>
    refine renderBody_follows_of_follow hdefined hm hrender context 0 (fun name d p _ => ?_) h
    exact .throw _
  | succ bound ih =>
    refine renderBody_follows_of_follow hdefined hm hrender context _ (fun name d p hd => ?_) h
    exact ih hd

end Bodies

/-- A tree is rendered as the page it shows, under definitions that show passages. -/
theorem renderTree_follows (hm : Matches S host pages) (patience depth : Nat)
    {defined : Definitions}
    {passages : Dict Passage} (hdefined : Dict.Related Definition.Shows defined passages)
    {tree owner : Tree} {page : Page} (h : tree.Shows owner page) (context : Context) :
    Follows (fun _ => False) S Eq
      (host.access.renderTree patience depth defined tree owner context)
      (Page.renderUnder pages patience depth passages page context) := by
  induction depth generalizing defined passages tree owner page context with
  | zero =>
    have hlimit : host.access.maxDepth = pages.settings.maxDepth :=
      congrArg Settings.maxDepth hm.settings
    rw [renderTree_zero, Page.renderUnder_zero, h.name, hlimit]
    exact .throw _
  | succ depth ih =>
    cases hparent : tree.parent with
    | none =>
      have hpage : page.parent = none := h.parent.symm.trans hparent
      rw [renderTree_root _ _ _ _ hparent, Page.renderUnder_root _ _ _ _ hpage, hdefined.length]
      refine renderBody_follows hdefined hm ?_ context _ h.body
      exact fun i page hi => ih .nil hi i.context
    | some parent =>
      have hpage : page.parent = some parent := h.parent.symm.trans hparent
      rw [renderTree_child _ _ _ _ hparent, Page.renderUnder_child _ _ _ _ hpage]
      refine (Host.parent_follows hm.settings hm.find context
        fun name _ => hm.functions name).bind ?_
      intro found found' hfound
      exact ih (h.add hdefined) hfound context

end Access

/-! ## Engines in place -/

/-- A template and the page of the source that it was compiled from. -/
def CompiledFrom (overridden : Bool) (template : Template) (page : Page) : Prop :=
  ∃ name source tree, Tree.parse name source.toList = .ok tree ∧ Engine.Fine overridden tree ∧
    template = ⟨name, tree.compiled overridden⟩ ∧ page = Page.ofSource overridden name source

theorem CompiledFrom.of_compile {m : Type → Type} [Monad m] {τ : Type} [Runs m τ] {e : Engine m}
    {overridden : Bool} (he : e.passes = standardPasses overridden) {name source : String}
    {template : Template} {s s' : τ}
    (h : outcome (e.compile name source) s = some (.ok template, s')) :
    CompiledFrom overridden template (Page.ofSource overridden name source) := by
  obtain ⟨tree, htree, hfine, htemplate⟩ := e.compile_ok he h
  exact ⟨name, source, tree, htree, hfine, htemplate, rfl⟩

theorem CompiledFrom.shows {overridden : Bool} {template : Template} {page : Page}
    (h : CompiledFrom overridden template page) : template.tree.Shows template.tree page := by
  obtain ⟨name, source, tree, htree, hfine, rfl, rfl⟩ := h
  exact Tree.shows_compiled htree hfine

namespace Engine

variable {m : Type → Type} [Monad m]

/-- Gives the page of the source that the loader gives, if the source can be compiled. -/
def loadPage (e : Engine m) (overridden : Bool) (name : String) : ExceptT Failure m Page := do
  let source ← ExceptT.mk (Except.mapError (failureOfLoad name) <$> e.loader.source name)
  let template ← e.compile name source
  pure (Page.ofSource overridden template.name source)

/-- The engine as a host that keeps pages. -/
def inPlace (e : Engine m) (overridden : Bool) : Host (StateT (Dict Page) m) Page :=
  e.hostOf (e.loadPage overridden) id

/-- The text of a template by its name, rendered in place. -/
def renderInPlace (e : Engine m) (overridden : Bool) (name : String) (context : Context) :
    Rendering (StateT (Dict Page) m) String := do
  let page ← Rendering.ofAction (keep (e.loadPage overridden) name)
  Page.render (e.inPlace overridden) e.patience page context

variable {τ : Type} [Runs m τ] {e : Engine m} {overridden : Bool}

/-- Loading a template and loading its page end alike. -/
theorem loadFresh_follows (he : e.passes = standardPasses overridden) (name : String) :
    Follows (fun _ => False) (Eq (α := τ)) (CompiledFrom overridden) (e.loadFresh name)
      (e.loadPage overridden name) := by
  refine (Follows.same _).bind ?_
  rintro source _ rfl
  have hcompile : Follows (fun _ => False) (Eq (α := τ)) _ (e.compile name source)
      (e.compile name source) := .same_of_ok fun s template s' h => compile_ok he h
  refine Follows.congr (hcompile.bind ?_) (outcome_bind_pure _).symm rfl
  rintro template _ ⟨rfl, tree, htree, hfine, rfl⟩
  exact .pure ⟨name, source, tree, htree, hfine, rfl, rfl⟩

/-- The host of an engine and its host in place. -/
theorem host_matches (he : e.passes = standardPasses overridden) :
    Access.Matches (Keeping (CompiledFrom overridden) (Eq (α := τ))) e.host
      (e.inPlace overridden) where
  settings := rfl
  functions _ := hostOf_function_follows rfl
  find := Host.find_follows (hostOf_templates_follow rfl (loadFresh_follows he) fun _ _ h => h.shows)

theorem renderTemplate_follows (he : e.passes = standardPasses overridden) {template : Template}
    {page : Page} (h : CompiledFrom overridden template page) (context : Context) :
    Follows (fun _ => False) (Keeping (CompiledFrom overridden) (Eq (α := τ))) Eq
      (.ofAction (e.renderTemplate template context) : Rendering (StateT Cache m) String)
      (Page.render (e.inPlace overridden) e.patience page context) :=
  Access.renderTree_follows (host_matches he) _ _ .nil h.shows context

theorem render_follows (he : e.passes = standardPasses overridden) (name : String)
    (context : Context) :
    Follows (fun _ => False) (Keeping (CompiledFrom overridden) (Eq (α := τ))) Eq
      (.ofAction (e.render name context) : Rendering (StateT Cache m) String)
      (e.renderInPlace overridden name context) := by
  refine (keep_follows (loadFresh_follows he) name).bind ?_
  intro template page h
  exact renderTemplate_follows he h context

open Failure (MissesEmbedded)

theorem loadPage_avoids (e : Engine m) (overridden : Bool) (name : String) :
    Avoids (τ := τ) MissesEmbedded (e.loadPage overridden name) := by
  refine (Avoids.mapError (failureOfLoad_avoids name) _).bind fun source => ?_
  exact (compile_avoids e name source).bind fun _ => .pure _

theorem renderPage_avoids (e : Engine m) (overridden : Bool) (page : Page) (context : Context) :
    Avoids (τ := Dict Page × τ) MissesEmbedded
      (Page.render (e.inPlace overridden) e.patience page context) := by
  refine Page.renderUnder_avoids (fun name => ?_) _ _ _ page context
  exact (Avoids.keep (loadPage_avoids e overridden name)).map_ok id

theorem renderInPlace_avoids (e : Engine m) (overridden : Bool) (name : String)
    (context : Context) : Avoids (τ := Dict Page × τ) MissesEmbedded
      (e.renderInPlace overridden name context) :=
  (Avoids.keep (loadPage_avoids e overridden name)).bind fun page =>
    renderPage_avoids e overridden page context

/-- What follows a rendering in place ends as that does, and misses no embedded tree. -/
theorem of_follows_inPlace {x : Rendering (StateT Cache m) String}
    {y : Rendering (StateT (Dict Page) m) String}
    (h : Follows (fun _ => False) (Keeping (CompiledFrom overridden) (Eq (α := τ))) Eq x y)
    (hy : Avoids (τ := Dict Page × τ) MissesEmbedded y) {cache cache' : Cache}
    {pages : Dict Page} (hkept : Dict.Related (CompiledFrom overridden) cache pages) {s s' : τ}
    {r : Except Failure String} (hx : outcome x (cache, s) = some (r, cache', s')) :
    (∃ pages', outcome y (pages, s) = some (r, pages', s') ∧
      Dict.Related (CompiledFrom overridden) cache' pages') ∧
    ∀ owner index, r ≠ .error (.missingEmbedded owner index) := by
  obtain ⟨⟨pages', _⟩, hrun, hkept', rfl⟩ := h.eq (t := (pages, s)) ⟨hkept, rfl⟩ hx
  refine ⟨⟨pages', hrun, hkept'⟩, ?_⟩
  rintro owner index rfl
  exact hy hrun trivial

/-- Embeds find their own bodies. Whatever was compiled under whatever names before, rendering a
    template by its name is rendering the page that the loader or the cache has for it in place, and
    rendering a template that was compiled from a source is rendering the page of that source in
    place, from the same state to the same result and state. No rendering misses an embedded tree. -/
theorem render_embeds (he : e.passes = standardPasses overridden) (context : Context)
    {cache : Cache} {pages : Dict Page}
    (hkept : Dict.Related (CompiledFrom overridden) cache pages) (s : τ) :
    (∀ name r cache' s', run (e.render name context) (cache, s) = some (r, cache', s') →
      (∃ pages', outcome (e.renderInPlace overridden name context) (pages, s) =
          some (r, pages', s') ∧ Dict.Related (CompiledFrom overridden) cache' pages') ∧
        ∀ owner index, r ≠ .error (.missingEmbedded owner index)) ∧
    ∀ name source template (s₀ s₁ : τ),
      outcome (e.compile name source) s₀ = some (.ok template, s₁) →
      ∀ r cache' s', run (e.renderTemplate template context) (cache, s) = some (r, cache', s') →
        (∃ pages', outcome (Page.render (e.inPlace overridden) e.patience
              (Page.ofSource overridden name source) context) (pages, s) =
            some (r, pages', s') ∧ Dict.Related (CompiledFrom overridden) cache' pages') ∧
          ∀ owner index, r ≠ .error (.missingEmbedded owner index) := by
  refine ⟨fun name r cache' s' hrun => ?_, fun name source template s₀ s₁ hcompile => ?_⟩
  · exact of_follows_inPlace (render_follows he name context)
      (renderInPlace_avoids e overridden name context) hkept hrun
  · intro r cache' s' hrun
    exact of_follows_inPlace (renderTemplate_follows he (.of_compile he hcompile) context)
      (renderPage_avoids e overridden _ context) hkept hrun

/-- Two templates with a block each. -/
def frames : Dict String :=
  [("base", "<" ++ tag "block main" ++ tag "endblock" ++ ">"),
    ("frame", "[" ++ tag "block inner" ++ tag "endblock" ++ "]")]

/-- A template that extends the first one; its block embeds the second one, twice nested. -/
def framed : String :=
  tag "extends 'base'" ++ tag "block main" ++ tag "embed 'frame'" ++
    tag "block inner" ++ tag "embed 'frame'" ++ tag "block inner" ++ "text" ++
    tag "endblock" ++ tag "endembed" ++ tag "endblock" ++ tag "endembed" ++
    tag "endblock"

/-- An engine of these templates. -/
def framesEngine : Engine Id := (Environment.ofLoader (Loader.memory frames)).engine

theorem exists_compiled {name source : String}
    (h : (framesEngine.compile name source).run.isOk = true) :
    ∃ template, outcome (framesEngine.compile name source) () = some (.ok template, ()) := by
  cases hrun : (framesEngine.compile name source).run with
  | ok template => exact ⟨template, congrArg (fun r => some (r, ())) hrun⟩
  | error failure =>
    rw [hrun] at h
    cases h

/-- The template is rendered in place although another one of its name is kept. -/
theorem render_embeds_frames :
    ∃ template other result cache' pages',
      outcome (framesEngine.compile "page" framed) () = some (.ok template, ()) ∧
      run (framesEngine.renderTemplate template []) ([("page", other)], ()) =
        some (result, cache', ()) ∧
      outcome (Page.render (framesEngine.inPlace false) 0 (Page.ofSource false "page" framed) [])
        ([("page", Page.ofSource false "page" "other")], ()) = some (result, pages', ()) := by
  have hpasses : framesEngine.passes = standardPasses false := Environment.passes_ofLoader _
  obtain ⟨template, htemplate⟩ : ∃ template, outcome (framesEngine.compile "page" framed) () =
      some (.ok template, ()) := exists_compiled (by decide +kernel)
  obtain ⟨other, hother⟩ : ∃ other, outcome (framesEngine.compile "page" "other") () =
      some (.ok other, ()) := exists_compiled (by decide +kernel)
  have hkept : Dict.Related (CompiledFrom false) [("page", other)]
      [("page", Page.ofSource false "page" "other")] := .cons ⟨rfl, .of_compile hpasses hother⟩ .nil
  have hrun : run (framesEngine.renderTemplate template []) ([("page", other)], ()) = some (_, _, ()) :=
    rfl
  obtain ⟨⟨pages', hpages, -⟩, -⟩ :=
    (render_embeds hpasses [] hkept ()).2 "page" framed template () () htemplate _ _ () hrun
  exact ⟨template, other, _, _, pages', htemplate, hrun, hpages⟩

end Engine

end Stencil
