import Stencil.Proofs.Correspondences
import Stencil.Proofs.Overriding
import Stencil.Proofs.Refusals

/-!
# What ignoring missing templates hides

An include may ignore that its template is missing. The handler sits around the search for the
template and for nothing else: a failure in a template that was found, in its parent, in its
variables or in a hook goes through it, even if that failure is another missing template. So where a
template store differs from another one in that more includes ignore missing templates, every render
that ends otherwise than by a missing template ends alike over both.

Specification: `Tree.Forgives` for trees that differ in these flags, and in places by a relation
that is known; `SourceForgives` and `Loader.Forgives` for sources and stores.

Results:
* `Tree.Forgives.compiled`, `Tree.Forgives.refused?`: the passes.
* `Host.forgives`: printing and finding templates.
* `Engine.compile_forgiving`, `Engine.loadFresh_forgiving`: compiling and loading.
* `Engine.render_forgiving`: rendering templates and sources.
-/

namespace Stencil

open Node Override

variable {place : Span → Span → Prop}

/-! ## Trees -/

/-- Two targets that differ in their places alone. -/
inductive Target.Moved (place : Span → Span → Prop) : Target → Target → Prop
  | named {e e' : Expr} : e.Moved place e' → Target.Moved place (.named e) (.named e')
  | embedded (filename : String) (index : Nat) :
      Target.Moved place (.embedded filename index) (.embedded filename index)

/-- The second clauses may ignore a missing template where the first ones do not. -/
structure Clauses.Forgives (place : Span → Span → Prop) (clauses clauses' : Clauses) : Prop where
  ignoreMissing : clauses.ignoreMissing = true → clauses'.ignoreMissing = true
  bindings : Option.Rel (Expr.Moved place) clauses.bindings clauses'.bindings
  only : clauses.only = clauses'.only

/-- Trees that differ in their places and in what their includes ignore. The places of texts, prints
    and blocks do not matter at all. -/
def forgiving (place : Span → Span → Prop) : Correspondence where
  parent := Expr.Moved place
  print := Expr.Moved place
  «include» span target clauses span' target' clauses' :=
    place span span' ∧ target.Moved place target' ∧ clauses.Forgives place clauses'

/-- Two bodies of this kind. -/
abbrev Node.Forgives (place : Span → Span → Prop) : List Node → List Node → Prop :=
  Node.Corresponds (forgiving place)

/-- Two trees of this kind. -/
abbrev Tree.Forgives (place : Span → Span → Prop) : Tree → Tree → Prop :=
  Tree.Corresponds (forgiving place)

theorem Tree.forgives_self (hplace : ∀ span, place span span) (tree : Tree) :
    tree.Forgives place tree := by
  have hmoved : ∀ e : Expr, e.Moved place e := Expr.moved_self hplace
  refine .self hmoved hmoved tree fun span target clauses _ => ?_
  have htarget : target.Moved place target := by
    cases target with
    | named e => exact .named (hmoved e)
    | embedded filename index => exact .embedded filename index
  have hbindings : Option.Rel (Expr.Moved place) clauses.bindings clauses.bindings := by
    cases clauses.bindings with
    | none => exact .none
    | some e => exact .some (hmoved e)
  exact ⟨hplace span, htarget, id, hbindings, rfl⟩

/-! ## The passes -/

namespace Node.Forgives

variable {nodes nodes' : List Node}

theorem invoke_moved {hook : Hook} {target target' : Expr} {only : Bool}
    {bindings bindings' : Option Expr} {span span' : Span} (htarget : target.Moved place target')
    (hbindings : Option.Rel (Expr.Moved place) bindings bindings') (hspan : place span span') :
    (hook.invoke target only bindings span).Moved place
      (hook.invoke target' only bindings' span') := by
  have hgiven : (bindings.getD (.constant span .null)).Moved place
      (bindings'.getD (.constant span' .null)) := by
    cases hbindings with
    | none => exact .constant hspan
    | some he => exact he
  exact .call hspan (.cons htarget (.cons (.constant hspan) (.cons hgiven
    (.cons (.name hspan) .nil))))

theorem routedClauses_forgives {clauses clauses' : Clauses} (h : clauses.Forgives place clauses')
    {name name' : Expr} (hname : name.Moved place name') {span span' : Span}
    (hspan : place span span') :
    (routedClauses name span clauses).Forgives place (routedClauses name' span' clauses') where
  ignoreMissing := h.ignoreMissing
  bindings := by
    unfold routedClauses
    rw [h.only]
    exact .some (invoke_moved hname h.bindings hspan)
  only := h.only

theorem routed (h : Node.Forgives place nodes nodes') :
    Node.Forgives place (changeAll routedNode nodes) (changeAll routedNode nodes') := by
  induction h with
  | nil => exact .nil
  | text _ ih => exact .text ih
  | print he _ ih => exact .print he ih
  | block _ _ ihBody ih => exact .block ihBody ih
  | @«include» span span' target target' clauses clauses' rest rest' hinclude _ ih =>
    obtain ⟨hspan, htarget, hclauses⟩ := hinclude
    rw [changeAll, changeAll, change_include, change_include]
    cases htarget with
    | @named e e' he =>
      rw [routedNode_named, routedNode_named]
      have hname : (routedTarget e clauses).Moved place (routedTarget e' clauses') := by
        unfold routedTarget
        rw [hclauses.only]
        exact invoke_moved he hclauses.bindings he.span
      exact .«include» ⟨hspan, .named hname, routedClauses_forgives hclauses he hspan⟩ ih
    | embedded filename index =>
      by_cases hfilename : filename = ""
      · subst hfilename
        exact .«include» ⟨hspan, .embedded "" index, hclauses⟩ ih
      · rw [routedNode_embedded span hfilename, routedNode_embedded span' hfilename]
        exact .«include» ⟨hspan, .embedded filename index,
          routedClauses_forgives hclauses (.constant hspan) hspan⟩ ih

end Node.Forgives

/-- A tag is refused where the other one is, each at its own place. -/
theorem Node.Forgives.refusal? {tag tag' : Node} (h : Node.Forgives place [tag] [tag']) :
    Option.Rel (MissingPart.Moved place) (Pass.refusal? routeNode tag)
      (Pass.refusal? routeNode tag') := by
  cases h with
  | text => exact .none
  | print => exact .none
  | block => exact .none
  | «include» hinclude =>
    obtain ⟨hspan, htarget, -⟩ := hinclude
    cases htarget with
    | named => exact .none
    | embedded filename index =>
      rw [refusal?_embedded, refusal?_embedded]
      split
      · exact .some ⟨rfl, rfl, hspan⟩
      · exact .none

theorem Node.Forgives.firstRefusal? {tags tags' : List Node}
    (h : List.Forall₂ (fun tag tag' => Node.Forgives place [tag] [tag']) tags tags') :
    Option.Rel (MissingPart.Moved place) (Pass.firstRefusal? routeNode tags)
      (Pass.firstRefusal? routeNode tags') := by
  induction h with
  | nil => exact .none
  | @cons tag tag' rest rest' htag _ ih =>
    have hfirst := htag.refusal?
    unfold Pass.firstRefusal? at ih ⊢
    rw [List.findSome?_cons, List.findSome?_cons]
    revert hfirst
    generalize Pass.refusal? routeNode tag = fault
    generalize Pass.refusal? routeNode tag' = fault'
    intro hfirst
    cases hfirst with
    | none => exact ih
    | some hfault => exact .some hfault

namespace Tree

theorem respects_route : Respects (forgiving place) (forgiving place) routeTree routeTree routedNode
    routedNode where
  nodes h := Node.Forgives.routed h
  tree hparent hbody hembedded := by
    refine .intro ?_ hbody hembedded
    cases hparent with
    | none => exact .none
    | some he => exact .some (Node.Forgives.invoke_moved he .none (Expr.Moved.span he))

variable {tree tree' : Tree}

/-- The standard passes respect what belongs together. -/
theorem Forgives.compiled (h : tree.Forgives place tree') (overridden : Bool) :
    (tree.compiled overridden).Forgives place (tree'.compiled overridden) := by
  have hmerged : tree.merged.Forgives place tree'.merged :=
    Corresponds.change respects_merge tree h
  cases overridden with
  | false => exact hmerged
  | true => exact Corresponds.change respects_route tree.merged hmerged

/-- They refuse one tree where they refuse the other, with the fault at its own place. -/
theorem Forgives.refused? (h : tree.Forgives place tree') (overridden : Bool) :
    Option.Rel (MissingPart.Moved place) (tree.refused? overridden)
      (tree'.refused? overridden) := by
  cases overridden with
  | false => exact .none
  | true => exact Node.Forgives.firstRefusal? (Corresponds.tags tree h)

end Tree

/-- A missing template. -/
def Failure.Missing (failure : Failure) : Prop := ∃ name, failure = .templateNotFound name

section Rendering

variable {n₁ n₂ : Type → Type} [Monad n₁] [Monad n₂] {τ₁ τ₂ : Type} [Runs n₁ τ₁] [Runs n₂ τ₂]
  {S : τ₁ → τ₂ → Prop}

/-- Two renderings of which the second one tracks the first one, unless a template is missing. -/
abbrev Forgiving (place : Span → Span → Prop) (S : τ₁ → τ₂ → Prop) {α β : Type} (R : α → β → Prop)
    (x : Rendering n₁ α) (y : Rendering n₂ β) : Prop :=
  Tracks Failure.Missing (Failure.Moved place) S R x y

/-! ## Hosts -/

variable {h₁ : Host n₁} {h₂ : Host n₂}

namespace Host

theorem included?_forgiving (h : h₁.Tracks place S (Tree.Forgives place) h₂) (context : Context)
    {ignoreMissing ignoreMissing' : Bool} (hignore : ignoreMissing = true → ignoreMissing' = true)
    {e e' : Expr} (he : e.Moved place e') :
    Forgiving place S (Option.Rel (Tree.Forgives place)) (h₁.included? context ignoreMissing e)
      (h₂.included? context ignoreMissing' e') := by
  refine (Tracks.excused (evaluate_moved h.settings h.function context e he)).bind ?_
  rintro value _ rfl
  exact optional_tracks (resolve_tracks h value he.span) hignore

/-- Hosts that find templates of this kind. -/
theorem forgives (h : h₁.Tracks place S (Tree.Forgives place) h₂) :
    h₁.access.Corresponds (forgiving place) Failure.Missing (Failure.Moved place) S h₂.access where
  same := .same
  maxDepth := congrArg Settings.maxDepth h.settings
  print context _ _ he := .excused (print_moved h.settings h.function context he)
  parent context _ _ he := .excused (parent_moved h context he)
  insertion? := by
    rintro context owner owner' howner span span' target target' clauses clauses'
      ⟨-, htarget, hclauses⟩
    have hpassed : Forgiving place S Eq (h₁.passed context clauses.bindings)
        (h₂.passed context clauses'.bindings) :=
      .excused (passed_moved h.settings h.function context hclauses.bindings)
    cases htarget with
    | @named e e' he =>
      refine Tracks.congr ?_ (outcome_insertion?_named h₁ context owner e clauses)
        (outcome_insertion?_named h₂ context owner' e' clauses')
      refine (included?_forgiving h context hclauses.ignoreMissing he).bind ?_
      intro found found' hfound
      cases hfound with
      | none => exact .pure .none
      | some htree =>
        refine hpassed.bind ?_
        rintro bindings _ rfl
        exact .pure (.some ⟨htree, htree, by rw [hclauses.only]⟩)
    | embedded filename index =>
      have hembedded := howner.embedded index
      generalize htree : owner.embedded[index]? = found at hembedded
      generalize htree' : owner'.embedded[index]? = found' at hembedded
      cases hembedded with
      | none =>
        exact Tracks.congr (.throw (.same _))
          (outcome_insertion?_missing h₁ context htree filename clauses)
          (outcome_insertion?_missing h₂ context htree' filename clauses')
      | some hinner =>
        refine Tracks.congr ?_ (outcome_insertion?_embedded h₁ context htree filename clauses)
          (outcome_insertion?_embedded h₂ context htree' filename clauses')
        refine hpassed.bind ?_
        rintro bindings _ rfl
        exact .pure (.some ⟨hinner, howner, by rw [hclauses.only]⟩)

end Host

end Rendering

/-! ## Stores -/

/-- Two sources of one template: the same, or of two trees of which the second one forgives what the
    first one does not. -/
def SourceForgives (place : Span → Span → Prop) (name source source' : String) : Prop :=
  source = source' ∨ ∃ tree tree', Tree.parse name source.toList = .ok tree ∧
    Tree.parse name source'.toList = .ok tree' ∧ tree.Forgives place tree'

/-- Two stores with the same templates, of which the second one has more includes that ignore
    missing templates. -/
structure Loader.Forgives (place : Span → Span → Prop) (store store' : Loader Id) : Prop where
  has : ∀ name, store.has name = store'.has name
  source : ∀ name, EndsAlike Eq (SourceForgives place name) (store.source name).run
    (store'.source name).run

/-- Given sources of this kind, one by one. -/
theorem Loader.memory_forgives {templates templates' : Dict String}
    (h : List.Forall₂ (fun p p' => p.1 = p'.1 ∧ SourceForgives place p.1 p.2 p'.2) templates
      templates') : (memory templates : Loader Id).Forgives place (memory templates') := by
  have hget : ∀ name, Option.Rel (SourceForgives place name) (Dict.get? templates name)
      (Dict.get? templates' name) := by
    intro name
    induction h with
    | nil => exact .none
    | @cons p p' rest rest' hp _ ih =>
      obtain ⟨key, source⟩ := p
      obtain ⟨_, source'⟩ := p'
      obtain ⟨rfl, hsource⟩ := hp
      simp only [Dict.get?]
      split
      · subst name
        exact .some hsource
      · exact ih
  refine ⟨fun name => ?_, fun name => ?_⟩
  all_goals
    have hname := hget name
    simp only [memory, Dict.contains, lookUp]
    revert hname
    generalize Dict.get? templates name = source
    generalize Dict.get? templates' name = source'
    rintro (hsource | _)
  · rfl
  · rfl
  · exact .ok hsource
  · exact .error rfl

namespace Engine

variable {m : Type → Type} [Monad m] {τ : Type} [Runs m τ] {overridden : Bool}

/-- The engine over another store. -/
def onStore (e : Engine m) (store : Loader Id) : Engine m := { e with loader := store.lift }

/-- Two templates whose trees are of this kind. -/
def TemplateForgives (place : Span → Span → Prop) (t t' : Template) : Prop :=
  t.tree.Forgives place t'.tree

section Compiling

variable {e : Engine m} (he : e.passes = standardPasses overridden)
  (hplace : ∀ span, place span span)

include he hplace

theorem compile_forgiving (store' : Loader Id) {name source source' : String}
    (h : SourceForgives place name source source') :
    Tracks (fun _ => False) (Failure.Moved place) (Eq (α := τ)) (TemplateForgives place)
      (e.compile name source) ((e.onStore store').compile name source') := by
  have he' : (e.onStore store').passes = standardPasses overridden := he
  have htrees : ∀ tree tree' : Tree, Tree.parse name source.toList = .ok tree →
      Tree.parse name source'.toList = .ok tree' → tree.Forgives place tree' →
      Tracks (fun _ => False) (Failure.Moved place) (Eq (α := τ)) (TemplateForgives place)
        (e.compile name source) ((e.onStore store').compile name source') := by
    intro tree tree' htree htree' hforgives
    have hrefused := hforgives.refused? overridden
    have hcompiled := hforgives.compiled overridden
    refine .of_outcome ?_
    rintro s _ rfl
    refine ⟨_, _, s, s, outcome_compile_eq he htree s, outcome_compile_eq he' htree' s, rfl, ?_⟩
    revert hrefused
    generalize tree.refused? overridden = fault
    generalize tree'.refused? overridden = fault'
    intro hrefused
    cases hrefused with
    | none => exact .ok hcompiled
    | some hfault => exact .error (.invalidTree name hfault)
  obtain rfl | ⟨tree, tree', htree, htree', hforgives⟩ := h
  · cases hparse : Tree.parse name source.toList with
    | error faults =>
      refine .of_outcome ?_
      rintro s _ rfl
      exact ⟨_, _, s, s, compile_of_faults hparse s, compile_of_faults hparse s, rfl,
        .error (.same _)⟩
    | ok tree => exact htrees tree tree hparse hparse (tree.forgives_self hplace)
  · exact htrees tree tree' htree htree' hforgives

theorem loadFresh_forgiving {store store' : Loader Id} (hloader : e.loader = store.lift)
    (hstore : store.Forgives place store') (name : String) :
    Tracks (fun _ => False) (Failure.Moved place) (Eq (α := τ)) (TemplateForgives place)
      (e.loadFresh name) ((e.onStore store').loadFresh name) := by
  have hloader' : (e.onStore store').loader = store'.lift := rfl
  have hsources : EndsAlike Eq (SourceForgives place name) (store.source name)
      (store'.source name) := hstore.source name
  cases hsource : store.source name with
  | error fault =>
    cases hsource' : store'.source name with
    | error fault' =>
      rw [hsource, hsource'] at hsources
      cases hsources with
      | error hfault =>
      subst hfault
      refine .of_outcome ?_
      rintro s _ rfl
      exact ⟨_, _, s, s, loadFresh_of_fault hloader hsource s,
        loadFresh_of_fault hloader' hsource' s, rfl, .error (.same _)⟩
    | ok source' =>
      rw [hsource, hsource'] at hsources
      cases hsources
  | ok source =>
    cases hsource' : store'.source name with
    | error fault' =>
      rw [hsource, hsource'] at hsources
      cases hsources
    | ok source' =>
      rw [hsource, hsource'] at hsources
      cases hsources with
      | ok hforgives =>
      exact (compile_forgiving he hplace store' hforgives).congr
        (funext fun s => loadFresh_of_source hloader hsource s)
        (funext fun s => loadFresh_of_source hloader' hsource' s)

end Compiling

/-! ## Rendering -/

section Rendering

variable {e : Engine m} {store store' : Loader Id}

/-- The engine over the other store finds templates of this kind. -/
theorem host_tracks (he : e.passes = standardPasses overridden)
    (hplace : ∀ span, place span span) (hloader : e.loader = store.lift)
    (hstore : store.Forgives place store') :
    e.host.Tracks place (Keeping (TemplateForgives place) (Eq (α := τ))) (Tree.Forgives place)
      (e.onStore store').host where
  settings := rfl
  function _ := hostOf_function_follows rfl
  has name := by
    have hhas : e.loader.has = (store'.lift : Loader m).has := by
      rw [hloader]
      exact funext fun name => congrArg pure (hstore.has name)
    simp only [host, hostOf, onStore, hhas]
    exact available_follows (fun _ => .same _) name
  load name :=
    (keep_tracks (loadFresh_forgiving he hplace hloader hstore) name).map_ok fun _ _ h => h

variable (place) in
/-- How a step ends: with a result up to places, and with the result itself where no place has
    moved, and with templates kept that belong to those of a state. -/
def EndsAs {α : Type} (ending : Option (Except Failure α × Cache × τ)) (result : Except Failure α)
    (after : Cache × τ) : Prop :=
  ∃ result' after', ending = some (result', after') ∧
    EndsAlike (Failure.Moved place) Eq result result' ∧
    ((∀ span span', place span span' → span = span') → result' = result) ∧
    Keeping (TemplateForgives place) Eq after after'

/-- A step ends as the one that it tracks, unless that one missed a template. -/
theorem endsAs_of_tracks {α : Type} {x y : Rendering (StateT Cache m) α}
    (h : Forgiving place (Keeping (TemplateForgives place) (Eq (α := τ))) Eq x y)
    {before before' after : Cache × τ}
    (hbefore : Keeping (TemplateForgives place) Eq before before') {result : Except Failure α}
    (hfound : ∀ name, result ≠ .error (.templateNotFound name))
    (hrun : outcome x before = some (result, after)) :
    EndsAs place (outcome y before') result after := by
  obtain ⟨_, rfl, name, rfl⟩ | ⟨result', after', hrun', hafter, hends⟩ := h hbefore hrun
  · exact absurd rfl (hfound name)
  refine ⟨result', after', hrun', hends, fun hplace => ?_, hafter⟩
  cases hends with
  | ok h => rw [h]
  | error h => rw [Failure.moved_eq hplace h]

/-- Ignoring a missing template hides nothing else. Over a store in which more includes do so, a
    rendering that ends otherwise than by a missing template ends with the same text, or with the
    same failure at the place where the other store has it; where no place has moved, with exactly
    the same result. So it is with and without the hooks of a chain, with any functions,
    settings and patience, and from any templates kept before, if those belong together: for a
    template by its name, for one that is compiled already, and for a source compiled apart from the
    store. -/
theorem render_forgiving (he : e.passes = standardPasses overridden)
    (hplace : ∀ span, place span span) (hloader : e.loader = store.lift)
    (hstore : store.Forgives place store') (context : Context) {before before' after : Cache × τ}
    (hbefore : Keeping (TemplateForgives place) Eq before before') {result : Except Failure String}
    (hfound : ∀ name, result ≠ .error (.templateNotFound name)) :
    (∀ name, run (e.render name context) before = some (result, after) →
      EndsAs place (run ((e.onStore store').render name context) before') result after) ∧
    (∀ template template', TemplateForgives place template template' →
      run (e.renderTemplate template context) before = some (result, after) →
      EndsAs place (run ((e.onStore store').renderTemplate template' context) before') result
        after) ∧
    ∀ name source source', SourceForgives place name source source' →
      outcome (e.renderSource name source context) before = some (result, after) →
      EndsAs place (outcome ((e.onStore store').renderSource name source' context) before') result
        after := by
  have hhost := host_tracks (τ := τ) he hplace hloader hstore
  have htemplate : ∀ template template', TemplateForgives place template template' →
      Forgiving place (Keeping (TemplateForgives place) (Eq (α := τ))) Eq
        (.ofAction (e.renderTemplate template context) : Rendering (StateT Cache m) String)
        (.ofAction ((e.onStore store').renderTemplate template' context)) :=
    fun _ _ ht => (Host.forgives hhost).render e.patience ht context
  refine ⟨fun name => ?_, fun template template' ht => ?_, fun name source source' hsource => ?_⟩
  · refine endsAs_of_tracks (Tracks.bind (R := TemplateForgives place) ?_ htemplate) hbefore hfound
    exact Tracks.excused (keep_tracks (loadFresh_forgiving he hplace hloader hstore) name)
  · exact endsAs_of_tracks (htemplate template template' ht) hbefore hfound
  · refine endsAs_of_tracks (Tracks.bind (R := TemplateForgives place) ?_ htemplate) hbefore hfound
    exact Tracks.excused (lift_tracks (compile_forgiving he hplace store' hsource))

end Rendering

/-- A notice that includes a template under a name that the chain knows, with a clause. -/
def notice (clause : String) : Dict String :=
  [("date", "\x7b\x7b" ++ "x" ++ "\x7d\x7d"), ("notice", tag (" include 'old'" ++ clause))]

/-- A strict engine whose chain renames the template that is included. -/
def noticeEngine (clause : String) : Engine Id :=
  overriding (Loader.memory (notice clause)) { strictVariables := true } [] 0
    ⟨[.table [("old", "date")]]⟩

/-- The template of the notice. -/
def noticeTree (ignoreMissing : Bool) : Tree :=
  ⟨"notice", none, [.«include» ⟨0, 34⟩ (.named (.constant ⟨11, 16⟩ (.string "old")))
    { ignoreMissing := ignoreMissing }], [], none⟩

/-- Whether the template of the notice was read. -/
def isNotice (ignoreMissing : Bool) : Except (List Syntax.Fault) Tree → Bool
  | .ok ⟨name, none, [.«include» span (.named (.constant place (.string target)))
      ⟨ignored, none, only⟩], [], none⟩ =>
    name = "notice" ∧ span = ⟨0, 34⟩ ∧ place = ⟨11, 16⟩ ∧ target = "old" ∧ only = false ∧
      ignored = ignoreMissing
  | _ => false

theorem eq_of_isNotice {ignoreMissing : Bool} {result : Except (List Syntax.Fault) Tree}
    (h : isNotice ignoreMissing result = true) : result = .ok (noticeTree ignoreMissing) := by
  unfold isNotice at h
  split at h
  · obtain ⟨rfl, rfl, rfl, rfl, rfl, rfl⟩ := of_decide_eq_true h
    rfl
  · cases h

/-- A variable that the included template misses is reported, whether the template may be missing
    or not. -/
theorem render_forgiving_notice :
    ∃ after after',
      run ((noticeEngine "                ").render "notice" []) ([], ()) =
        some (.error (.undefinedVariable "x" ⟨2, 3⟩), after) ∧
      run (((noticeEngine "                ").onStore
        (Loader.memory (notice " ignore missing "))).render "notice" []) ([], ()) =
        some (.error (.undefinedVariable "x" ⟨2, 3⟩), after') := by
  have hself : ∀ e : Expr, e.Moved Eq e := Expr.moved_self fun _ => rfl
  have hparse : Tree.parse "notice" (tag " include 'old'                ").toList =
      .ok (noticeTree false) := eq_of_isNotice (by decide +kernel)
  have hparse' : Tree.parse "notice" (tag " include 'old' ignore missing ").toList =
      .ok (noticeTree true) := eq_of_isNotice (by decide +kernel)
  have htree : (noticeTree false).Forgives Eq (noticeTree true) :=
    .intro .none (.«include» ⟨rfl, .named (hself _), nofun, .none, rfl⟩ .nil) .nil
  have hstore : (Loader.memory (notice "                ") : Loader Id).Forgives Eq
      (Loader.memory (notice " ignore missing ")) :=
    Loader.memory_forgives (.cons ⟨rfl, .inl rfl⟩
      (.cons ⟨rfl, .inr ⟨_, _, hparse, hparse', htree⟩⟩ .nil))
  have hresult : (((noticeEngine "                ").render "notice" []).run []).1 =
      .error (.undefinedVariable "x" ⟨2, 3⟩) := by decide +kernel
  have hrun : run ((noticeEngine "                ").render "notice" []) ([], ()) =
      some (.error (.undefinedVariable "x" ⟨2, 3⟩),
        (((noticeEngine "                ").render "notice" []).run []).2, ()) := by
    rw [← hresult]
    rfl
  have hkept : Keeping (TemplateForgives Eq) Eq (([], ()) : Cache × Unit) ([], ()) := ⟨.nil, rfl⟩
  obtain ⟨_, after', hrun', -, hsame, -⟩ :=
    (render_forgiving (overriding_passes _ _ _ _ _) (fun _ => rfl) rfl hstore [] hkept
      (by simp)).1 "notice" hrun
  rw [hsame fun _ _ => id] at hrun'
  exact ⟨_, after', hrun, hrun'⟩

end Engine

end Stencil
