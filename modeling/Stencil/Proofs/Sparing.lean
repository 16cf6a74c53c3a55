import Stencil.Proofs.EmptyChain
import Stencil.Proofs.Uncached

/-!
# Names that are not asked for

A loader may give no answer about one of its names. If a template can be rendered over it all the
same, then the rendering does not ask whether this name is there, nor for its source. So it does the
same over all loaders that differ in nothing but the answers about this name.

Results:
* `Engine.compile_follows`: compiling in two monads.
* `Engine.render_follows_hushed`, `Engine.renderSource_follows_hushed`: rendering over a loader that
  gives no answer about a name.
* `Engine.renders_iff_of_agree`, `Engine.rendersSource_iff_of_agree`: rendering over two loaders.
-/

namespace Stencil

namespace Loader

/-- A loader that gives no answer about one name. -/
def hushed (store : Loader Id) (hidden : String) : Loader Option where
  source name := if name = hidden then none else some (store.source name)
  has name := if name = hidden then none else some (store.has name)

/-- Loaders that give the same answers about all names but one. -/
def AgreeOff (hidden : String) (store store' : Loader Id) : Prop :=
  ∀ name, name ≠ hidden → store.source name = store'.source name ∧
    store.has name = store'.has name

theorem AgreeOff.refl (hidden : String) (store : Loader Id) : AgreeOff hidden store store :=
  fun _ _ => ⟨rfl, rfl⟩

end Loader

namespace Engine

/-! ## Compiling -/

/-- Compiling does the same in any two monads. -/
theorem compile_follows {m₁ m₂ : Type → Type} [Monad m₁] [Monad m₂] {τ₁ τ₂ : Type} [Runs m₁ τ₁]
    [Runs m₂ τ₂] {S : τ₁ → τ₂ → Prop} {e₁ : Engine m₁} {e₂ : Engine m₂}
    (h₁ : e₁.passes = standardPasses false) (h₂ : e₂.passes = standardPasses false)
    (name source : String) :
    Follows (fun _ => False) S Eq (e₁.compile name source) (e₂.compile name source) := by
  refine .of_outcome fun s t hS => ?_
  cases hparse : Tree.parse name source.toList with
  | error faults =>
    exact ⟨_, _, s, t, compile_of_faults hparse s, compile_of_faults hparse t, hS, .error _⟩
  | ok tree =>
    obtain ⟨hrefused, -⟩ | ⟨-, hleft⟩ := compile_of_tree h₁ hparse s
    · exact (hrefused nofun).elim
    obtain ⟨hrefused, -⟩ | ⟨-, hright⟩ := compile_of_tree h₂ hparse t
    · exact (hrefused nofun).elim
    exact ⟨_, _, s, t, hleft, hright, hS, .refl _⟩

/-! ## Rendering -/

/-- The engine of a loader that gives no answer about one name. -/
def hushed (store : Loader Id) (settings : Settings) (functions : Dict (Function Id))
    (patience : Nat) (hidden : String) : Engine Option :=
  { (ofFunctions store settings functions patience : Engine Option) with
    loader := store.hushed hidden }

/-- A template is rendered, or fails to be, without a question about one name. -/
def Spares (store : Loader Id) (settings : Settings) (functions : Dict (Function Id))
    (patience : Nat) (name : String) (context : Context) (hidden : String) : Prop :=
  (((hushed store settings functions patience hidden).render name context).run []).isSome = true

/-- A source is rendered, or fails to be, without such a question. -/
def SparesSource (store : Loader Id) (settings : Settings) (functions : Dict (Function Id))
    (patience : Nat) (name source : String) (context : Context) (hidden : String) : Prop :=
  (((hushed store settings functions patience hidden).renderSource name source context).run.run
    []).isSome = true

/-- What a step gives that follows another one from an empty cache, if that one gives something. -/
theorem result_of_hushed {α : Type} {x : Rendering (StateT Cache Option) α}
    {y : Rendering (StateT Cache Id) α}
    (h : Follows (fun _ => False) (Keeping Eq (Eq (α := Unit))) Eq x y) {result : Except Failure α}
    {cache : Cache} (hx : x.run.run [] = some (result, cache)) : (y.run.run []).1 = result := by
  have hleft : outcome x ([], ()) = some (result, cache, ()) := by
    unfold outcome
    rw [run_stateT, hx]
    rfl
  obtain ⟨t, hright, -⟩ := h.eq (t := ([], ())) ⟨.nil, rfl⟩ hleft
  exact congrArg Prod.fst (Option.some.inj hright)

section Rendering

variable {store store' : Loader Id} {settings : Settings} {functions : Dict (Function Id)}
  {patience : Nat} {hidden : String} (hagree : Loader.AgreeOff hidden store store')

include hagree

/-- Two engines load the same template, if the first one answers at all. -/
theorem loadFresh_follows_hushed (name : String) :
    Follows (fun _ => False) (Eq (α := Unit)) Eq
      ((hushed store settings functions patience hidden).loadFresh name)
      ((ofFunctions store' settings functions patience : Engine Id).loadFresh name) := by
  have hsource : Follows (fun _ => False) (Eq (α := Unit)) Eq
      (ExceptT.mk (Except.mapError (failureOfLoad name) <$>
        (store.hushed hidden).source name) : ExceptT Failure Option String)
      (ExceptT.mk (Except.mapError (failureOfLoad name) <$>
        (store'.lift : Loader Id).source name) : ExceptT Failure Id String) := by
    rintro s _ rfl r s' hx
    rw [outcome_mk, run_map] at hx
    by_cases hname : name = hidden
    · simp only [Loader.hushed, if_pos hname] at hx
      cases hx
    · rw [outcome_mk, run_map]
      simp only [Loader.hushed, if_neg hname, (hagree name hname).1] at hx
      cases hx
      exact .inr ⟨_, _, rfl, rfl, .refl _⟩
  refine hsource.bind ?_
  rintro source _ rfl
  exact compile_follows rfl rfl name source

theorem has_follows_hushed (name : String) :
    Follows (fun _ => False) (Eq (α := Unit)) Eq
      (ExceptT.lift ((store.hushed hidden).has name) : Rendering Option Bool)
      (ExceptT.lift ((store'.lift : Loader Id).has name) : Rendering Id Bool) := by
  rintro s _ rfl r s' hx
  rw [outcome_lift] at hx
  by_cases hname : name = hidden
  · simp only [Loader.hushed, if_pos hname] at hx
    cases hx
  · rw [outcome_lift]
    simp only [Loader.hushed, if_neg hname, (hagree name hname).2] at hx
    cases hx
    exact .inr ⟨_, _, rfl, rfl, .refl _⟩

omit hagree in
/-- A function without effects does the same in any two monads. -/
theorem function_follows_hushed (name : String) :
    FunctionFollows (fun _ => False) (Keeping Eq (Eq (α := Unit)))
      (hushed store settings functions patience hidden).host
      (ofFunctions store' settings functions patience : Engine Id).host name := by
  unfold FunctionFollows FunctionCompares
  simp only [host, hostOf, hushed, ofFunctions, Dict.get?_map]
  cases Dict.get? functions name with
  | none => exact trivial
  | some f =>
    intro values
    refine .of_outcome ?_
    rintro ⟨kept, s⟩ ⟨kept', t⟩ hkept
    exact ⟨_, _, (kept, s), (kept', t), rfl, rfl, hkept, .refl _⟩

theorem templates_follow_hushed :
    TemplatesFollow (fun _ => False) (Keeping Eq (Eq (α := Unit))) Eq
      (hushed store settings functions patience hidden).host
      (ofFunctions store' settings functions patience : Engine Id).host where
  has := available_follows (has_follows_hushed hagree)
  load name := by
    refine (keep_follows (loadFresh_follows_hushed hagree) name).map_ok ?_
    rintro template _ rfl
    rfl

theorem access_follows_hushed :
    (hushed store settings functions patience hidden).host.access.FollowedBy (fun _ => False)
      (Keeping Eq (Eq (α := Unit)))
      (ofFunctions store' settings functions patience : Engine Id).host.access :=
  Host.access_followedBy rfl function_follows_hushed (templates_follow_hushed hagree)
    fun _ => not_false

/-- Rendering over a loader that gives no answer about a name, and over a loader that does. -/
theorem render_follows_hushed (name : String) (context : Context) :
    Follows (fun _ => False) (Keeping Eq (Eq (α := Unit))) Eq
      (.ofAction ((hushed store settings functions patience hidden).render name context) :
        Rendering (StateT Cache Option) String)
      (.ofAction ((ofFunctions store' settings functions patience : Engine Id).render name
        context) : Rendering (StateT Cache Id) String) := by
  refine (keep_follows (loadFresh_follows_hushed hagree) name).bind ?_
  rintro template _ rfl
  exact (access_follows_hushed hagree).render patience template.tree context

/-- Rendering a source over a loader that gives no answer about a name, and over one that does. -/
theorem renderSource_follows_hushed (name source : String) (context : Context) :
    Follows (fun _ => False) (Keeping Eq (Eq (α := Unit))) Eq
      ((hushed store settings functions patience hidden).renderSource name source context)
      ((ofFunctions store' settings functions patience : Engine Id).renderSource name source
        context) := by
  refine (lift_follows (compile_follows rfl rfl name source)).bind ?_
  rintro template _ rfl
  exact (access_follows_hushed hagree).render patience template.tree context

/-- What a rendering without a question about a name gives, it gives over all loaders that agree on
    the other names. -/
theorem render_of_hushed {name : String} {context : Context} {result : Except Failure String}
    {cache : Cache} (h : ((hushed store settings functions patience hidden).render name
      context).run [] = some (result, cache)) :
    (((ofFunctions store' settings functions patience : Engine Id).render name context).run []).1 =
      result :=
  result_of_hushed (render_follows_hushed hagree name context) h

/-- Two loaders that agree on all names but one render alike where this name is not asked for. -/
theorem renders_iff_of_agree {name : String} {context : Context}
    (h : Spares store settings functions patience name context hidden) (output : String) :
    (ofFunctions store settings functions patience).Renders name context output ↔
      (ofFunctions store' settings functions patience).Renders name context output := by
  obtain ⟨⟨result, cache⟩, hrun⟩ := Option.isSome_iff_exists.1 h
  rw [renders_iff, renders_iff, render_of_hushed hagree hrun,
    render_of_hushed (.refl hidden store) hrun]

theorem rendersSource_iff_of_agree {name source : String} {context : Context}
    (h : SparesSource store settings functions patience name source context hidden)
    (output : String) :
    (ofFunctions store settings functions patience).RendersSource name source context output ↔
      (ofFunctions store' settings functions patience).RendersSource name source context
        output := by
  obtain ⟨⟨result, cache⟩, hrun⟩ := Option.isSome_iff_exists.1 h
  rw [rendersSource_iff, rendersSource_iff,
    result_of_hushed (renderSource_follows_hushed hagree name source context) hrun,
    result_of_hushed (renderSource_follows_hushed (.refl hidden store) name source context) hrun]

end Rendering

end Engine

end Stencil
