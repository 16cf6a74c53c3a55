import Stencil.Proofs.Overriding
import Stencil.Proofs.Pairings

/-!
# Rendering under relaxed settings

Settings decide whether an unknown variable or key is a failure, and how deep templates may be
nested. Settings that are no stricter and reach no less deep are a relaxation. What was rendered
under the former is rendered alike under the latter, step by step, through everything that is
forgiven on the way: reading differs only where the stricter settings fail, and so does entering a
template.

Results:
* `variableValue_relaxed`, `keyValue_relaxed`: reading a variable or a key.
* `Host.evaluate_relaxed`: evaluating an expression.
* `Engine.configured_pairs`: an engine and the same engine under relaxed settings.
* `Engine.render_relaxed`: rendering under relaxed settings.
-/

namespace Stencil

/-! ## Reading -/

/-- The second settings read like the first ones; or they are no stricter, and whatever fails under
    the first ones is excused. -/
def Settings.Eases (excuse : Failure → Prop) (settings settings' : Settings) : Prop :=
  settings'.strictVariables = settings.strictVariables ∨
    ((settings'.strictVariables = true → settings.strictVariables = true) ∧ ∀ f, excuse f)

section Reading

variable {settings settings' : Settings}
  (hstrict : settings'.strictVariables = true → settings.strictVariables = true)

include hstrict

/-- What reads as null where it is missing does so under settings that are no stricter. -/
theorem missing_relaxed {f : Failure} {value : Value}
    (h : (if settings.strictVariables then .error f else .ok .null : Except Failure Value) =
      .ok value) :
    (if settings'.strictVariables then .error f else .ok .null : Except Failure Value) =
      .ok value := by
  cases hsettings : settings.strictVariables with
  | true =>
    rw [hsettings] at h
    cases h
  | false =>
    have hsettings' : settings'.strictVariables = false := by
      rw [Bool.eq_false_iff]
      intro htrue
      simp [hstrict htrue] at hsettings
    rw [hsettings] at h
    rw [hsettings']
    exact h

/-- A variable that is found under some settings is found under settings that are no stricter. -/
theorem variableValue_relaxed {context : Context} {name : String} {span : Span} {value : Value}
    (h : variableValue settings context name span = .ok value) :
    variableValue settings' context name span = .ok value := by
  unfold variableValue at h ⊢
  by_cases hname : name = Expr.contextName
  · rwa [if_pos hname] at h ⊢
  · rw [if_neg hname] at h ⊢
    cases hget : Dict.get? context name with
    | some found =>
      rw [hget] at h
      exact h
    | none =>
      rw [hget] at h
      exact missing_relaxed hstrict h

/-- A key that is found under some settings is found under settings that are no stricter. -/
theorem keyValue_relaxed {object : Value} {key : String} {span : Span} {value : Value}
    (h : keyValue settings object key span = .ok value) :
    keyValue settings' object key span = .ok value := by
  unfold keyValue at h ⊢
  cases hfield : object.field? key with
  | some found =>
    rw [hfield] at h
    exact h
  | none =>
    rw [hfield] at h
    exact missing_relaxed hstrict h

end Reading

section Evaluation

variable {n₁ n₂ : Type → Type} [Monad n₁] [Monad n₂] {τ₁ τ₂ : Type} [Runs n₁ τ₁] [Runs n₂ τ₂]
  {T₁ T₂ : Type} {excuse : Failure → Prop} {S : τ₁ → τ₂ → Prop}

/-- An answer that stays if all failures are excused. -/
theorem Follows.of_ok {α : Type} {r r' : Except Failure α} (hexcuse : ∀ f, excuse f)
    (h : ∀ a, r = .ok a → r' = .ok a) :
    Follows excuse S Eq (.of r : Rendering n₁ α) (.of r' : Rendering n₂ α) := by
  cases r with
  | ok a =>
    rw [h a rfl]
    exact .of_same _ _ _
  | error f => exact .congr (.of_excuse (hexcuse f)) (by funext s; simp) rfl

/-- Evaluation under settings that ease the former ones. -/
theorem Host.evaluate_relaxed {h₁ : Host n₁ T₁} {h₂ : Host n₂ T₂}
    (hsettings : h₁.settings.Eases excuse h₂.settings)
    (hfunctions : ∀ name, FunctionFollows excuse S h₁ h₂ name) (context : Context) (e : Expr) :
    Follows excuse S Eq (h₁.evaluate context e) (h₂.evaluate context e) := by
  refine evaluate_reads (c := .follows excuse S) ?keys e ?reads fun name _ => hfunctions name
  case keys =>
    intro object key span
    rcases hsettings with hsame | ⟨hstrict, hexcuse⟩
    · unfold keyValue
      rw [hsame]
      exact .of_same _ _ _
    · exact .of_ok hexcuse fun value hvalue => keyValue_relaxed hstrict hvalue
  case reads =>
    intro name _ span
    rcases hsettings with hsame | ⟨hstrict, hexcuse⟩
    · unfold variableValue
      rw [hsame]
      exact .of_same _ _ _
    · exact .of_ok hexcuse fun value hvalue => variableValue_relaxed hstrict hvalue

end Evaluation

/-! ## Engines -/

namespace Engine

variable {m : Type → Type} [Monad m] {τ : Type} [Runs m τ]

/-- The engine under other settings. -/
def configured (e : Engine m) (settings : Settings) : Engine m := { e with settings := settings }

/-- The same template, whatever its expressions are. -/
theorem paired_self (t t' : Template) (h : t = t') :
    t.tree.AllPaired (fun _ => True) t'.tree := by
  rw [h]
  exact .refl fun _ _ _ _ => trivial

/-- Equal states, in which the same templates are kept. -/
theorem keeping_eq (s t : Cache × τ) : Keeping Eq Eq s t ↔ s = t := by
  refine ⟨fun h => ?_, ?_⟩
  · obtain ⟨hkept, hrest⟩ := h
    have hall : Dict.Related (fun a b => a = b ∧ True) s.1 t.1 :=
      hkept.imp fun _ _ hp => ⟨hp.1, hp.2, trivial⟩
    exact Prod.ext hall.eq.1 hrest
  · rintro rfl
    exact ⟨List.forall₂_same.2 fun _ _ => ⟨rfl, rfl⟩, rfl⟩

/-- A result without an excuse stays the same, and so does what is kept. -/
theorem run_of_follows {α : Type} {excuse : Failure → Prop}
    {x y : StateT Cache m (Except Failure α)}
    (h : Follows excuse (Keeping Eq (Eq (α := τ))) Eq (.ofAction x : Rendering (StateT Cache m) α)
      (.ofAction y : Rendering (StateT Cache m) α)) {before after : Cache × τ}
    {result : Except Failure α} (hrun : run x before = some (result, after))
    (hresult : ∀ f, result = .error f → ¬ excuse f) : run y before = some (result, after) := by
  rcases h ((keeping_eq before before).2 rfl) hrun with ⟨f, hf, hexcuse⟩ | ⟨r, s, hy, hkept, hends⟩
  · exact absurd hexcuse (hresult f hf)
  · rw [hends.eq, (keeping_eq after s).1 hkept]
    exact hy

/-- An engine under settings that ease its own and reach as far. -/
theorem configured_pairs (e : Engine m) {settings : Settings} {excuse : Failure → Prop}
    (hsettings : e.settings.Eases excuse settings)
    (hdepth : e.settings.maxDepth ≤ settings.maxDepth)
    (hexcuse : ∀ limit name, excuse (.tooDeep limit name)) :
    Pairs (τ := τ) excuse Eq Eq (fun _ => True) e (e.configured settings) := by
  refine pairs rfl rfl (.inr ⟨hdepth, hexcuse⟩) ?_ ?_ (fun name => .same _) paired_self
  · rintro context _ rfl expr -
    have hhost : e.host.settings.Eases excuse (e.configured settings).host.settings := hsettings
    exact Host.evaluate_relaxed hhost (fun name => hostOf_function_follows rfl) context expr
  · rintro context _ rfl only bindings
    rfl

/-- A relaxation breaks no rendering. Under settings that are no stricter and reach as deep as those
    of an engine, whatever that engine renders is rendered to the same text. If the settings are as
    strict as before, every result stays the same but a failure to go deeper. From any state and with
    any patience, and with the same templates kept afterwards. -/
theorem render_relaxed {e : Engine m} {settings : Settings}
    (hstrict : settings.strictVariables = true → e.settings.strictVariables = true)
    (hdepth : e.settings.maxDepth ≤ settings.maxDepth) (context : Context)
    (before after : Cache × τ) :
    ((∀ name text, run (e.render name context) before = some (.ok text, after) →
        run ((e.configured settings).render name context) before = some (.ok text, after)) ∧
      ∀ template text, run (e.renderTemplate template context) before = some (.ok text, after) →
        run ((e.configured settings).renderTemplate template context) before =
          some (.ok text, after)) ∧
    (settings.strictVariables = e.settings.strictVariables →
      ∀ result, (∀ limit name, result ≠ .error (.tooDeep limit name)) →
        (∀ name, run (e.render name context) before = some (result, after) →
          run ((e.configured settings).render name context) before = some (result, after)) ∧
        ∀ template, run (e.renderTemplate template context) before = some (result, after) →
          run ((e.configured settings).renderTemplate template context) before =
            some (result, after)) := by
  constructor
  · have hpairs : Pairs (τ := τ) (fun _ => True) Eq Eq (fun _ => True) e (e.configured settings) :=
      configured_pairs e (.inr ⟨hstrict, fun _ => trivial⟩) hdepth fun _ _ => trivial
    constructor
    · intro name text hrun
      exact run_of_follows (hpairs.render rfl name) hrun nofun
    · intro template text hrun
      exact run_of_follows (hpairs.renderTemplate rfl (paired_self _ _ rfl)) hrun nofun
  · intro hsame result hresult
    have hpairs : Pairs (τ := τ) (fun f => ∃ limit name, f = .tooDeep limit name) Eq Eq
        (fun _ => True) e (e.configured settings) :=
      configured_pairs e (.inl hsame) hdepth fun limit name => ⟨limit, name, rfl⟩
    have hexcuse : ∀ f, result = .error f → ¬ ∃ limit name, f = .tooDeep limit name := by
      rintro _ hf ⟨limit, name, rfl⟩
      exact hresult limit name hf
    constructor
    · intro name hrun
      exact run_of_follows (hpairs.render rfl name) hrun hexcuse
    · intro template hrun
      exact run_of_follows (hpairs.renderTemplate rfl (paired_self _ _ rfl)) hrun hexcuse

/-- A letter with a card in it, and one that prints an unknown variable. -/
def letters : Dict String :=
  [("card", "<" ++ "\x7b\x7b" ++ "word" ++ "\x7d\x7d" ++ ">"),
    ("letter", tag "include ['none', 'note']" ++ tag "include 'none' ignore missing" ++ "!"),
    ("blank", tag "include 'letter'" ++ "\x7b\x7b" ++ "date" ++ "\x7d\x7d")]

/-- A strict engine of little depth, whose chain renames a template. -/
def letterEngine : Engine Id :=
  overriding (Loader.memory letters) { strictVariables := true, maxDepth := 2 } [] 0
    ⟨[.table [("note", "card")]]⟩

/-- What the letters are about. -/
def letterContext : Context := [("word", .string "hi")]

/-- The letter is the same under the usual settings, and the blank one fails in the same way where
    templates may be nested deeper. -/
theorem render_relaxed_letters :
    (∃ cache, run (letterEngine.render "letter" letterContext) ([], ()) =
        some (.ok "<hi>!", cache, ()) ∧
      run ((letterEngine.configured {}).render "letter" letterContext) ([], ()) =
        some (.ok "<hi>!", cache, ())) ∧
    ∃ cache, run (letterEngine.render "blank" letterContext) ([], ()) =
        some (.error (.undefinedVariable "date" ⟨22, 26⟩), cache, ()) ∧
      run ((letterEngine.configured { strictVariables := true }).render "blank" letterContext)
        ([], ()) = some (.error (.undefinedVariable "date" ⟨22, 26⟩), cache, ()) := by
  have hrun : ∀ name result, ((letterEngine.render name letterContext).run []).1 = result →
      run (letterEngine.render name letterContext) ([], ()) =
        some (result, ((letterEngine.render name letterContext).run []).2, ()) := by
    rintro name _ rfl
    rfl
  have hletter := hrun "letter" (.ok "<hi>!") (by decide +kernel)
  have hblank := hrun "blank" (.error (.undefinedVariable "date" ⟨22, 26⟩)) (by decide +kernel)
  have hfailure : ∀ limit name, (.error (.undefinedVariable "date" ⟨22, 26⟩) :
      Except Failure String) ≠ .error (.tooDeep limit name) := by simp
  have hlenient : ({} : Settings).strictVariables = true →
      letterEngine.settings.strictVariables = true := nofun
  have hstrict : ({ strictVariables := true } : Settings).strictVariables = true →
      letterEngine.settings.strictVariables = true := fun _ => rfl
  have husual := fun after => render_relaxed hlenient (by decide) letterContext ([], ()) after
  have hraised := fun after => render_relaxed hstrict (by decide) letterContext ([], ()) after
  exact ⟨⟨_, hletter, (husual _).1.1 "letter" _ hletter⟩,
    ⟨_, hblank, ((hraised _).2 rfl _ hfailure).1 "blank" hblank⟩⟩

end Engine

end Stencil
