import Stencil.Config.Profile
import Stencil.Proofs.Pipelines

/-!
# Chains of listed providers

A profile lists tables of names and tables of arguments. Tables of names are checked when the chain
is built, and what that check excludes, no template is renamed to afterwards. Tables of arguments
are never refused; later ones replace the values of earlier ones, and none adds a variable.

Results:
* `Profile.chain_builds_iff`, `Profile.chain_refuses`: when there is a chain, and which provider is
  to blame if there is none.
* `Provider.lookUp_ne_empty`, `Provider.get?_replaceArguments`, `Provider.keys_replaceArguments`:
  one table.
* `Chain.outcome_rename_listed`, `Chain.outcome_rebind_listed`: the pipelines as functions.
* `Profile.chain_keeps`: names stay non-empty and keys stay the same along a chain that was built.
-/

namespace Stencil

open Override

/-! ## Single tables -/

namespace Override.Provider

theorem emptyName?_eq_none {templates : Dict String} :
    emptyName? templates = none ↔ ∀ entry ∈ templates, entry.1 ≠ "" ∧ entry.2 ≠ "" := by
  simp [emptyName?, List.find?_eq_none]

/-- A table without empty names gives no template an empty one. -/
theorem lookUp_ne_empty {templates : Dict String}
    (h : ∀ entry ∈ templates, entry.1 ≠ "" ∧ entry.2 ≠ "") {template : String}
    (htemplate : template ≠ "") : lookUp templates template ≠ "" := by
  unfold lookUp
  cases htarget : Dict.get? templates template with
  | none => exact htemplate
  | some target => exact (h _ (Dict.mem_of_get? htarget)).2

theorem keys_replaceArguments (arguments bindings : Context) :
    Dict.keys (replaceArguments arguments bindings) = Dict.keys bindings := by
  simp [Dict.keys, replaceArguments]

/-- A variable that is there has the value of the table, if the table has one. -/
theorem get?_replaceArguments (arguments bindings : Context) (key : String) :
    Dict.get? (replaceArguments arguments bindings) key =
      (Dict.get? bindings key).map fun value => (Dict.get? arguments key).getD value := by
  induction bindings with
  | nil => rfl
  | cons entry rest ih =>
    obtain ⟨first, value⟩ := entry
    simp only [replaceArguments, List.map_cons, Dict.get?] at ih ⊢
    split
    · next hkey =>
      subst hkey
      rfl
    · exact ih

end Override.Provider

/-! ## Listed providers -/

namespace ProviderSpec

/-- A table of names with an empty name in it. -/
def HasEmptyName : ProviderSpec → Prop
  | .table templates => ∃ entry ∈ templates, entry.1 = "" ∨ entry.2 = ""
  | .arguments _ => False

/-- The name that a provider gives a template. -/
def renames : ProviderSpec → String → String
  | .table templates, template => Provider.lookUp templates template
  | .arguments _, template => template

/-- The variables that a provider makes of others. -/
def rebinds : ProviderSpec → Context → Context
  | .table _, bindings => bindings
  | .arguments values, bindings => Provider.replaceArguments values bindings

/-- The value of a variable in a table of arguments. -/
def value? (key : String) : ProviderSpec → Option Value
  | .table _ => none
  | .arguments values => Dict.get? values key

theorem renames_ne_empty {spec : ProviderSpec} (h : ¬ spec.HasEmptyName) {template : String}
    (htemplate : template ≠ "") : spec.renames template ≠ "" := by
  cases spec with
  | arguments => exact htemplate
  | table templates =>
    refine Provider.lookUp_ne_empty (fun entry hentry => ?_) htemplate
    exact not_or.1 fun hempty => h ⟨entry, hentry, hempty⟩

theorem keys_rebinds (spec : ProviderSpec) (bindings : Context) :
    Dict.keys (spec.rebinds bindings) = Dict.keys bindings := by
  cases spec with
  | table => rfl
  | arguments values => exact Provider.keys_replaceArguments values bindings

theorem get?_rebinds (spec : ProviderSpec) (bindings : Context) (key : String) :
    Dict.get? (spec.rebinds bindings) key =
      (Dict.get? bindings key).map fun value => (spec.value? key).getD value := by
  cases spec with
  | table => exact Option.map_id'.symm
  | arguments values => exact Provider.get?_replaceArguments values bindings key

/-- The value of a variable in the last of the tables of arguments that hold it. -/
def lastValue? (specs : List ProviderSpec) (key : String) : Option Value :=
  specs.reverse.findSome? (value? key)

theorem lastValue?_cons (spec : ProviderSpec) (rest : List ProviderSpec) (key : String) :
    lastValue? (spec :: rest) key = (lastValue? rest key).or (spec.value? key) := by
  rw [lastValue?, List.reverse_cons, List.findSome?_append, List.findSome?_singleton]
  rfl

variable {specs : List ProviderSpec}

theorem foldl_renames_ne_empty (h : ∀ spec ∈ specs, ¬ spec.HasEmptyName) {template : String}
    (htemplate : template ≠ "") :
    specs.foldl (fun name spec => spec.renames name) template ≠ "" := by
  induction specs generalizing template with
  | nil => exact htemplate
  | cons spec rest ih =>
    exact ih (fun s hs => h s (List.mem_cons_of_mem spec hs))
      (renames_ne_empty (h spec List.mem_cons_self) htemplate)

theorem keys_foldl_rebinds (specs : List ProviderSpec) (bindings : Context) :
    Dict.keys (specs.foldl (fun bindings spec => spec.rebinds bindings) bindings) =
      Dict.keys bindings := by
  induction specs generalizing bindings with
  | nil => rfl
  | cons spec rest ih => rw [List.foldl_cons, ih, keys_rebinds]

/-- The last of the tables that hold a variable decides. -/
theorem get?_foldl_rebinds (specs : List ProviderSpec) (bindings : Context) (key : String) :
    Dict.get? (specs.foldl (fun bindings spec => spec.rebinds bindings) bindings) key =
      (Dict.get? bindings key).map fun value => (lastValue? specs key).getD value := by
  induction specs generalizing bindings with
  | nil => exact Option.map_id'.symm
  | cons spec rest ih =>
    rw [List.foldl_cons, ih, get?_rebinds, Option.map_map, lastValue?_cons]
    refine congrArg (fun f => Option.map f (Dict.get? bindings key)) (funext fun value => ?_)
    cases lastValue? rest key <;> rfl

end ProviderSpec

/-! ## Pipelines -/

namespace Override.Chain

variable {m : Type → Type} [Monad m] {τ : Type} [Runs m τ] {specs : List ProviderSpec}
  {c : Chain m}

/-- A pipeline along listed providers, each of which changes what it is given by a function. -/
theorem outcome_relay_listed {α : Type} {stage : Stage} {ask : Provider m → α → m (Except String α)}
    {change : ProviderSpec → α → α}
    (h : ∀ spec given, ask spec.provider given = pure (.ok (change spec given)))
    (specs : List ProviderSpec) (start : α) (s : τ) :
    outcome (relay stage ask (specs.map ProviderSpec.provider) start) s =
      some (.ok (specs.foldl (fun given spec => change spec given) start), s) := by
  induction specs generalizing start with
  | nil => exact outcome_pure start s
  | cons spec rest ih =>
    rw [List.map_cons, outcome_relay_cons, h, run_pure, Option.bind_some]
    exact ih (change spec start)

theorem outcome_rename_listed (hc : c.providers = specs.map ProviderSpec.provider)
    (template : String) (inclusion : Inclusion) (s : τ) :
    outcome (c.rename template inclusion) s =
      some (.ok (specs.foldl (fun name spec => spec.renames name) template), s) := by
  rw [rename_eq_relay, hc]
  refine outcome_relay_listed (fun spec name => ?_) specs template s
  cases spec <;> rfl

theorem outcome_rebind_listed (hc : c.providers = specs.map ProviderSpec.provider)
    (template : String) (inclusion : Inclusion) (s : τ) :
    outcome (c.rebind template inclusion) s =
      some (.ok (specs.foldl (fun bindings spec => spec.rebinds bindings) inclusion.bindings),
        s) := by
  rw [rebind_eq_relay, hc]
  refine outcome_relay_listed (fun spec bindings => ?_) specs inclusion.bindings s
  cases spec <;> rfl

end Override.Chain

/-! ## Building a chain -/

section Building

variable {m : Type → Type} [Monad m]

namespace ProviderSpec

theorem problem_of_fit {spec : ProviderSpec} (h : ¬ spec.HasEmptyName) :
    (spec.provider : Provider m).problem = none := by
  cases spec with
  | arguments => rfl
  | table templates =>
    have hnone : Provider.emptyName? templates = none :=
      Provider.emptyName?_eq_none.2 fun entry hentry =>
        not_or.1 fun hempty => h ⟨entry, hentry, hempty⟩
    change (Provider.emptyName? templates).map _ = none
    rw [hnone]
    rfl

/-- What is wrong with a table is one of its entries. -/
theorem problem_of_hasEmptyName {spec : ProviderSpec} (h : spec.HasEmptyName) :
    ∃ templates source target, spec = .table templates ∧ (source, target) ∈ templates ∧
      (source = "" ∨ target = "") ∧
      (spec.provider : Provider m).problem =
        some ("empty template name in rename '" ++ source ++ "' -> '" ++ target ++ "'") := by
  cases spec with
  | arguments => exact h.elim
  | table templates =>
    cases hname : Provider.emptyName? templates with
    | none =>
      obtain ⟨entry, hentry, hempty⟩ := h
      have hfit := Provider.emptyName?_eq_none.1 hname entry hentry
      exact (hempty.elim hfit.1 hfit.2).elim
    | some entry =>
      obtain ⟨source, target⟩ := entry
      refine ⟨templates, source, target, rfl, List.mem_of_find?_eq_some hname, ?_, ?_⟩
      · simpa using List.find?_some hname
      · change (Provider.emptyName? templates).map _ = _
        rw [hname]
        rfl

theorem problem_eq_none_iff (spec : ProviderSpec) :
    (spec.provider : Provider m).problem = none ↔ ¬ spec.HasEmptyName := by
  refine ⟨fun hnone h => ?_, problem_of_fit⟩
  obtain ⟨_, _, _, _, _, _, hproblem⟩ := problem_of_hasEmptyName (m := m) h
  rw [hnone] at hproblem
  cases hproblem

theorem problem?_eq_none_iff (specs : List ProviderSpec) :
    Chain.problem? (specs.map (provider (m := m))) = none ↔
      ∀ spec ∈ specs, ¬ spec.HasEmptyName := by
  simp only [Chain.problem?, List.findSome?_map, List.findSome?_eq_none_iff, Function.comp_apply,
    Option.map_eq_none_iff, problem_eq_none_iff]

end ProviderSpec

namespace Profile

variable (profile : Profile)

theorem chain_builds_iff : (∃ c : Chain m, profile.chain = .ok c) ↔
    ∀ spec ∈ profile.providers, ¬ spec.HasEmptyName := by
  rw [← ProviderSpec.problem?_eq_none_iff (m := m), chain, Chain.ofProviders]
  cases Chain.problem? (profile.providers.map (ProviderSpec.provider (m := m))) <;> simp

variable {profile}

/-- The first table with an empty name is to blame, and the reason shows such an entry of it. -/
theorem chain_refuses {front back : List ProviderSpec} {spec : ProviderSpec}
    (hproviders : profile.providers = front ++ spec :: back)
    (hfront : ∀ s ∈ front, ¬ s.HasEmptyName) (hspec : spec.HasEmptyName) :
    ∃ templates source target, spec = .table templates ∧ (source, target) ∈ templates ∧
      (source = "" ∨ target = "") ∧
      (profile.chain : Except Fault (Chain m)) = .error (.configuration "table"
        ("empty template name in rename '" ++ source ++ "' -> '" ++ target ++ "'")) := by
  obtain ⟨templates, source, target, rfl, hentry, hempty, hproblem⟩ :=
    ProviderSpec.problem_of_hasEmptyName (m := m) hspec
  refine ⟨templates, source, target, rfl, hentry, hempty, ?_⟩
  have hnone := (ProviderSpec.problem?_eq_none_iff (m := m) front).2 hfront
  have hfault : Chain.problem? (profile.providers.map (ProviderSpec.provider (m := m))) =
      some (.configuration "table"
        ("empty template name in rename '" ++ source ++ "' -> '" ++ target ++ "'")) := by
    rw [Chain.problem?] at hnone ⊢
    rw [hproviders, List.map_append, List.findSome?_append, hnone, List.map_cons,
      List.findSome?_cons, hproblem]
    rfl
  rw [chain, Chain.ofProviders, hfault]

variable (profile) in
/-- There is a chain of the listed providers unless one of their tables of names has an empty name
    in it, and then the first such table is to blame. Along a chain that was built both pipelines
    succeed: a name that is not empty is given one that is not empty either, and the variables keep
    their keys, each of them with the value of the last table that holds it or else with its own. -/
theorem chain_keeps {τ : Type} [Runs m τ] :
    ((∃ c : Chain m, profile.chain = .ok c) ↔
      ∀ spec ∈ profile.providers, ¬ spec.HasEmptyName) ∧
    (∀ front spec back, profile.providers = front ++ spec :: back →
      (∀ s ∈ front, ¬ s.HasEmptyName) → spec.HasEmptyName →
      ∃ templates source target, spec = .table templates ∧ (source, target) ∈ templates ∧
        (source = "" ∨ target = "") ∧
        (profile.chain : Except Fault (Chain m)) = .error (.configuration "table"
          ("empty template name in rename '" ++ source ++ "' -> '" ++ target ++ "'"))) ∧
    ∀ c : Chain m, profile.chain = .ok c → ∀ (template : String) (inclusion : Inclusion),
      (∃ name, (∀ s : τ, outcome (c.rename template inclusion) s = some (.ok name, s)) ∧
        (template ≠ "" → name ≠ "")) ∧
      ∃ bindings, (∀ s : τ, outcome (c.rebind template inclusion) s = some (.ok bindings, s)) ∧
        Dict.keys bindings = Dict.keys inclusion.bindings ∧
        ∀ key, Dict.get? bindings key = (Dict.get? inclusion.bindings key).map fun original =>
          (ProviderSpec.lastValue? profile.providers key).getD original := by
  refine ⟨profile.chain_builds_iff, fun front spec back hproviders hfront hspec =>
    chain_refuses hproviders hfront hspec, fun c hchain template inclusion => ?_⟩
  have hproviders := chain_providers profile c hchain
  have hfit := (profile.chain_builds_iff (m := m)).1 ⟨c, hchain⟩
  exact ⟨⟨_, Chain.outcome_rename_listed hproviders template inclusion,
      ProviderSpec.foldl_renames_ne_empty hfit⟩,
    ⟨_, Chain.outcome_rebind_listed hproviders template inclusion,
      ProviderSpec.keys_foldl_rebinds profile.providers inclusion.bindings,
      ProviderSpec.get?_foldl_rebinds profile.providers inclusion.bindings⟩⟩

/-- Two tables of arguments around a table of names. Both of the former have a "tone", the first
    one alone a "size". -/
def restyled : Profile where
  providers :=
    [.arguments [("size", .string "small"), ("tone", .string "dark")],
      .table [("page", "wide")],
      .arguments [("tone", .string "light")]]

def restyledBindings : Context := [("lang", .null), ("size", .null), ("tone", .null)]

theorem chain_keeps_restyled :
    ∃ c : Chain Id, restyled.chain = .ok c ∧
      ((∃ name, (∀ s : Unit, outcome (c.rename "page" { bindings := restyledBindings }) s =
          some (.ok name, s)) ∧ name ≠ "") ∧
      ∃ bindings, (∀ s : Unit, outcome (c.rebind "page" { bindings := restyledBindings }) s =
          some (.ok bindings, s)) ∧
        Dict.keys bindings = ["lang", "size", "tone"] ∧
        Dict.get? bindings "lang" = some .null ∧
        Dict.get? bindings "size" = some (.string "small") ∧
        Dict.get? bindings "tone" = some (.string "light")) := by
  have hbuilds : restyled.chain =
      .ok (⟨restyled.providers.map ProviderSpec.provider⟩ : Chain Id) := rfl
  obtain ⟨-, -, hkeeps⟩ := restyled.chain_keeps (m := Id) (τ := Unit)
  obtain ⟨⟨name, hrename, hname⟩, bindings, hrebind, hkeys, hvalues⟩ :=
    hkeeps _ hbuilds "page" { bindings := restyledBindings }
  exact ⟨_, hbuilds, ⟨name, hrename, hname (by decide)⟩, bindings, hrebind, hkeys,
    hvalues "lang", hvalues "size", hvalues "tone"⟩

end Profile

end Building

end Stencil
