import Stencil.Proofs.Hooks
import Stencil.Proofs.Pipelines

/-!
# Which calls of the hooks succeed

The hooks of a chain whose providers never fail succeed for some arguments and refuse all others.
Both want one to four arguments of fitting kinds. They differ in the arrays of names they take: the
hook of names renames every item, the hook of variables looks at the first one only.

Results:
* `HookArguments.ofValues_of_fits`, `HookArguments.ofValues_of_not_fits`: reading the arguments.
* `Chain.rename_succeeds`, `Chain.rebind_succeeds`: pipelines of providers that never fail.
* `Chain.callTemplate_name`, `Chain.callTemplate_names`, `Chain.callParameters_first`: the answers
  of the hooks.
* `Chain.call_refuses`: all other calls.
* `Chain.call_accepts`: all of this, and that the hook of variables takes whatever the hook of names
  made a name of.
-/

namespace Stencil.Override

/-! ## Arguments -/

namespace HookArguments

/-- An argument is left out, or null, or of a kind. -/
def Optional (kind : Value → Prop) (argument : Option Value) : Prop :=
  ∀ value ∈ argument, value = .null ∨ kind value

def IsFlag (value : Value) : Prop := ∃ only, value = .bool only

def IsMapping (value : Value) : Prop := ∃ fields, value = .mapping fields

/-- One to four arguments: a target of any kind, a flag, and two mappings. -/
structure Fits (arguments : List Value) : Prop where
  nonempty : 1 ≤ arguments.length
  few : arguments.length ≤ 4
  only : Optional IsFlag arguments[1]?
  bindings : Optional IsMapping arguments[2]?
  context : Optional IsMapping arguments[3]?

/-- A flag that is left out is not set. -/
def onlyOf : Option Value → Bool
  | some (.bool only) => only
  | _ => false

/-- A mapping that is left out has no fields. -/
def fieldsOf : Option Value → Context
  | some (.mapping fields) => fields
  | _ => []

/-- The inclusion that some arguments tell of. -/
def inclusionOf (arguments : List Value) : Inclusion where
  bindings := fieldsOf arguments[2]?
  context := fieldsOf arguments[3]?
  only := onlyOf arguments[1]?

theorem flag_of_optional {argument : Option Value} (h : Optional IsFlag argument) :
    flag argument = .ok (onlyOf argument) := by
  cases argument with
  | none => rfl
  | some value => rcases h value rfl with rfl | ⟨only, rfl⟩ <;> rfl

theorem flag_of_not_optional {argument : Option Value} (h : ¬ Optional IsFlag argument) :
    ∃ misuse, flag argument = .error misuse := by
  cases argument with
  | none => exact (h nofun).elim
  | some value =>
    cases value with
    | null => exact (h fun _ hvalue => .inl (Option.some.inj hvalue).symm).elim
    | bool only => exact (h fun _ hvalue => .inr ⟨only, (Option.some.inj hvalue).symm⟩).elim
    | _ => exact ⟨_, rfl⟩

theorem mapping_of_optional (what : String) {argument : Option Value}
    (h : Optional IsMapping argument) : mapping what argument = .ok (fieldsOf argument) := by
  cases argument with
  | none => rfl
  | some value => rcases h value rfl with rfl | ⟨fields, rfl⟩ <;> rfl

theorem mapping_of_not_optional (what : String) {argument : Option Value}
    (h : ¬ Optional IsMapping argument) : ∃ misuse, mapping what argument = .error misuse := by
  cases argument with
  | none => exact (h nofun).elim
  | some value =>
    cases value with
    | null => exact (h fun _ hvalue => .inl (Option.some.inj hvalue).symm).elim
    | mapping fields => exact (h fun _ hvalue => .inr ⟨fields, (Option.some.inj hvalue).symm⟩).elim
    | _ => exact ⟨_, rfl⟩

/-- What is read off arguments that fit. -/
theorem ofValues_of_fits {target : Value} {rest : List Value} (h : Fits (target :: rest)) :
    ofValues (target :: rest) = .ok ⟨target, inclusionOf (target :: rest)⟩ := by
  have hfew : ¬ rest.length > 3 := Nat.not_lt.2 (Nat.le_of_succ_le_succ h.few)
  have honly : flag rest[0]? = _ := flag_of_optional h.only
  have hbindings : mapping "with" rest[1]? = _ := mapping_of_optional "with" h.bindings
  have hcontext : mapping "context" rest[2]? = _ := mapping_of_optional "context" h.context
  rw [ofValues, if_neg hfew, honly, hbindings, hcontext]
  rfl

/-- All other arguments are refused. -/
theorem ofValues_of_not_fits {arguments : List Value} (h : ¬ Fits arguments) :
    ∃ misuse, ofValues arguments = .error misuse := by
  cases arguments with
  | nil => exact ⟨_, rfl⟩
  | cons target rest =>
    rw [ofValues]
    split
    · exact ⟨_, rfl⟩
    · next hfew =>
      -- The arguments are looked at in order, so the first that does not fit is to blame.
      by_cases honly : Optional IsFlag rest[0]?
      · rw [flag_of_optional honly]
        by_cases hbindings : Optional IsMapping rest[1]?
        · rw [mapping_of_optional "with" hbindings]
          have hcontext : ¬ Optional IsMapping rest[2]? := fun hcontext =>
            h ⟨Nat.le_add_left .., Nat.succ_le_succ (Nat.not_lt.1 hfew), honly, hbindings, hcontext⟩
          obtain ⟨misuse, hmisuse⟩ := mapping_of_not_optional "context" hcontext
          rw [hmisuse]
          exact ⟨misuse, rfl⟩
        · obtain ⟨misuse, hmisuse⟩ := mapping_of_not_optional "with" hbindings
          rw [hmisuse]
          exact ⟨misuse, rfl⟩
      · obtain ⟨misuse, hmisuse⟩ := flag_of_not_optional honly
        rw [hmisuse]
        exact ⟨misuse, rfl⟩

end HookArguments

/-- The values that a hook takes for the target: a name, or an array. The hook of names wants an
    array of names, the other one an array that begins with a name. -/
def Hook.Takes : Hook → Value → Prop
  | .template, target => (∃ name, target = .string name) ∨
      ∃ names : List String, target = .array (names.map .string)
  | .parameters, target => (∃ name, target = .string name) ∨
      ∃ name rest, target = .array (.string name :: rest)

/-- The arguments that a hook accepts. -/
def Hook.Accepts (hook : Hook) (arguments : List Value) : Prop :=
  HookArguments.Fits arguments ∧ ∃ target ∈ arguments.head?, hook.Takes target

namespace Chain

variable {m : Type → Type} [Monad m] {τ : Type} [Runs m τ] {c : Chain m}

/-! ## Providers that never fail -/

/-- No provider of a chain ever fails. -/
structure Infallible (c : Chain m) : Prop where
  rename : ∀ p ∈ c.providers, ∀ template inclusion (s : τ),
    ∃ name s', run (p.rename template inclusion) s = some (.ok name, s')
  rebind : ∀ p ∈ c.providers, ∀ template inclusion (s : τ),
    ∃ bindings s', run (p.rebind template inclusion) s = some (.ok bindings, s')

/-- A value that no provider refuses comes to the end of a chain. -/
theorem relay_succeeds {α : Type} {stage : Stage} {ask : Provider m → α → m (Except String α)}
    {providers : List (Provider m)}
    (h : ∀ p ∈ providers, ∀ given (s : τ), ∃ next s', run (ask p given) s = some (.ok next, s'))
    (start : α) (s : τ) :
    ∃ result s', outcome (relay stage ask providers start) s = some (.ok result, s') := by
  induction providers generalizing start s with
  | nil => exact ⟨start, s, outcome_pure start s⟩
  | cons p rest ih =>
    obtain ⟨next, s₁, hfirst⟩ := h p List.mem_cons_self start s
    rw [outcome_relay_cons, hfirst, Option.bind_some]
    exact ih (fun q hq => h q (List.mem_cons_of_mem p hq)) next s₁

section Succeeds

variable (h : c.Infallible (τ := τ)) (inclusion : Inclusion)

include h

theorem rename_succeeds (template : String) (s : τ) :
    ∃ name s', outcome (c.rename template inclusion) s = some (.ok name, s') := by
  rw [rename_eq_relay]
  exact relay_succeeds (fun p hp given => h.rename p hp given inclusion) template s

theorem rebind_succeeds (template : String) (s : τ) :
    ∃ bindings s', outcome (c.rebind template inclusion) s = some (.ok bindings, s') := by
  rw [rebind_eq_relay]
  exact relay_succeeds (fun p hp given => h.rebind p hp template _) inclusion.bindings s

end Succeeds

/-- Names that are handed through a chain one after the other, each in the state that the one before
    it left. -/
inductive RenamesEach (c : Chain m) (inclusion : Inclusion) :
    List String → List String → τ → τ → Prop
  | nil (s : τ) : RenamesEach c inclusion [] [] s s
  | cons {name answer : String} {rest answers : List String} {s s₁ s' : τ} :
      outcome (c.rename name inclusion) s = some (.ok answer, s₁) →
      RenamesEach c inclusion rest answers s₁ s' →
      RenamesEach c inclusion (name :: rest) (answer :: answers) s s'

theorem RenamesEach.length {inclusion : Inclusion} {names answers : List String} {s s' : τ}
    (h : c.RenamesEach inclusion names answers s s') : answers.length = names.length := by
  induction h with
  | nil => rfl
  | cons _ _ ih => rw [List.length_cons, List.length_cons, ih]

section Names

variable (h : c.Infallible (τ := τ)) (inclusion : Inclusion)

include h

/-- An array of names is renamed name by name. -/
theorem renameNames_names (names : List String) (s : τ) :
    ∃ answers s', c.RenamesEach inclusion names answers s s' ∧
      outcome (c.renameNames inclusion (names.map .string)) s =
        some (.ok (answers.map .string), s') := by
  induction names generalizing s with
  | nil => exact ⟨[], s, .nil s, outcome_pure [] s⟩
  | cons name rest ih =>
    obtain ⟨answer, s₁, hname⟩ := rename_succeeds h inclusion name s
    obtain ⟨answers, s', hrest, houtcome⟩ := ih s₁
    refine ⟨answer :: answers, s', .cons hname hrest, ?_⟩
    rw [List.map_cons, renameNames, outcome_bind_ok hname, outcome_bind_ok houtcome]
    exact outcome_pure _ s'

/-- An array with anything else in it is refused, once the names before that are renamed. -/
theorem renameNames_refuses {items : List Value}
    (hitems : ¬ ∃ names : List String, items = names.map .string) (s : τ) :
    ∃ misuse s', outcome (c.renameNames inclusion items) s =
      some (.error (.invalidArgument .template misuse), s') := by
  induction items generalizing s with
  | nil => exact (hitems ⟨[], rfl⟩).elim
  | cons item rest ih =>
    cases item with
    | string name =>
      have hrest : ¬ ∃ names : List String, rest = names.map .string := by
        rintro ⟨names, rfl⟩
        exact hitems ⟨name :: names, rfl⟩
      obtain ⟨answer, s₁, hname⟩ := rename_succeeds h inclusion name s
      obtain ⟨misuse, s', houtcome⟩ := ih hrest s₁
      refine ⟨misuse, s', ?_⟩
      rw [renameNames, outcome_bind_ok hname, outcome_bind_error houtcome]
    | _ => exact ⟨_, s, outcome_throw _ s⟩

end Names

/-! ## Calls -/

section Calls

open HookArguments

variable (h : c.Infallible (τ := τ)) {target : Value} {rest : List Value}
  (hfits : Fits (target :: rest))

include h hfits

theorem callTemplate_name {name : String} (htarget : target = .string name) (s : τ) :
    ∃ answer s', outcome (c.rename name (inclusionOf (target :: rest))) s = some (.ok answer, s') ∧
      outcome (c.call .template (target :: rest)) s = some (.ok (.string answer), s') := by
  obtain ⟨answer, s', hname⟩ := rename_succeeds h (inclusionOf (target :: rest)) name s
  refine ⟨answer, s', hname, ?_⟩
  subst htarget
  simp only [call, callTemplate, ofValues_of_fits hfits]
  rw [outcome_bind_ok hname]
  exact outcome_pure _ s'

theorem callTemplate_names {names : List String} (htarget : target = .array (names.map .string))
    (s : τ) :
    ∃ answers s', c.RenamesEach (inclusionOf (target :: rest)) names answers s s' ∧
      outcome (c.call .template (target :: rest)) s =
        some (.ok (.array (answers.map .string)), s') := by
  obtain ⟨answers, s', hnames, houtcome⟩ :=
    renameNames_names h (inclusionOf (target :: rest)) names s
  refine ⟨answers, s', hnames, ?_⟩
  subst htarget
  simp only [call, callTemplate, ofValues_of_fits hfits]
  rw [outcome_bind_ok houtcome]
  exact outcome_pure _ s'

theorem callParameters_first {name : String}
    (htarget : target = .string name ∨ ∃ others, target = .array (.string name :: others)) (s : τ) :
    ∃ bindings s',
      outcome (c.rebind name (inclusionOf (target :: rest))) s = some (.ok bindings, s') ∧
      outcome (c.call .parameters (target :: rest)) s = some (.ok (.mapping bindings), s') := by
  obtain ⟨bindings, s', hname⟩ := rebind_succeeds h (inclusionOf (target :: rest)) name s
  refine ⟨bindings, s', hname, ?_⟩
  rcases htarget with rfl | ⟨others, rfl⟩ <;>
  · simp only [call, callParameters, ofValues_of_fits hfits]
    rw [outcome_bind_ok hname]
    exact outcome_pure _ s'

end Calls

/-- A call that a hook does not accept ends with a fault of that hook. -/
theorem call_refuses (h : c.Infallible (τ := τ)) {hook : Hook} {arguments : List Value}
    (hrefused : ¬ hook.Accepts arguments) (s : τ) :
    ∃ misuse s', outcome (c.call hook arguments) s =
      some (.error (.invalidArgument hook misuse), s') := by
  by_cases hfits : HookArguments.Fits arguments
  · cases arguments with
    | nil => exact absurd hfits.nonempty (Nat.not_succ_le_zero 0)
    | cons target rest =>
      have htakes : ¬ hook.Takes target := fun htakes => hrefused ⟨hfits, target, rfl, htakes⟩
      have hvalues := HookArguments.ofValues_of_fits hfits
      cases hook with
      | template =>
        simp only [call, callTemplate, hvalues]
        cases target with
        | string name => exact (htakes (.inl ⟨name, rfl⟩)).elim
        | array items =>
          have hitems : ¬ ∃ names : List String, items = names.map .string := by
            rintro ⟨names, rfl⟩
            exact htakes (.inr ⟨names, rfl⟩)
          obtain ⟨misuse, s', houtcome⟩ := renameNames_refuses h _ hitems s
          exact ⟨misuse, s', outcome_bind_error houtcome _⟩
        | _ => exact ⟨_, s, outcome_throw _ s⟩
      | parameters =>
        simp only [call, callParameters, hvalues]
        cases target with
        | string name => exact (htakes (.inl ⟨name, rfl⟩)).elim
        | array items =>
          cases items with
          | nil => exact ⟨_, s, outcome_throw _ s⟩
          | cons item others =>
            cases item with
            | string name => exact (htakes (.inr ⟨name, others, rfl⟩)).elim
            | _ => exact ⟨_, s, outcome_throw _ s⟩
        | _ => exact ⟨_, s, outcome_throw _ s⟩
  · obtain ⟨misuse, hmisuse⟩ := HookArguments.ofValues_of_not_fits hfits
    refine ⟨misuse, s, ?_⟩
    cases hook with
    | template =>
      simp only [call, callTemplate, hmisuse]
      exact outcome_throw _ s
    | parameters =>
      simp only [call, callParameters, hmisuse]
      exact outcome_throw _ s

/-- A call that a hook accepts succeeds. -/
theorem call_succeeds (h : c.Infallible (τ := τ)) {hook : Hook} {arguments : List Value}
    (haccepts : hook.Accepts arguments) (s : τ) :
    ∃ answer s', outcome (c.call hook arguments) s = some (.ok answer, s') := by
  obtain ⟨hfits, target, htarget, htakes⟩ := haccepts
  cases arguments with
  | nil => cases htarget
  | cons first rest =>
    obtain rfl : first = target := Option.some.inj htarget
    cases hook with
    | template =>
      rcases htakes with ⟨name, hname⟩ | ⟨names, hnames⟩
      · obtain ⟨answer, s', -, houtcome⟩ := callTemplate_name h hfits hname s
        exact ⟨_, s', houtcome⟩
      · obtain ⟨answers, s', -, houtcome⟩ := callTemplate_names h hfits hnames s
        exact ⟨_, s', houtcome⟩
    | parameters =>
      have hfirst : ∃ name, first = .string name ∨
          ∃ others, first = .array (.string name :: others) := by
        rcases htakes with ⟨name, hname⟩ | ⟨name, others, hothers⟩
        · exact ⟨name, .inl hname⟩
        · exact ⟨name, .inr ⟨others, hothers⟩⟩
      obtain ⟨name, hname⟩ := hfirst
      obtain ⟨bindings, s', -, houtcome⟩ := callParameters_first h hfits hname s
      exact ⟨_, s', houtcome⟩

theorem call_succeeds_iff (h : c.Infallible (τ := τ)) (hook : Hook) (arguments : List Value)
    (s : τ) : (∃ answer s', outcome (c.call hook arguments) s = some (.ok answer, s')) ↔
      hook.Accepts arguments := by
  refine ⟨fun ⟨answer, s', houtcome⟩ => ?_, fun haccepts => call_succeeds h haccepts s⟩
  by_contra hrefused
  obtain ⟨misuse, s₁, hfault⟩ := call_refuses h hrefused s
  rw [houtcome] at hfault
  cases hfault

/-- Arguments of which the hook of names makes a name are accepted by the hook of variables. -/
theorem accepts_parameters (h : c.Infallible (τ := τ)) {arguments : List Value} {answer : Value}
    {s s' : τ} (houtcome : outcome (c.call .template arguments) s = some (.ok answer, s'))
    (hanswer : answer ≠ .array []) : Hook.parameters.Accepts arguments := by
  obtain ⟨hfits, target, htarget, htakes⟩ :=
    (call_succeeds_iff h .template arguments s).1 ⟨answer, s', houtcome⟩
  refine ⟨hfits, target, htarget, ?_⟩
  rcases htakes with hname | ⟨names, rfl⟩
  · exact .inl hname
  · cases names with
    | cons name others => exact .inr ⟨name, others.map .string, rfl⟩
    | nil =>
      cases arguments with
      | nil => cases htarget
      | cons first rest =>
        obtain ⟨answers, s₁, hnames, hempty⟩ :=
          callTemplate_names h hfits (Option.some.inj htarget) s
        cases hnames
        rw [houtcome] at hempty
        cases hempty
        exact (hanswer rfl).elim

open HookArguments in
/-- Which calls of the hooks succeed, with which answers, where no provider ever fails. A call that
    a hook does not accept ends with a fault of that hook. Whatever the hook of names makes a name
    of, the hook of variables accepts as well, in any state. -/
theorem call_accepts (h : c.Infallible (τ := τ)) (arguments : List Value) (s : τ) :
    (∀ hook : Hook,
      ((∃ answer s', outcome (c.call hook arguments) s = some (.ok answer, s')) ↔
        hook.Accepts arguments) ∧
      (¬ hook.Accepts arguments → ∃ misuse s', outcome (c.call hook arguments) s =
        some (.error (.invalidArgument hook misuse), s'))) ∧
    (∀ target rest, arguments = target :: rest → Fits arguments →
      (∀ name, target = .string name → ∃ answer s',
        outcome (c.rename name (inclusionOf arguments)) s = some (.ok answer, s') ∧
        outcome (c.call .template arguments) s = some (.ok (.string answer), s')) ∧
      (∀ names : List String, target = .array (names.map .string) → ∃ answers s',
        answers.length = names.length ∧
        c.RenamesEach (inclusionOf arguments) names answers s s' ∧
        outcome (c.call .template arguments) s =
          some (.ok (.array (answers.map .string)), s')) ∧
      ∀ name, target = .string name ∨ (∃ others, target = .array (.string name :: others)) →
        ∃ bindings s',
          outcome (c.rebind name (inclusionOf arguments)) s = some (.ok bindings, s') ∧
          outcome (c.call .parameters arguments) s = some (.ok (.mapping bindings), s')) ∧
    ∀ answer s', outcome (c.call .template arguments) s = some (.ok answer, s') →
      answer ≠ .array [] →
      ∀ t, ∃ bindings t', outcome (c.call .parameters arguments) t = some (.ok bindings, t') := by
  refine ⟨fun hook => ⟨call_succeeds_iff h hook arguments s, fun hrefused =>
    call_refuses h hrefused s⟩, ?_, fun answer s' houtcome hanswer =>
      call_succeeds h (accepts_parameters h houtcome hanswer)⟩
  rintro target rest rfl hfits
  refine ⟨fun name hname => callTemplate_name h hfits hname s, fun names hnames => ?_,
    fun name hname => callParameters_first h hfits hname s⟩
  obtain ⟨answers, s', heach, houtcome⟩ := callTemplate_names h hfits hnames s
  exact ⟨answers, s', heach.length, heach, houtcome⟩

/-- A chain that renames and gives variables other values. -/
def relabelling : Chain Id := ⟨[.table [("a", "b")], .argumentTable [("x", .string "new")]]⟩

theorem relabelling_infallible : relabelling.Infallible (τ := Unit) where
  rename p hp template inclusion s := by
    simp only [relabelling, List.mem_cons, List.not_mem_nil, or_false] at hp
    rcases hp with rfl | rfl <;> exact ⟨_, s, rfl⟩
  rebind p hp template inclusion s := by
    simp only [relabelling, List.mem_cons, List.not_mem_nil, or_false] at hp
    rcases hp with rfl | rfl <;> exact ⟨_, s, rfl⟩

/-- A name and a flag in an array, and variables. -/
def unevenArguments : List Value :=
  [.array [.string "a", .bool true], .null, .mapping [("x", .null), ("y", .null)]]

theorem unevenArguments_fits : HookArguments.Fits unevenArguments where
  nonempty := by decide
  few := by decide
  only value hvalue := .inl (Option.some.inj hvalue).symm
  bindings value hvalue := .inr ⟨_, (Option.some.inj hvalue).symm⟩
  context := nofun

theorem call_accepts_uneven :
    relabelling.Infallible (τ := Unit) ∧ HookArguments.Fits unevenArguments ∧
    (∃ bindings s',
      outcome (relabelling.rebind "a" (HookArguments.inclusionOf unevenArguments)) () =
        some (.ok bindings, s') ∧
      outcome (relabelling.call .parameters unevenArguments) () =
        some (.ok (.mapping bindings), s')) ∧
    ¬ Hook.template.Accepts unevenArguments ∧
    ∃ misuse s', outcome (relabelling.call .template unevenArguments) () =
      some (.error (.invalidArgument .template misuse), s') := by
  have hrefused : ¬ Hook.template.Accepts unevenArguments := by
    rintro ⟨-, target, htarget, ⟨name, rfl⟩ | ⟨names, rfl⟩⟩
    · cases htarget
    · have hitems : names.map Value.string = [.string "a", .bool true] :=
        (Value.array.inj (Option.some.inj htarget)).symm
      have hflag : Value.bool true ∈ names.map Value.string := by
        rw [hitems]
        exact List.mem_cons_of_mem _ List.mem_cons_self
      obtain ⟨name, -, hname⟩ := List.mem_map.1 hflag
      cases hname
  have hcalls := call_accepts relabelling_infallible unevenArguments ()
  exact ⟨relabelling_infallible, unevenArguments_fits,
    (hcalls.2.1 _ _ rfl unevenArguments_fits).2.2 "a" (.inr ⟨_, rfl⟩), hrefused,
    (hcalls.1 .template).2 hrefused⟩

end Chain

end Stencil.Override
