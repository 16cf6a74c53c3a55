import Stencil.Proofs.Direct
import Stencil.Proofs.Run

/-!
# The two pipelines of a chain

Both pipelines of a chain hand a value from provider to provider: the one a name, the other one the
variables. They are one recursion, `relay`, and differ in what the providers are asked.

Here the providers note every question they are asked, together with their answer, so that a run of
a pipeline leaves notes of which providers were asked, in which order, for what and with what.
Providers may have effects of their own.

Results:
* `outcome_relay_append`, `outcome_relay_idle`: chains in two parts, and providers that change
  nothing.
* `outcome_relay_noting`: the notes of a run, one provider after the other.
* `Chain.rename_relays`, `Chain.rebind_relays`: what each of the pipelines asks.
* `Chain.pipelines_relay`: all of this for both pipelines of a chain.
-/

namespace Stencil.Override

/-! ## Notes -/

/-- What a provider answers. -/
inductive Reply where
  | name (answer : Except String String)
  | bindings (answer : Except String Context)

/-- A question that a provider was asked, and what it answered. -/
structure Exchange where
  question : Consultation
  reply : Reply

/-- Questions and answers, the first ones first. -/
abbrev Notes := List Exchange

section Noting

variable {m : Type → Type} [Monad m] {α : Type}

/-- A step whose answer is noted. -/
def noted (note : α → Exchange) (step : m α) : StateT Notes m α := fun notes => do
  let answer ← step
  pure (answer, notes ++ [note answer])

/-- The provider at a position of a chain, which notes what it is asked and what it answers. -/
def Provider.noting (position : Nat) (p : Provider m) : Provider (StateT Notes m) where
  name := p.name
  problem := p.problem
  rename template inclusion :=
    noted (fun answer => ⟨⟨position, .rename, template, inclusion⟩, .name answer⟩)
      (p.rename template inclusion)
  rebind template inclusion :=
    noted (fun answer => ⟨⟨position, .rebindArguments, template, inclusion⟩, .bindings answer⟩)
      (p.rebind template inclusion)

/-- A chain of such providers. -/
def Chain.noting (c : Chain m) : Chain (StateT Notes m) := ⟨c.providers.mapIdx Provider.noting⟩

theorem run_noted {τ : Type} [Runs m τ] (note : α → Exchange) (step : m α) (notes : Notes) (s : τ) :
    run (noted note step) (notes, s) =
      (run step s).map fun p => (p.1, notes ++ [note p.1], p.2) := by
  rw [run_stateT]
  simp only [StateT.run, noted, run_bind]
  cases run step s <;> simp

end Noting

/-! ## Handing a value on -/

/-- The notes of providers each of which was given what the one before it answered. -/
def handed {α : Type} (note : Nat → α → Except String α → Exchange) (start : α) (answers : List α) :
    Notes :=
  ((start :: answers).zip answers).mapIdx fun position (given, answer) =>
    note position given (.ok answer)

/-- How a value is handed on along some providers, and how that ends. Either every provider answers,
    and the last answer is the result; or the first ones answer and the next one fails, and then no
    later one is asked. -/
inductive Relayed {m : Type → Type} {α : Type} (stage : Stage)
    (note : Nat → α → Except String α → Exchange) (providers : List (Provider m)) (start : α) :
    Notes → Except Fault α → Prop
  | all (answers : List α) : answers.length = providers.length →
      Relayed stage note providers start (handed note start answers) (.ok (answers.getLastD start))
  | stopped (answers : List α) (p : Provider m) (message : String) :
      providers[answers.length]? = some p →
      Relayed stage note providers start
        (handed note start answers ++
          [note answers.length (answers.getLastD start) (.error message)])
        (.error (.provider p.name stage message))

theorem handed_cons {α : Type} (note : Nat → α → Except String α → Exchange) (start next : α)
    (answers : List α) : handed note start (next :: answers) =
      note 0 start (.ok next) :: handed (fun position => note (position + 1)) next answers := by
  simp only [handed, List.zip_cons_cons, List.mapIdx_cons]

/-- One more provider in front, which answered what the others began with. -/
theorem Relayed.cons {m : Type → Type} {α : Type} {stage : Stage}
    {note : Nat → α → Except String α → Exchange} {p : Provider m} {rest : List (Provider m)}
    {start next : α} {notes : Notes} {r : Except Fault α}
    (h : Relayed stage (fun position => note (position + 1)) rest next notes r) :
    Relayed stage note (p :: rest) start (note 0 start (.ok next) :: notes) r := by
  cases h with
  | all answers hlength =>
    have hall : Relayed stage note (p :: rest) start _ _ :=
      .all (next :: answers) (congrArg Nat.succ hlength)
    rwa [handed_cons, List.getLastD_cons] at hall
  | stopped answers q message hq =>
    have hstopped : Relayed stage note (p :: rest) start _ _ :=
      .stopped (next :: answers) q message hq
    rwa [handed_cons, List.getLastD_cons] at hstopped

section Relay

variable {m : Type → Type} [Monad m] {τ : Type} [Runs m τ] {α : Type}

/-- Hands a value from provider to provider. -/
def relay (stage : Stage) (ask : Provider m → α → m (Except String α))
    (providers : List (Provider m)) (start : α) : ExceptT Fault m α :=
  providers.foldlM (fun given p =>
    ExceptT.mk (Except.mapError (.provider p.name stage) <$> ask p given)) start

variable {stage : Stage} {ask : Provider m → α → m (Except String α)}

theorem relay_cons (p : Provider m) (rest : List (Provider m)) (start : α) :
    relay stage ask (p :: rest) start =
      ExceptT.mk (Except.mapError (.provider p.name stage) <$> ask p start) >>=
        relay stage ask rest :=
  List.foldlM_cons

/-- The first provider either fails, or answers what the others are given. -/
theorem outcome_relay_cons (p : Provider m) (rest : List (Provider m)) (start : α) (s : τ) :
    outcome (relay stage ask (p :: rest) start) s = (run (ask p start) s).bind fun
      | (.ok next, s') => outcome (relay stage ask rest next) s'
      | (.error message, s') => some (.error (.provider p.name stage message), s') := by
  rw [relay_cons, outcome_bind, outcome_mk, run_map]
  cases run (ask p start) s with
  | none => rfl
  | some q =>
    obtain ⟨answer, s'⟩ := q
    cases answer <;> rfl

/-- The providers behind others are given what those end with. -/
theorem outcome_relay_append (front back : List (Provider m)) (start : α) :
    outcome (τ := τ) (relay stage ask (front ++ back) start) =
      outcome (relay stage ask front start >>= relay stage ask back) := by
  induction front generalizing start with
  | nil => exact (outcome_pure_bind start _).symm
  | cons p rest ih =>
    rw [List.cons_append, relay_cons, relay_cons, outcome_bind_assoc]
    exact outcome_bind_congr _ ih

/-- A provider that answers what it is given makes no difference. -/
theorem outcome_relay_idle {p : Provider m} (h : ∀ given, ask p given = pure (.ok given))
    (front back : List (Provider m)) (start : α) :
    outcome (τ := τ) (relay stage ask (front ++ p :: back) start) =
      outcome (relay stage ask (front ++ back) start) := by
  rw [outcome_relay_append, outcome_relay_append]
  refine outcome_bind_congr _ fun given => ?_
  funext s
  rw [outcome_relay_cons, h, run_pure, Option.bind_some]

/-- Providers that note what they are asked end as they do without notes, and the notes tell how the
    value was handed on. -/
theorem outcome_relay_noting
    {asked : Provider (StateT Notes m) → α → StateT Notes m (Except String α)}
    {note : Nat → α → Except String α → Exchange}
    (h : ∀ position p given, asked (p.noting position) given =
      noted (note position given) (ask p given))
    (providers : List (Provider m)) (start : α) (notes : Notes) {s s' : τ} {r : Except Fault α}
    (hrun : outcome (relay stage ask providers start) s = some (r, s')) :
    ∃ more, outcome (relay stage asked (providers.mapIdx Provider.noting) start) (notes, s) =
        some (r, notes ++ more, s') ∧
      Relayed stage note providers start more r := by
  -- Behind the first provider all positions are one higher, hence any offset.
  suffices hoffset : ∀ offset, ∃ more,
      outcome (relay stage asked
          (providers.mapIdx fun position => Provider.noting (position + offset)) start) (notes, s) =
        some (r, notes ++ more, s') ∧
      Relayed stage (fun position => note (position + offset)) providers start more r from
    hoffset 0
  induction providers generalizing start notes s with
  | nil =>
    intro offset
    rw [relay, List.foldlM_nil, outcome_pure] at hrun
    cases hrun
    refine ⟨[], ?_, .all [] rfl⟩
    rw [List.append_nil, List.mapIdx_nil, relay, List.foldlM_nil, outcome_pure]
  | cons p rest ih =>
    intro offset
    rw [outcome_relay_cons] at hrun
    obtain ⟨⟨answer, s₁⟩, hfirst, hrest⟩ := Option.bind_eq_some_iff.1 hrun
    have hnoted : run (asked (p.noting (0 + offset)) start) (notes, s) =
        some (answer, notes ++ [note (0 + offset) start answer], s₁) := by
      rw [h, run_noted, hfirst]
      rfl
    rw [List.mapIdx_cons, outcome_relay_cons, hnoted, Option.bind_some]
    cases answer with
    | ok next =>
      obtain ⟨more, hmore, hrelayed⟩ :=
        ih next (notes ++ [note (0 + offset) start (.ok next)]) hrest (offset + 1)
      refine ⟨note (0 + offset) start (.ok next) :: more, ?_, .cons ?_⟩
      · simpa only [Nat.add_right_comm, Nat.add_assoc, List.append_assoc, List.singleton_append]
          using hmore
      · simpa only [Nat.add_right_comm, Nat.add_assoc] using hrelayed
    | error message =>
      cases hrest
      exact ⟨[note (0 + offset) start (.error message)], rfl, .stopped [] p message rfl⟩

end Relay

/-! ## Chains -/

namespace Chain

variable {m : Type → Type} [Monad m] {τ : Type} [Runs m τ] (c : Chain m) (template : String)
  (inclusion : Inclusion)

theorem rename_eq_relay : c.rename template inclusion =
    relay .rename (fun p name => p.rename name inclusion) c.providers template :=
  c.rename_eq_renamed template inclusion

theorem rebind_eq_relay : c.rebind template inclusion =
    relay .rebindArguments (fun p bindings => p.rebind template { inclusion with bindings })
      c.providers inclusion.bindings :=
  c.rebind_eq_rebound template inclusion

/-- Whenever a pipeline ends, it does so with its providers noting what they are asked, and the
    notes tell how the value was handed on. -/
def Relays {α : Type} (pipeline : ExceptT Fault m α) (noting : ExceptT Fault (StateT Notes m) α)
    (stage : Stage) (note : Nat → α → Except String α → Exchange) (start : α) : Prop :=
  ∀ (s : τ) r s', outcome pipeline s = some (r, s') →
    ∃ notes, outcome noting ([], s) = some (r, notes, s') ∧
      Relayed stage note c.providers start notes r

/-- Every provider is asked with the name that the one before it answered, and with the inclusion as
    it is. -/
theorem rename_relays :
    c.Relays (τ := τ) (c.rename template inclusion) (c.noting.rename template inclusion) .rename
      (fun position name answer => ⟨⟨position, .rename, name, inclusion⟩, .name answer⟩)
      template := by
  intro s r s' hrun
  rw [rename_eq_relay] at hrun ⊢
  exact outcome_relay_noting (fun _ _ _ => rfl) c.providers template [] hrun

/-- Every provider is asked with the variables that the one before it answered, and with the name,
    the context and the flag as they are. -/
theorem rebind_relays :
    c.Relays (τ := τ) (c.rebind template inclusion) (c.noting.rebind template inclusion)
      .rebindArguments
      (fun position bindings answer =>
        ⟨⟨position, .rebindArguments, template, { inclusion with bindings }⟩, .bindings answer⟩)
      inclusion.bindings := by
  intro s r s' hrun
  rw [rebind_eq_relay] at hrun ⊢
  exact outcome_relay_noting (fun _ _ _ => rfl) c.providers inclusion.bindings [] hrun

variable (front back : List (Provider m))

/-- The second part of a chain renames what the first part renamed a template to. -/
theorem outcome_rename_append :
    outcome (τ := τ) ((⟨front ++ back⟩ : Chain m).rename template inclusion) =
      outcome ((⟨front⟩ : Chain m).rename template inclusion >>= fun next =>
        (⟨back⟩ : Chain m).rename next inclusion) := by
  simp only [rename_eq_relay]
  exact outcome_relay_append front back template

/-- The second part of a chain is given the variables that the first part answered. -/
theorem outcome_rebind_append :
    outcome (τ := τ) ((⟨front ++ back⟩ : Chain m).rebind template inclusion) =
      outcome ((⟨front⟩ : Chain m).rebind template inclusion >>= fun bindings =>
        (⟨back⟩ : Chain m).rebind template { inclusion with bindings }) := by
  simp only [rebind_eq_relay]
  exact outcome_relay_append front back inclusion.bindings

/-- Both pipelines hand a value on from provider to provider, each of which is asked once at most,
    and end with the first one that fails; what they do not change, every provider sees as it was at
    first. A chain may be cut in two anywhere, and a provider that does nothing may stand anywhere
    in it: neither pipeline ends in another way. -/
theorem pipelines_relay :
    c.Relays (τ := τ) (c.rename template inclusion) (c.noting.rename template inclusion) .rename
      (fun position name answer => ⟨⟨position, .rename, name, inclusion⟩, .name answer⟩)
      template ∧
    c.Relays (τ := τ) (c.rebind template inclusion) (c.noting.rebind template inclusion)
      .rebindArguments
      (fun position bindings answer =>
        ⟨⟨position, .rebindArguments, template, { inclusion with bindings }⟩, .bindings answer⟩)
      inclusion.bindings ∧
    (∀ front back : List (Provider m),
      outcome (τ := τ) ((⟨front ++ back⟩ : Chain m).rename template inclusion) =
        outcome ((⟨front⟩ : Chain m).rename template inclusion >>= fun next =>
          (⟨back⟩ : Chain m).rename next inclusion) ∧
      outcome (τ := τ) ((⟨front ++ back⟩ : Chain m).rebind template inclusion) =
        outcome ((⟨front⟩ : Chain m).rebind template inclusion >>= fun bindings =>
          (⟨back⟩ : Chain m).rebind template { inclusion with bindings })) ∧
    ∀ (front back : List (Provider m)) (name : String) (problem : Option String),
      let idle : Provider m := { Provider.transparent name with problem := problem }
      outcome (τ := τ) ((⟨front ++ idle :: back⟩ : Chain m).rename template inclusion) =
        outcome ((⟨front ++ back⟩ : Chain m).rename template inclusion) ∧
      outcome (τ := τ) ((⟨front ++ idle :: back⟩ : Chain m).rebind template inclusion) =
        outcome ((⟨front ++ back⟩ : Chain m).rebind template inclusion) := by
  refine ⟨c.rename_relays template inclusion, c.rebind_relays template inclusion,
    fun front back => ⟨outcome_rename_append template inclusion front back,
      outcome_rebind_append template inclusion front back⟩, fun front back name problem => ?_⟩
  simp only [rename_eq_relay, rebind_eq_relay]
  exact ⟨outcome_relay_idle (fun _ => rfl) front back template,
    outcome_relay_idle (fun _ => rfl) front back inclusion.bindings⟩

/-- A provider that refuses to rename, and leaves variables alone. -/
def refusing : Provider Id :=
  { Provider.transparent "strict" with rename := fun template _ => .error ("no " ++ template) }

/-- Two tables with a provider between them that refuses what the first one answers. -/
def refusingChain : Chain Id := ⟨[.table [("a", "b")], refusing, .table [("b", "c")]]⟩

theorem pipelines_relay_refused :
    refusingChain.rename "a" {} = .error (.provider "strict" .rename "no b") ∧
    ∃ notes : Notes,
      outcome (refusingChain.noting.rename "a" {}) ([], ()) =
        some (.error (.provider "strict" .rename "no b"), notes, ()) ∧
      Relayed .rename
        (fun position name answer => ⟨⟨position, .rename, name, {}⟩, .name answer⟩)
        refusingChain.providers "a" notes (.error (.provider "strict" .rename "no b")) :=
  ⟨rfl, (refusingChain.pipelines_relay (τ := Unit) "a" {}).1 () _ () rfl⟩

end Chain

end Stencil.Override
