import Stencil.Engine.Settings
import Stencil.Files.Basic
import Stencil.Override.Chain
import Stencil.Toml.Reader

/-!
# Profiles

A profile holds the settings of an engine and the providers of its overrides. It is written as a
TOML document with a table `engine` and an array `providers`; whatever else the document holds is
left alone. A provider has a `type` and, under one more key, a table.

A table with known keys may also be written as an array of their values in order.

* `Profile.chain_providers`: the chain has the providers in the order in which they are listed.
-/

namespace Stencil

/-- A provider as it is listed in a profile (`ProviderConfig`). -/
inductive ProviderSpec where
  | table (templates : Dict String)
  | arguments (arguments : Context)
deriving Repr, Inhabited

/-- Settings and providers (`OverrideConfig`). -/
structure Profile where
  settings : Settings := {}
  providers : List ProviderSpec := []
deriving Repr, Inhabited

/-- Why there is no profile (`ConfigError`). -/
inductive ProfileFault where
  | unreadable (fault : FileFault)
  | malformed (source : List Char) (fault : Toml.Fault)
deriving Repr

/-- The wording of a fault. -/
def ProfileFault.message : ProfileFault → String
  | .unreadable fault => "Failed to read configuration file: " ++ fault.message
  | .malformed source fault => "Failed to parse configuration TOML: " ++ fault.report source

namespace ProviderSpec

/-- The provider (`build`). -/
def provider {m : Type → Type} [Monad m] : ProviderSpec → Override.Provider m
  | .table templates => .table templates
  | .arguments values => .argumentTable values

end ProviderSpec

namespace Profile

open Toml (Fault)

/-! ## Reading a document -/

/-- A part of a document does not fit. -/
def unfit {α : Type} (span : Span) (mismatch : Toml.Mismatch) : Except Fault α :=
  .error ⟨.mismatch mismatch, span⟩

/-- A part of a document is of the wrong kind. -/
def wrongType {α : Type} (v : Toml.Value) (span : Span) (expected : String) : Except Fault α :=
  unfit span (.wrongType v.describe expected)

/-- A flag. -/
def flag : Toml.Value → Except Fault Bool
  | .bool _ b => .ok b
  | v => wrongType v v.span "a boolean"

/-- A natural number. -/
def natural : Toml.Value → Except Fault Nat
  | .integer span n =>
    if 0 ≤ n then .ok n.toNat else unfit span (.wrongValue s!"integer `{n}`" "usize")
  | v => wrongType v v.span "usize"

/-- Changes the settings by a key and its value. -/
def setting (s : Settings) (key : String) (v : Toml.Value) : Except Fault Settings :=
  if key = "strict_variables" then do
    let b ← flag v
    .ok { s with strictVariables := b }
  else if key = "max_include_depth" then do
    let n ← natural v
    .ok { s with maxDepth := n }
  else .ok s

/-- Changes the settings by keys and their values. -/
def applySettings : Settings → List (String × Toml.Value) → Except Fault Settings
  | s, [] => .ok s
  | s, (key, v) :: rest => do
    let s ← setting s key v
    applySettings s rest

/-- The keys of the settings in the order of their values in an array. -/
def settingKeys : List String := ["strict_variables", "max_include_depth"]

/-- The settings of a document. -/
def settingsOf : Toml.Value → Except Fault Settings
  | .array _ items => applySettings {} (settingKeys.zip items)
  | v =>
    match v.fields? with
    | some fields => applySettings {} fields
    | none => wrongType v v.span "struct EngineConfig"

/-- The types of providers. -/
inductive ProviderKind where
  | table
  | arguments
deriving DecidableEq, Repr

namespace ProviderKind

/-- The name of a type. -/
def name : ProviderKind → String
  | .table => "table"
  | .arguments => "arguments"

/-- The key of the table that belongs to a type. -/
def key : ProviderKind → String
  | .table => "templates"
  | .arguments => "arguments"

/-- The type that a value names. -/
def ofToml : Toml.Value → Except Fault ProviderKind
  | .string span s =>
    if s = ProviderKind.name .table then .ok .table
    else if s = ProviderKind.name .arguments then .ok .arguments
    else unfit span (.unknownVariant s [ProviderKind.name .table, ProviderKind.name .arguments])
  | v => wrongType v v.span "variant identifier"

end ProviderKind

/-- The texts of a table. -/
def textsOf (place : Span) : List (String × Toml.Value) → Except Fault (List (String × String))
  | [] => .ok []
  | (key, .string _ s) :: rest => do
    let others ← textsOf place rest
    .ok ((key, s) :: others)
  | (_, v) :: _ => wrongType v place "a string"

/-- The provider of a type and its table. -/
def specOf (place : Span) (kind : ProviderKind) (table : Toml.Value) :
    Except Fault ProviderSpec :=
  match table.fields? with
  | none => wrongType table place "a map"
  | some fields =>
    match kind with
    | .table => do
      let texts ← textsOf place fields
      .ok (.table (Dict.ofList texts))
    | .arguments => .ok (.arguments (Dict.ofList (Toml.Value.toFields fields)))

/-- The provider of a type without a table. -/
def emptySpec : ProviderKind → ProviderSpec
  | .table => .table []
  | .arguments => .arguments []

/-- The key of the type of a provider. -/
def typeKey : String := "type"

/-- The provider of a type and the other fields it is listed with. -/
def specOfFields (place : Span) (kind : ProviderKind) :
    List (String × Toml.Value) → Except Fault ProviderSpec
  | [] => .ok (emptySpec kind)
  | (key, v) :: rest =>
    if key = kind.key then do
      let spec ← specOf place kind v
      let _ ← specOfFields place kind rest
      .ok spec
    else unfit place (.unknownField key kind.key)

/-- The provider of a type and the other items it is listed with. -/
def specOfItems (place : Span) (kind : ProviderKind) :
    List Toml.Value → Except Fault ProviderSpec
  | [] => .ok (emptySpec kind)
  | [v] => specOf place kind v
  | v :: rest => do
    let _ ← specOf place kind v
    unfit place (.wrongLength (rest.length + 1) 1)

/-- A provider of a document. The first argument is the place of the whole list. -/
def providerOf (place : Span) : Toml.Value → Except Fault ProviderSpec
  | .array span [] => unfit span (.missingField typeKey)
  | .array _ (kind :: items) => do
    let kind ← ProviderKind.ofToml kind
    specOfItems place kind items
  | v =>
    match v.fields? with
    | none => wrongType v v.span "internally tagged enum ProviderConfig"
    | some fields =>
      match fields.lookup typeKey with
      | none => unfit v.span (.missingField typeKey)
      | some kind => do
        let kind ← ProviderKind.ofToml kind
        specOfFields place kind (fields.filter (·.1 ≠ typeKey))

/-- The providers of a document. -/
def providersOf : Toml.Value → Except Fault (List ProviderSpec)
  | .array span items => items.mapM (providerOf span)
  | v => wrongType v v.span "a sequence"

/-- Changes a profile by a key of the document and its value. -/
def entry (p : Profile) (key : String) (v : Toml.Value) : Except Fault Profile :=
  if key = "engine" then do
    let s ← settingsOf v
    .ok { p with settings := s }
  else if key = "providers" then do
    let specs ← providersOf v
    .ok { p with providers := specs }
  else .ok p

/-- Changes a profile by keys and their values. -/
def applyEntries : Profile → List (String × Toml.Value) → Except Fault Profile
  | p, [] => .ok p
  | p, (key, v) :: rest => do
    let p ← entry p key v
    applyEntries p rest

/-- The profile of a document (`from_str`). -/
def parse (source : List Char) : Except ProfileFault Profile :=
  match Toml.read source with
  | .error fault => .error (.malformed source fault)
  | .ok document =>
    match applyEntries {} (document.fields?.getD []) with
    | .error fault => .error (.malformed source fault)
    | .ok p => .ok p

/-- Reads a profile from a file (`from_file`). -/
def read {m : Type → Type} [Monad m] (files : Files m) (path : String) :
    m (Except ProfileFault Profile) := do
  match ← files.readText path with
  | .ok text => pure (parse text.toList)
  | .error fault => pure (.error (.unreadable fault))

/-! ## The chain -/

/-- The chain of the providers (`build_chain`). -/
def chain {m : Type → Type} [Monad m] (p : Profile) :
    Except Override.Fault (Override.Chain m) :=
  Override.Chain.ofProviders (p.providers.map ProviderSpec.provider)

theorem chain_providers {m : Type → Type} [Monad m] (p : Profile) (c : Override.Chain m)
    (h : p.chain = .ok c) : c.providers = p.providers.map ProviderSpec.provider := by
  simp only [chain, Override.Chain.ofProviders] at h
  split at h
  · cases h
  · cases h; rfl

end Profile

end Stencil
