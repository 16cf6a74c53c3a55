import Stencil.Override.Fault
import Stencil.Override.Provider
import Stencil.Text.Quoted

/-!
# Chains of providers

The providers of a chain act one after the other, in an order that is fixed when the chain is built.
There are two pipelines. One hands the name of the template from provider to provider, the other the
variables; each leaves alone what the other one changes, and ends with the first provider that
fails.
-/

namespace Stencil.Override

/-- Providers in the order in which they act (`ProviderChain`). -/
structure Chain (m : Type → Type) where
  providers : List (Provider m)

namespace Chain

variable {m : Type → Type}

/-- The chain without providers (`empty`). -/
def empty : Chain m := ⟨[]⟩

/-- The fault of the first provider that is not fit for a chain (the loop of `new`). -/
def problem? (providers : List (Provider m)) : Option Fault :=
  providers.findSome? fun p => p.problem.map (.configuration p.name)

/-- The chain of the given providers, all of which have to be fit for it (`new`). -/
def ofProviders (providers : List (Provider m)) : Except Fault (Chain m) :=
  match problem? providers with
  | some fault => .error fault
  | none => .ok ⟨providers⟩

/-- The number of providers (`len`). -/
def length (c : Chain m) : Nat := c.providers.length

/-- The names of the providers as they are listed in messages (`fmt`). -/
def describe (c : Chain m) : String :=
  "[" ++ ", ".intercalate (c.providers.map fun p => Text.quoted p.name) ++ "]"

variable [Monad m]

/-- Hands a name from provider to provider (the loop of `rewrite_template_name`). -/
def renameAll (inclusion : Inclusion) : List (Provider m) → String → ExceptT Fault m String
  | [], template => pure template
  | p :: rest, template => do
    let next ← ExceptT.mk (Except.mapError (.provider p.name .rename) <$> p.rename template inclusion)
    renameAll inclusion rest next

/-- Hands the variables from provider to provider (the loop of `preprocess_template_args`). -/
def rebindAll (template : String) : List (Provider m) → Inclusion → ExceptT Fault m Context
  | [], inclusion => pure inclusion.bindings
  | p :: rest, inclusion => do
    let next ← ExceptT.mk
      (Except.mapError (.provider p.name .rebindArguments) <$> p.rebind template inclusion)
    rebindAll template rest { inclusion with bindings := next }

/-- The name of the template to render instead of the given one (`rewrite_template_name`). -/
def rename (c : Chain m) (template : String) (inclusion : Inclusion) : ExceptT Fault m String :=
  renameAll inclusion c.providers template

/-- The variables to pass to the template of the given name (`preprocess_template_args`). -/
def rebind (c : Chain m) (template : String) (inclusion : Inclusion) : ExceptT Fault m Context :=
  rebindAll template c.providers inclusion

end Chain

end Stencil.Override
