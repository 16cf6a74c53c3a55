import Stencil.Value

/-!
# Providers

A provider takes part in the choice of a template and of its variables whenever one is included,
embedded or extended. It may do either, both or nothing.

* `table`: renames templates by a fixed table.
* `argumentTable`: replaces the values of given variables.
-/

namespace Stencil.Override

/-- The circumstances in which a template is asked for. -/
structure Inclusion where
  /-- The variables that are passed to it. -/
  bindings : Context := []
  /-- The variables of the place that asks. -/
  context : Context := []
  /-- Whether the template sees nothing but the passed variables. -/
  only : Bool := false
deriving Repr, Inhabited

/-- A provider (`OverrideProvider`). It fails with a message. -/
structure Provider (m : Type → Type) where
  /-- The name in messages. -/
  name : String
  /-- Why the provider is not fit for a chain, if it is not. -/
  problem : Option String
  /-- The name of the template to render instead of the given one. -/
  rename : String → Inclusion → m (Except String String)
  /-- The variables to pass to the template of the given name. -/
  rebind : String → Inclusion → m (Except String Context)

namespace Provider

variable {m : Type → Type} [Monad m]

/-- A provider that changes nothing (the default bodies of an `OverrideProvider`). -/
def transparent (name : String) : Provider m where
  name := name
  problem := none
  rename template _ := pure (.ok template)
  rebind _ inclusion := pure (.ok inclusion.bindings)

/-- The first entry of a renaming table that names nothing (what `validate` of a `TableProvider`
    looks for). -/
def emptyName? (templates : Dict String) : Option (String × String) :=
  templates.find? fun p => p.1.isEmpty || p.2.isEmpty

/-- The name that a renaming table gives a template (`rewrite_template_name` of a `TableProvider`);
    names that it does not hold stay. -/
def lookUp (templates : Dict String) (template : String) : String :=
  (Dict.get? templates template).getD template

/-- Renames templates by a table (`TableProvider`). No name in it may be empty. -/
def table (templates : Dict String) : Provider m :=
  { transparent "table" with
    problem := (emptyName? templates).map fun (source, target) =>
      "empty template name in rename '" ++ source ++ "' -> '" ++ target ++ "'"
    rename := fun template _ => pure (.ok (lookUp templates template)) }

/-- Replaces the values of the variables that a table holds; it adds none
    (`preprocess_template_args` of an `ArgumentTableProvider`). -/
def replaceArguments (arguments : Context) (bindings : Context) : Context :=
  bindings.map fun (key, value) => (key, (Dict.get? arguments key).getD value)

/-- Replaces the values of passed variables by a table (`ArgumentTableProvider`). -/
def argumentTable (arguments : Context) : Provider m :=
  { transparent "arguments" with
    rebind := fun _ inclusion => pure (.ok (replaceArguments arguments inclusion.bindings)) }

end Provider

end Stencil.Override
