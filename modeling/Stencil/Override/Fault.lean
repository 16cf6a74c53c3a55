/-!
# Faults of the overrides

What can go wrong when a chain of providers is built or run, and when one of its hooks is called.
-/

namespace Stencil.Override

/-- The two things a provider does (`Stage`). -/
inductive Stage where
  | rename
  | rebindArguments
deriving DecidableEq, Repr, Inhabited

/-- The name of a stage in messages. -/
def Stage.describe : Stage → String
  | .rename => "template rename"
  | .rebindArguments => "argument rewrite"

/-- The two hooks (the functions `RENAME_FUNCTION` and `PARAMETERS_FUNCTION`). -/
inductive Hook where
  /-- Answers the name of the template to render. -/
  | template
  /-- Answers the variables to pass to it. -/
  | parameters
deriving DecidableEq, Repr, Inhabited

/-- The name under which templates call a hook. -/
def Hook.name : Hook → String
  | .template => "_override_template"
  | .parameters => "_override_parameters"

/-- What can be wrong with the arguments of a hook (the reason of an `InvalidArgument`). A value is
    given as its JSON text. -/
inductive Misuse where
  | missingName
  | tooManyArguments (count : Nat)
  | flagNotBoolean (json : String)
  | notMapping (what json : String)
  | nameNotString (json : String)
  | arrayWithoutName
  | notName (json : String)
deriving DecidableEq, Repr, Inhabited

/-- The wording of a misuse. -/
def Misuse.message : Misuse → String
  | .missingName => "missing template name"
  | .tooManyArguments count => s!"expected at most 4 arguments, got {count}"
  | .flagNotBoolean json => "only flag must be a boolean, got " ++ json
  | .notMapping what json => what ++ " must be a mapping, got " ++ json
  | .nameNotString json => "template names must be strings, got " ++ json
  | .arrayWithoutName => "template name array must start with a string"
  | .notName json => "template name must be a string or an array, got " ++ json

/-- What can go wrong in an override (`OverrideError`). -/
inductive Fault where
  /-- A provider is not fit for a chain. -/
  | configuration (provider reason : String)
  /-- A provider failed. -/
  | provider (provider : String) (stage : Stage) (message : String)
  /-- A hook was called with the wrong arguments. -/
  | invalidArgument (hook : Hook) (misuse : Misuse)
deriving DecidableEq, Repr, Inhabited

/-- The wording of a fault. -/
def Fault.message : Fault → String
  | .configuration name reason => "invalid override provider " ++ name ++ ": " ++ reason
  | .provider name stage message =>
    "override provider " ++ name ++ " failed during " ++ stage.describe ++ ": " ++ message
  | .invalidArgument hook misuse =>
    "invalid argument to " ++ hook.name ++ ": " ++ misuse.message

end Stencil.Override
