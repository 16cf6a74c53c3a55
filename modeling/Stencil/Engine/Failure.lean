import Stencil.Engine.Loader
import Stencil.Override.Fault
import Stencil.Syntax.Report
import Stencil.Template.Pass

/-!
# Failures

Everything that can end the rendering of a template. `Failure.message` is the short form of a
failure; `Failure.report` shows the faults of a source over its lines.
-/

namespace Stencil

/-- Why a function failed (a `FunctionError`). -/
inductive FunctionFault where
  /-- The function itself refused its arguments. -/
  | refused (message : String)
  /-- A hook of the overrides failed. -/
  | override (fault : Override.Fault)
deriving DecidableEq, Repr, Inhabited

/-- The wording of a fault. -/
def FunctionFault.message : FunctionFault → String
  | .refused message => message
  | .override fault => fault.message

/-- A value of the wrong kind (the message of an `Evaluation`). Kinds are given by their names. -/
inductive Misfit where
  | unprintable (kind : String)
  | missingKey (key kind : String)
  | nameNotString (kind : String)
  | notName (kind : String)
  | variablesNotMapping (kind : String)
deriving DecidableEq, Repr, Inhabited

/-- The wording of a misfit. -/
def Misfit.message : Misfit → String
  | .unprintable kind => "Cannot print " ++ kind
  | .missingKey key kind => "Key '" ++ key ++ "' does not exist on " ++ kind
  | .nameNotString kind => "Template names must be strings, got " ++ kind
  | .notName kind => "Template name must be a string or an array of strings, got " ++ kind
  | .variablesNotMapping kind => "Variables passed to an include must be a mapping, got " ++ kind

/-- Why a template cannot be rendered (`RenderError`). -/
inductive Failure where
  | templateNotFound (name : String)
  /-- The source is there but cannot be read. -/
  | unreadable (name : String) (fault : LoadFault)
  /-- The source is no template. -/
  | invalidSource (name source : String) (faults : List Syntax.Fault)
  /-- A pass refused the tree. -/
  | invalidTree (name : String) (fault : MissingPart)
  | unknownFunction (name : String) (span : Span)
  | functionFailed (name : String) (fault : FunctionFault)
  | undefinedVariable (name : String) (span : Span)
  | misfit (misfit : Misfit) (span : Span)
  /-- An include asks for an embedded tree that is not there. -/
  | missingEmbedded (name : String) (index : Nat)
  | tooDeep (limit : Nat) (name : String)
  /-- More definitions of blocks lead from one to the next than a rendering has the patience for, as
      where a block is overridden by one that contains a block of the same name. The program has no
      such failure and goes on. -/
  | endlessBlock (name : String)
deriving DecidableEq, Repr, Inhabited

namespace Failure

/-- The wording of a failure. -/
def message : Failure → String
  | .templateNotFound name => "template not found: " ++ name
  | .unreadable name fault => "error reading template " ++ name ++ ": " ++ fault.message
  | .invalidSource name _ faults =>
    "parse errors in " ++ name ++ ": " ++ "; ".intercalate (faults.map Syntax.Fault.text)
  | .invalidTree name fault => "compile error in " ++ name ++ ": " ++ fault.message
  | .unknownFunction name _ => "unknown function '" ++ name ++ "'"
  | .functionFailed name fault => "function '" ++ name ++ "' failed: " ++ fault.message
  | .undefinedVariable name _ => "variable '" ++ name ++ "' does not exist"
  | .misfit m _ => m.message
  | .missingEmbedded name index => s!"embedded template {index} not found in " ++ name
  | .tooDeep limit name => s!"maximum template depth of {limit} exceeded while rendering " ++ name
  | .endlessBlock name => "block '" ++ name ++ "' contains itself"

/-- The failure for a terminal (`report`). -/
def report : Failure → String
  | .invalidSource name source faults =>
    "\n".intercalate (faults.map fun f => f.report source.toList name)
  | failure => failure.message

end Failure

end Stencil
