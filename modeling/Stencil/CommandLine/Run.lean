import Stencil.CommandLine.Help
import Stencil.Config.Profile
import Stencil.Override.Extension
import Stencil.Template.Outline

/-!
# Running a command line

A command line renders one template, or shows its tree, under a profile and in a context that come
from files. The profile is read first, then the context, then the template; the first failure is
reported and ends the run.
-/

namespace Stencil.CommandLine

/-- What a run leaves behind. -/
structure Outcome where
  exit : Nat
  stdout : String := ""
  stderr : String := ""
deriving DecidableEq, Repr

/-- A run that ends with a message. -/
def Outcome.failed (message : String) : Outcome := { exit := 1, stderr := message ++ "\n" }

/-- A run that ends with the arguments. -/
def Outcome.ofStop : Stop → Outcome
  | .help => { exit := 0, stdout := helpText }
  | .fault fault => { exit := 2, stderr := fault.report }

/-- A context from the text of its file. -/
def contextOfText (path text : String) : Except String Context :=
  match Json.read text.toList with
  | .ok (.mapping fields) => .ok fields
  | .ok _ => .error ("context file '" ++ path ++ "' must hold a JSON object")
  | .error fault =>
    .error ("parsing context file '" ++ path ++ "': " ++ fault.message text.toList)

variable {m : Type → Type} [Monad m]

/-- The profile of a run. -/
def readProfile (files : Files m) : Option String → ExceptT Outcome m Profile
  | none => pure {}
  | some path => ExceptT.mk do
    match ← Profile.read files path with
    | .ok profile => pure (.ok profile)
    | .error fault =>
      pure (.error (.failed ("Error loading configuration '" ++ path ++ "': " ++ fault.message)))

/-- The chain of a profile. -/
def buildChain (profile : Profile) : ExceptT Outcome m (Override.Chain m) :=
  ExceptT.mk (pure (Except.mapError (fun fault => .failed ("Error: " ++ fault.message))
    profile.chain))

/-- The context of a file. -/
def readContextFile (files : Files m) (path : String) : m (Except String Context) := do
  match ← files.readText path with
  | .ok text => pure (contextOfText path text)
  | .error fault =>
    pure (.error ("reading context file '" ++ path ++ "': " ++ fault.message))

/-- The context of a run (`load_context`): that of the file, with the given variables over it. -/
def readContext (files : Files m) (path : Option String) (bindings : List (String × Value)) :
    ExceptT Outcome m Context := do
  let context ← (match path with
    | none => pure []
    | some path => ExceptT.mk
        (Except.mapError (fun message => .failed ("Error: " ++ message)) <$>
          readContextFile files path))
  pure (Dict.merge context bindings)

/-- What is written for a template: its tree, or its text. -/
def output (env : Environment m) (arguments : Arguments) (context : Context) :
    m (Except Failure String) :=
  if arguments.showTree then do
    let (result, _) ← env.load arguments.template
    pure (result.map fun t => t.tree.outline.write 0 ++ "\n")
  else do
    let (result, _) ← env.render arguments.template context
    pure result

/-- A run with arguments that have been read. -/
def runArguments (files : Files m) (arguments : Arguments) : ExceptT Outcome m Outcome := do
  let profile ← readProfile files arguments.config
  let chain ← buildChain profile
  let context ← readContext files arguments.context arguments.bindings
  let env := (Override.environment (.directory files arguments.templates) chain).configure
    profile.settings
  match ← ExceptT.lift (output env arguments context) with
  | .ok text => pure { exit := 0, stdout := text }
  | .error failure => pure (.failed failure.report)

/-- A run (`main`). -/
def run (files : Files m) (arguments : List String) : m Outcome :=
  match Arguments.parse arguments with
  | .error stop => pure (.ofStop stop)
  | .ok arguments => do
    match ← (runArguments files arguments).run with
    | .ok outcome => pure outcome
    | .error outcome => pure outcome

end Stencil.CommandLine
