import Stencil.Json.Reader

/-!
# Arguments

The arguments of the command line: the name of a template and options. The value of an option is
attached to it or is the next argument; after `--` there are no more options.

An option waits for its value, and an argument that is no option at all is refused before a waiting
option is looked at.
-/

namespace Stencil.CommandLine

/-- What the command line asks for (`Cli`). -/
structure Arguments where
  /-- The name of the template. -/
  template : String
  /-- The directory of the templates. -/
  templates : String := "."
  /-- The file of the profile. -/
  config : Option String := none
  /-- The file of the context. -/
  context : Option String := none
  /-- Variables of the context, the later ones over the earlier ones. -/
  bindings : List (String × Value) := []
  /-- Whether to show the tree of the template instead of rendering it. -/
  showTree : Bool := false
deriving Repr

/-- The options that take a value. -/
inductive Setting where
  | templates
  | config
  | context
  | variable
deriving DecidableEq, Repr

namespace Setting

/-- The name of an option. -/
def long : Setting → String
  | .templates => "templates"
  | .config => "config"
  | .context => "context"
  | .variable => "var"

/-- The letter of an option. -/
def short? : Setting → Option Char
  | .templates => some 't'
  | .config => some 'c'
  | .context => some 'x'
  | .variable => none

/-- What an option is called in messages. -/
def describe : Setting → String
  | .templates => "--templates <TEMPLATES>"
  | .config => "--config <CONFIG>"
  | .context => "--context <CONTEXT>"
  | .variable => "--var <KEY=VALUE>"

/-- All options that take a value. -/
def all : List Setting := [.templates, .config, .context, .variable]

end Setting

/-- What can be wrong with the value of a variable. -/
inductive VariableFault where
  | noValue
  | noName
deriving DecidableEq, Repr

/-- What can be wrong with arguments. -/
inductive Fault where
  | unexpectedArgument (argument : String)
  | missingValue (option : String)
  | unexpectedValue (value option : String)
  | repeated (option : String)
  | invalidVariable (value : String) (fault : VariableFault)
  | missingTemplate
deriving DecidableEq, Repr

/-- The wording of a fault, one line. -/
def Fault.message : Fault → String
  | .unexpectedArgument argument => "unexpected argument '" ++ argument ++ "' found"
  | .missingValue option => "a value is required for '" ++ option ++ "' but none was supplied"
  | .unexpectedValue value option =>
    "unexpected value '" ++ value ++ "' for '" ++ option ++ "' found; no more were expected"
  | .repeated option => "the argument '" ++ option ++ "' cannot be used multiple times"
  | .invalidVariable value fault =>
    let reason := match fault with
      | .noValue => "expected KEY=VALUE, got '" ++ value ++ "'"
      | .noName => "empty variable name in '" ++ value ++ "'"
    "invalid value '" ++ value ++ "' for '" ++ Setting.variable.describe ++ "': " ++ reason
  | .missingTemplate => "the following required arguments were not provided:"

/-- Why reading arguments ends before the last one. -/
inductive Stop where
  | help
  | fault (fault : Fault)
deriving DecidableEq, Repr

/-- Fails. -/
def refuse {α : Type} (fault : Fault) : Except Stop α := .error (.fault fault)

/-- A name and a value around the first equals sign. -/
def splitAtEquals (s : String) : String × Option String :=
  match s.toList.span (· ≠ '=') with
  | (name, []) => (String.ofList name, none)
  | (name, _ :: value) => (String.ofList name, some (String.ofList value))

/-- A variable (`parse_var`): its value is JSON, or else a text. -/
def readVariable (s : String) : Except Stop (String × Value) :=
  match splitAtEquals s with
  | (_, none) => refuse (.invalidVariable s .noValue)
  | (name, some value) =>
    if name.isEmpty then refuse (.invalidVariable s .noName)
    else match Json.read value.toList with
      | .ok v => .ok (name, v)
      | .error _ => .ok (name, .string value)

/-- What is still to be looked at: an option with or without its value, or the template. -/
inductive Pending where
  | template (name : String)
  | waiting (setting : Setting)
  | given (setting : Setting) (value : String)
deriving Repr

/-- The arguments so far. -/
structure Draft where
  template : Option String := none
  templates : Option String := none
  config : Option String := none
  context : Option String := none
  bindings : List (String × Value) := []
  showTree : Bool := false
  pending : Option Pending := none

namespace Draft

/-- The value of an option that names a file or a directory. -/
def path (setting : Setting) (earlier : Option String) (value : String) :
    Except Stop (Option String) :=
  if earlier.isSome then refuse (.repeated setting.describe)
  else if value.isEmpty then refuse (.missingValue setting.describe)
  else .ok (some value)

/-- Takes the value of an option. -/
def take (d : Draft) (setting : Setting) (value : String) : Except Stop Draft :=
  match setting with
  | .templates => do
    let value ← path setting d.templates value
    .ok { d with templates := value }
  | .config => do
    let value ← path setting d.config value
    .ok { d with config := value }
  | .context => do
    let value ← path setting d.context value
    .ok { d with context := value }
  | .variable => do
    let v ← readVariable value
    .ok { d with bindings := d.bindings ++ [v] }

/-- Takes what is pending. -/
def settle (d : Draft) : Except Stop Draft :=
  let rest := { d with pending := none }
  match d.pending with
  | none => .ok d
  | some (.template name) => .ok { rest with template := some name }
  | some (.waiting setting) => refuse (.missingValue setting.describe)
  | some (.given setting value) => rest.take setting value

/-- Takes an option, whose value may be attached to it. -/
def option (d : Draft) (setting : Setting) (value : Option String) : Except Stop Draft := do
  let d ← d.settle
  match value with
  | some value => d.take setting value
  | none => .ok { d with pending := some (.waiting setting) }

/-- The flag for the tree. -/
def showTreeFlag : String := "--dump-ast"

/-- The flag for help. -/
def helpFlag : String := "--help"

/-- Takes the flag for the tree. -/
def askTree (d : Draft) : Except Stop Draft := do
  let d ← d.settle
  if d.showTree then refuse (.repeated showTreeFlag) else .ok { d with showTree := true }

/-- Takes the flag for help. -/
def askHelp (d : Draft) : Except Stop Draft := do
  let _ ← d.settle
  .error .help

/-- Takes an option by its name, without the dashes. -/
def long (d : Draft) (name : String) (value : Option String) : Except Stop Draft :=
  match Setting.all.find? (·.long == name), value with
  | some setting, value => d.option setting value
  | none, value =>
    let flag := "--" ++ name
    if flag = showTreeFlag ∨ flag = helpFlag then
      match value with
      | some value => refuse (.unexpectedValue value flag)
      | none => if flag = showTreeFlag then d.askTree else d.askHelp
    else refuse (.unexpectedArgument flag)

/-- Takes an option by its letter. -/
def short (d : Draft) (letter : Char) (rest : List Char) : Except Stop Draft :=
  match Setting.all.find? (·.short? == some letter) with
  | some setting =>
    d.option setting (match rest with
      | [] => none
      | '=' :: value => some (String.ofList value)
      | value => some (String.ofList value))
  | none =>
    if letter = 'h' then d.askHelp else refuse (.unexpectedArgument (String.ofList ['-', letter]))

/-- Whether the template is named. -/
def hasTemplate (d : Draft) : Bool :=
  match d.pending with
  | some (.template _) => true
  | _ => d.template.isSome

/-- Takes the name of the template. -/
def positional (d : Draft) (argument : String) : Except Stop Draft :=
  if d.hasTemplate then refuse (.unexpectedArgument argument)
  else do
    let d ← d.settle
    .ok { d with pending := some (.template argument) }

/-- Takes an argument that is no option: the value that is waited for, or the template. -/
def plain (d : Draft) (argument : String) : Except Stop Draft :=
  match d.pending with
  | some (.waiting setting) => .ok { d with pending := some (.given setting argument) }
  | _ => d.positional argument

/-- Takes all arguments. The flag tells whether there may still be options. -/
def takeAll : Bool → List String → Draft → Except Stop Draft
  | _, [], d => d.settle
  | false, argument :: rest, d => do
    let d ← d.positional argument
    takeAll false rest d
  | true, argument :: rest, d =>
    match argument.toList with
    | ['-', '-'] => takeAll false rest d
    | '-' :: '-' :: option => do
      let (name, value) := splitAtEquals (String.ofList option)
      let d ← d.long name value
      takeAll true rest d
    | '-' :: letter :: value => do
      let d ← d.short letter value
      takeAll true rest d
    | _ => do
      let d ← d.plain argument
      takeAll true rest d

end Draft

/-- Reads the arguments. -/
def Arguments.parse (arguments : List String) : Except Stop Arguments := do
  let d ← Draft.takeAll true arguments {}
  match d.template with
  | none => refuse .missingTemplate
  | some template =>
    .ok ⟨template, d.templates.getD ".", d.config, d.context, d.bindings, d.showTree⟩

end Stencil.CommandLine
