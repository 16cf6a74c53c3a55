import Stencil.CommandLine.Arguments

/-!
# Help

What the command line tells about itself.
-/

namespace Stencil.CommandLine

/-- How the command is used. -/
def usage : String := "Usage: template-override [OPTIONS] <TEMPLATE>"

/-- The lines of the help text. -/
def helpLines : List String :=
  ["Render templates through a chain of override providers",
    "",
    usage,
    "",
    "Arguments:",
    "  <TEMPLATE>  Name of the template to render, relative to the templates directory",
    "",
    "Options:",
    "  -t, --templates <TEMPLATES>  Directory templates are loaded from [default: .]",
    "  -c, --config <CONFIG>        Override configuration file (TOML format)",
    "  -x, --context <CONTEXT>      JSON file holding the render context",
    "      --var <KEY=VALUE>        " ++
      "Context variable as KEY=VALUE; VALUE is parsed as JSON, or taken as a string",
    "      --dump-ast               Print the compiled tree instead of rendering",
    "  -h, --help                   Print help"]

/-- Lines as a text. -/
def linesText (lines : List String) : String := String.join (lines.map (· ++ "\n"))

/-- The help text. -/
def helpText : String := linesText helpLines

/-- A fault of the arguments with a hint on how to go on. -/
def Fault.report (fault : Fault) : String :=
  let missing := match fault with
    | .missingTemplate => ["  <TEMPLATE>"]
    | _ => []
  linesText
    (("error: " ++ fault.message) :: missing ++
      ["", usage, "", "For more information, try '" ++ Draft.helpFlag ++ "'."])

end Stencil.CommandLine
