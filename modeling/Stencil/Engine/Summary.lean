import Stencil.Engine.Environment
import Stencil.Text.Quoted

/-!
# The summary of an environment

One line on the state of an environment: its settings, the names of its functions, the priorities of
its passes in the order in which they run, and how many compiled templates it keeps.
-/

namespace Stencil

/-- The settings in a summary. -/
def Settings.summary (s : Settings) : String :=
  let strict := if s.strictVariables then "true" else "false"
  "EngineConfig \x7b strict_variables: " ++ strict ++ s!", max_include_depth: {s.maxDepth} \x7d"

/-- A list in a summary. -/
def summaryList (items : List String) : String := "[" ++ ", ".intercalate items ++ "]"

/-- The summary of an environment (its `fmt`). -/
def Environment.summary {m : Type → Type} (env : Environment m) : String :=
  "Environment \x7b config: " ++ env.engine.settings.summary ++
  ", functions: " ++ summaryList ((Dict.keys env.engine.functions).map Text.quoted) ++
  ", visitor_priorities: " ++ summaryList (env.engine.passes.map fun p => toString p.priority) ++
  s!", cached: {env.cache.length} \x7d"

end Stencil
