import Stencil.Engine.Host

/-!
# Evaluation

The value of an expression in a context. Operands are evaluated from left to right, and the first
failure ends the evaluation.

* `evaluate_constant`, `evaluate_name`: the values of the simplest expressions.
-/

namespace Stencil

variable {n : Type → Type} [Monad n] {T : Type}

/-- The text that a value is printed as (`to_output`). -/
def printValue (value : Value) (span : Span) : Except Failure String :=
  match value.printed? with
  | some text => .ok text
  | none => .error (.misfit (.unprintable value.kind) span)

/-- The value of a variable (a name in `evaluate`). -/
def variableValue (settings : Settings) (context : Context) (name : String) (span : Span) :
    Except Failure Value :=
  if name = Expr.contextName then .ok (.mapping context)
  else match Dict.get? context name with
    | some value => .ok value
    | none =>
      if settings.strictVariables then .error (.undefinedVariable name span) else .ok .null

/-- The value of a key of a mapping (an attribute in `evaluate`). -/
def keyValue (settings : Settings) (object : Value) (key : String) (span : Span) :
    Except Failure Value :=
  match object.field? key with
  | some value => .ok value
  | none =>
    if settings.strictVariables then .error (.misfit (.missingKey key object.kind) span)
    else .ok .null

namespace Host

mutual

/-- The value of an expression (`evaluate`). -/
def evaluate (host : Host n T) (context : Context) : Expr → Rendering n Value
  | .constant _ value => pure value
  | .name span name => .of (variableValue host.settings context name span)
  | .mapping _ entries => do
    let fields ← host.evaluateEntries context entries
    pure (.mapping (Dict.ofList fields))
  | .array _ items => do
    let values ← host.evaluateAll context items
    pure (.array values)
  | .attribute span object key => do
    let value ← host.evaluate context object
    .of (keyValue host.settings value key span)
  | .concat _ left right => do
    let first ← host.evaluate context left
    let front ← .of (printValue first left.span)
    let second ← host.evaluate context right
    let back ← .of (printValue second right.span)
    pure (.string (front ++ back))
  | .call span name arguments =>
    match host.function? name with
    | none => throw (.unknownFunction name span)
    | some function => do
      let values ← host.evaluateAll context arguments
      .ofAction (Except.mapError (.functionFailed name) <$> function values)

/-- The values of expressions in order. -/
def evaluateAll (host : Host n T) (context : Context) : List Expr → Rendering n (List Value)
  | [] => pure []
  | e :: rest => do
    let value ← host.evaluate context e
    let values ← host.evaluateAll context rest
    pure (value :: values)

/-- The fields of a mapping in the order in which they are written. -/
def evaluateEntries (host : Host n T) (context : Context) :
    List (String × Expr) → Rendering n (List (String × Value))
  | [] => pure []
  | (key, e) :: rest => do
    let value ← host.evaluate context e
    let fields ← host.evaluateEntries context rest
    pure ((key, value) :: fields)

end

@[simp] theorem evaluate_constant (host : Host n T) (context : Context) (span : Span)
    (value : Value) : host.evaluate context (.constant span value) = pure value := by
  simp only [evaluate]

@[simp] theorem evaluate_name (host : Host n T) (context : Context) (span : Span) (name : String) :
    host.evaluate context (.name span name) =
      .of (variableValue host.settings context name span) := by
  simp only [evaluate]

end Host

end Stencil
