import Stencil.Override.Fault
import Stencil.Template.TextMerge

/-!
# Routing templates through the hooks

A pass that makes a template consult the hooks wherever it asks for another one. The name of an
extended or included template goes through the first hook, and the variables of an include through
the second one. What an embed renders is part of the template itself, so its name is never changed;
the template that it extends is.
-/

namespace Stencil.Override

/-- A call of a hook, all of it at one place of the source (`hook`). -/
def Hook.invoke (hook : Hook) (target : Expr) (only : Bool) (bindings : Option Expr)
    (span : Span) : Expr :=
  .call span hook.name
    [target, .constant span (.bool only), bindings.getD (.constant span .null),
      .name span Expr.contextName]

/-- The name of an extended template, through the hook. -/
def routedParent (parent : Expr) : Expr := Hook.template.invoke parent false none parent.span

/-- The name of an included template, through the hook. -/
def routedTarget (target : Expr) (clauses : Clauses) : Expr :=
  Hook.template.invoke target clauses.only clauses.bindings target.span

/-- The clauses of an include of the given name, with the variables through the hook. -/
def routedClauses (name : Expr) (span : Span) (clauses : Clauses) : Clauses :=
  { clauses with
    bindings := some (Hook.parameters.invoke name clauses.only clauses.bindings span) }

/-- A tree whose extended template goes through the hook (`leave_node` of a module). -/
def routeTree (tree : Tree) : Tree := { tree with parent := tree.parent.map routedParent }

/-- A node whose template and variables go through the hooks (`rewrite_include` in `leave_node`). -/
def routeNode : Node → Except MissingPart Node
  | .«include» span (.embedded filename index) clauses =>
    if filename.isEmpty then .error ⟨"embed", "filename", span⟩
    else
      .ok (.«include» span (.embedded filename index)
        (routedClauses (.constant span (.string filename)) span clauses))
  | .«include» span (.named target) clauses =>
    .ok (.«include» span (.named (routedTarget target clauses)) (routedClauses target span clauses))
  | node => .ok node

/-- The pass comes right after the built-in one (`VISITOR_PRIORITY`). -/
def routingPriority : Int := textMergePriority + 1

/-- The pass that routes a template through the hooks (`OverrideNodeVisitor`). -/
def routing {m : Type → Type} [Monad m] : Pass m :=
  .changing routingPriority (fun tree => .ok (routeTree tree)) routeNode

end Stencil.Override
