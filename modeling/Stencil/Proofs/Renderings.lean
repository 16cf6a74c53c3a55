import Stencil.Proofs.Hosts

/-!
# Renderings that follow each other

Where printing and finding templates through one access follows doing so through another one, the
same tree is rendered alike through both, whatever the two are: that is a comparison of the two. The
access of a host follows that of another host with the same settings if its functions and its
templates do.

Results:
* `Host.access_followedBy`: the access of a host.
-/

namespace Stencil

variable {n₁ n₂ : Type → Type} [Monad n₁] [Monad n₂] {τ₁ τ₂ : Type} [Runs n₁ τ₁] [Runs n₂ τ₂]
  {excuse : Failure → Prop} {S : τ₁ → τ₂ → Prop}

/-- The second access prints the same texts and finds the same templates as the first one. -/
abbrev Access.FollowedBy (excuse : Failure → Prop) (S : τ₁ → τ₂ → Prop) (a₁ : Access n₁)
    (a₂ : Access n₂) : Prop := a₁.Compares (.follows excuse S) a₂

/-- A host whose functions and templates follow those of another one, with the same trees. -/
theorem Host.access_followedBy {h₁ : Host n₁} {h₂ : Host n₂} (hs : h₁.settings = h₂.settings)
    (hf : ∀ name, FunctionFollows excuse S h₁ h₂ name) (ht : TemplatesFollow excuse S Eq h₁ h₂)
    (hexcuse : ∀ name, ¬ excuse (.templateNotFound name)) :
    h₁.access.FollowedBy excuse S h₂.access where
  maxDepth := congrArg Settings.maxDepth hs
  print context expr := print_follows hs context fun name _ => hf name
  parent context expr := parent_follows hs (find_follows ht) context fun name _ => hf name
  insertion? context owner target clauses := by
    have hpassed : Follows excuse S Eq (h₁.passed context clauses.bindings)
        (h₂.passed context clauses.bindings) :=
      passed_follows hs context fun _ _ name _ => hf name
    cases target with
    | named expr =>
      refine Follows.congr ?_ (outcome_insertion?_named h₁ context owner expr clauses)
        (outcome_insertion?_named h₂ context owner expr clauses)
      refine (included?_follows hs (find_follows ht) hexcuse context clauses.ignoreMissing
        fun name _ => hf name).bind ?_
      rintro found found' hfound
      cases hfound with
      | none => exact .pure rfl
      | some htree =>
        cases htree
        refine hpassed.bind ?_
        rintro bindings _ rfl
        exact .pure rfl
    | embedded filename index =>
      cases htree : owner.embedded[index]? with
      | none =>
        have h₁' := outcome_insertion?_missing h₁ context htree filename clauses
        have h₂' := outcome_insertion?_missing h₂ context htree filename clauses
        exact Follows.congr (.throw _) h₁' h₂'
      | some tree =>
        refine Follows.congr ?_ (outcome_insertion?_embedded h₁ context htree filename clauses)
          (outcome_insertion?_embedded h₂ context htree filename clauses)
        refine hpassed.bind ?_
        rintro bindings _ rfl
        exact .pure rfl

end Stencil
