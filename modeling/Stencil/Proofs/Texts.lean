import Stencil.Proofs.Run

/-!
# Texts one after the other

Rendering a body gives the texts of its parts one after the other, up to the first part that fails.

Results:
* `outcome_join`, `of_outcome_join`: how two texts end.
* `outcome_join_empty`, `outcome_join_assoc`: texts can be grouped in any way.
* `Follows.join`: texts that follow each other.
-/

namespace Stencil

variable {n : Type → Type} [Monad n] {τ : Type} [Runs n τ]

/-- Two texts, one after the other. -/
def join (front back : Rendering n String) : Rendering n String := do
  let first ← front
  let second ← back
  pure (first ++ second)

theorem outcome_join (front back : Rendering n String) (s : τ) :
    outcome (join front back) s = (outcome front s).bind fun
      | (.ok first, s') => (outcome back s').map fun p => (p.1.map (first ++ ·), p.2)
      | (.error e, s') => some (.error e, s') := by
  rw [join, outcome_bind]
  congr 1
  funext ⟨r, s'⟩
  cases r with
  | error e => rfl
  | ok first =>
    simp only [outcome_bind]
    cases outcome back s' with
    | none => rfl
    | some p =>
      obtain ⟨r, s''⟩ := p
      cases r with
      | error e => rfl
      | ok second => simp [Except.map]

/-- A join ends with its first part, or with its second part after the text of the first. -/
theorem of_outcome_join {front back : Rendering n String} {s s' : τ} {r : Except Failure String}
    (h : outcome (join front back) s = some (r, s')) :
    (∃ e, r = .error e ∧ outcome front s = some (.error e, s')) ∨
      ∃ first rest s₁, outcome front s = some (.ok first, s₁) ∧
        outcome back s₁ = some (rest, s') ∧ r = rest.map (first ++ ·) := by
  rw [outcome_join] at h
  obtain ⟨⟨r₁, s₁⟩, hfront, h⟩ := Option.bind_eq_some_iff.1 h
  cases r₁ with
  | error e =>
    cases h
    exact .inl ⟨e, rfl, hfront⟩
  | ok first =>
    obtain ⟨⟨rest, s₂⟩, hback, heq⟩ := Option.map_eq_some_iff.1 h
    cases heq
    exact .inr ⟨first, rest, s₁, hfront, hback, rfl⟩

/-- A join depends only on how its parts end. -/
theorem outcome_join_congr {front front' back back' : Rendering n String}
    (hf : outcome (τ := τ) front = outcome front') (hb : outcome (τ := τ) back = outcome back') :
    outcome (τ := τ) (join front back) = outcome (join front' back') := by
  funext s
  rw [outcome_join, outcome_join, hf, hb]

theorem outcome_join_empty (back : Rendering n String) :
    outcome (τ := τ) (join (pure "") back) = outcome back := by
  funext s
  rw [outcome_join, outcome_pure]
  cases h : outcome back s with
  | none => simp [h]
  | some p =>
    obtain ⟨r, s'⟩ := p
    cases r <;> simp [h, Except.map]

theorem outcome_join_assoc (x y z : Rendering n String) :
    outcome (τ := τ) (join (join x y) z) = outcome (join x (join y z)) := by
  funext s
  simp only [outcome_join]
  cases outcome x s with
  | none => rfl
  | some p =>
    obtain ⟨r, s'⟩ := p
    cases r with
    | error e => rfl
    | ok first =>
      simp only [Option.bind_some]
      cases outcome y s' with
      | none => rfl
      | some p =>
        obtain ⟨r, s''⟩ := p
        cases r with
        | error e => rfl
        | ok second =>
          simp only [Option.map_some, Option.bind_some, Except.map]
          cases outcome z s'' with
          | none => rfl
          | some p =>
            obtain ⟨r, s'''⟩ := p
            cases r <;> simp [String.append_assoc]

/-- Texts follow each other if their parts do. -/
theorem Follows.join {n₁ n₂ : Type → Type} [Monad n₁] [Monad n₂] {τ₁ τ₂ : Type} [Runs n₁ τ₁]
    [Runs n₂ τ₂] {excuse : Failure → Prop} {S : τ₁ → τ₂ → Prop} {front back : Rendering n₁ String}
    {front' back' : Rendering n₂ String} (hf : Follows excuse S Eq front front')
    (hb : Follows excuse S Eq back back') :
    Follows excuse S Eq (Stencil.join front back) (Stencil.join front' back') := by
  refine hf.bind ?_
  rintro first _ rfl
  refine hb.bind ?_
  rintro second _ rfl
  exact .pure rfl

end Stencil
