import Stencil.Proofs.Derivations
import Stencil.Proofs.Likeness
import Stencil.Proofs.Places

/-!
# Places do not matter to rendering

The places of a template appear in messages only. Expressions that differ in nothing but their places
have the same values; if one of them fails, so does the other one.

Results:
* `Expr.term_eq_constant` and the like: expressions by their terms.
* `Expr.moved_of_term`: expressions with the same term differ in their places alone.
* `Host.evaluate_term`: evaluation.
* `Host.print_term`, `Host.passed_term`: printing, and passing variables.
-/

namespace Stencil

/-! ## Expressions by their terms -/

namespace Expr

variable {e : Expr}

theorem term_eq_constant {value : Value} (h : e.term = .constant value) :
    ∃ span, e = .constant span value := by
  cases e <;> cases h
  exact ⟨_, rfl⟩

theorem term_eq_name {name : String} (h : e.term = .name name) : ∃ span, e = .name span name := by
  cases e <;> cases h
  exact ⟨_, rfl⟩

theorem term_eq_mapping {entries : List (String × Term)} (h : e.term = .mapping entries) :
    ∃ span given, e = .mapping span given ∧ termEntries given = entries := by
  cases e <;> cases h
  exact ⟨_, _, rfl, rfl⟩

theorem term_eq_array {items : List Term} (h : e.term = .array items) :
    ∃ span given, e = .array span given ∧ terms given = items := by
  cases e <;> cases h
  exact ⟨_, _, rfl, rfl⟩

theorem term_eq_attribute {object : Term} {name : String} (h : e.term = .attribute object name) :
    ∃ span given, e = .attribute span given name ∧ given.term = object := by
  cases e <;> cases h
  exact ⟨_, _, rfl, rfl⟩

theorem term_eq_concat {left right : Term} (h : e.term = .concat left right) :
    ∃ span front back, e = .concat span front back ∧ front.term = left ∧ back.term = right := by
  cases e <;> cases h
  exact ⟨_, _, _, rfl, rfl, rfl⟩

theorem term_eq_call {name : String} {arguments : List Term} (h : e.term = .call name arguments) :
    ∃ span given, e = .call span name given ∧ terms given = arguments := by
  cases e <;> cases h
  exact ⟨_, _, rfl, rfl⟩

theorem terms_eq_nil {es : List Expr} (h : terms es = []) : es = [] := by
  cases es with
  | nil => rfl
  | cons e rest => simp [terms] at h

theorem terms_eq_cons {es : List Expr} {t : Term} {ts : List Term} (h : terms es = t :: ts) :
    ∃ e rest, es = e :: rest ∧ e.term = t ∧ terms rest = ts := by
  cases es with
  | nil => simp [terms] at h
  | cons e rest =>
    rw [terms, List.cons.injEq] at h
    exact ⟨e, rest, rfl, h⟩

theorem termEntries_eq_nil {entries : List (String × Expr)} (h : termEntries entries = []) :
    entries = [] := by
  cases entries with
  | nil => rfl
  | cons entry rest => simp [termEntries] at h

theorem termEntries_eq_cons {entries : List (String × Expr)} {key : String} {t : Term}
    {ts : List (String × Term)} (h : termEntries entries = (key, t) :: ts) :
    ∃ e rest, entries = (key, e) :: rest ∧ e.term = t ∧ termEntries rest = ts := by
  cases entries with
  | nil => simp [termEntries] at h
  | cons entry rest =>
    obtain ⟨other, e⟩ := entry
    rw [termEntries, List.cons.injEq, Prod.mk.injEq] at h
    obtain ⟨⟨rfl, he⟩, hrest⟩ := h
    exact ⟨e, rest, rfl, he, hrest⟩

end Expr

/-! ## Expressions with the same term -/

/-- Every place may have moved to every other one. -/
def anywhere : Span → Span → Prop := fun _ _ => True

namespace Expr

mutual

/-- Expressions with the same term differ in their places alone. -/
theorem moved_of_term : ∀ {e e' : Expr}, e.term = e'.term → e.Moved anywhere e'
  | .constant _ value, e', h => by
    obtain ⟨span, rfl⟩ := term_eq_constant h.symm
    exact .constant trivial
  | .name _ ident, e', h => by
    obtain ⟨span, rfl⟩ := term_eq_name h.symm
    exact .name trivial
  | .mapping _ entries, e', h => by
    obtain ⟨span, given, rfl, hgiven⟩ := term_eq_mapping h.symm
    exact .mapping trivial (movedEntries_of_terms hgiven.symm)
  | .array _ items, e', h => by
    obtain ⟨span, given, rfl, hgiven⟩ := term_eq_array h.symm
    exact .array trivial (movedAll_of_terms hgiven.symm)
  | .attribute _ object key, e', h => by
    obtain ⟨span, given, rfl, hgiven⟩ := term_eq_attribute h.symm
    exact .«attribute» trivial (moved_of_term hgiven.symm)
  | .concat _ left right, e', h => by
    obtain ⟨span, front, back, rfl, hfront, hback⟩ := term_eq_concat h.symm
    exact .concat trivial (moved_of_term hfront.symm) (moved_of_term hback.symm)
  | .call _ function arguments, e', h => by
    obtain ⟨span, given, rfl, hgiven⟩ := term_eq_call h.symm
    exact .call trivial (movedAll_of_terms hgiven.symm)

theorem movedAll_of_terms : ∀ {es es' : List Expr}, terms es = terms es' →
    MovedAll anywhere es es'
  | [], es', h => by
    obtain rfl := terms_eq_nil h.symm
    exact .nil
  | e :: rest, es', h => by
    obtain ⟨e', rest', rfl, he, hrest⟩ := terms_eq_cons h.symm
    exact .cons (moved_of_term he.symm) (movedAll_of_terms hrest.symm)

theorem movedEntries_of_terms : ∀ {entries entries' : List (String × Expr)},
    termEntries entries = termEntries entries' → MovedEntries anywhere entries entries'
  | [], entries', h => by
    obtain rfl := termEntries_eq_nil h.symm
    exact .nil
  | (key, e) :: rest, entries', h => by
    obtain ⟨e', rest', rfl, he, hrest⟩ := termEntries_eq_cons h.symm
    exact .cons (moved_of_term he.symm) (movedEntries_of_terms hrest.symm)

end

/-- Optional expressions with the same term. -/
theorem moved_of_map_term {e e' : Option Expr} (h : e.map term = e'.map term) :
    Option.Rel (Moved anywhere) e e' := by
  cases e with
  | none =>
    cases e' with
    | none => exact .none
    | some e' => cases h
  | some e =>
    cases e' with
    | none => cases h
    | some e' => exact .some (moved_of_term (Option.some.inj h))

end Expr

/-! ## Evaluation -/

/-- Pure steps that track each other resemble each other. -/
theorem Tracks.resembles {F : Failure → Failure → Prop} {α β : Type} {R : α → β → Prop}
    {x : Rendering Id α} {y : Rendering Id β}
    (h : Tracks (fun _ => False) F (Eq (α := Unit)) R x y) (converse : Prop) :
    Resembles converse R x y := by
  obtain ⟨_, _, he⟩ | ⟨r, _, hy, -, hr⟩ := h (Eq.refl ()) (Eq.refl (some (x.run, ())))
  · exact he.elim
  · obtain rfl : y.run = r := congrArg Prod.fst (Option.some.inj hy)
    generalize hx : x.run = r at hr
    generalize hy : y.run = r' at hr
    cases hr with
    | ok hR =>
      constructor
      · rintro a ha
        cases hx.symm.trans ha
        exact ⟨_, hy, hR⟩
      · rintro - b hb
        cases hy.symm.trans hb
        exact ⟨_, hx, hR⟩
    | error => exact .failed hx fun _ => ⟨_, hy⟩

namespace Host

variable {T T' : Type}

/-- The same functions follow each other. -/
theorem functions_follow {n : Type → Type} [Monad n] {τ : Type} [Runs n τ] {host : Host n T}
    {host' : Host n T'} (hf : host.function? = host'.function?) (name : String) :
    FunctionFollows (fun _ => False) (Eq (α := τ)) host host' name := by
  unfold FunctionFollows FunctionCompares
  rw [hf]
  cases host'.function? name with
  | none => exact trivial
  | some f => exact fun values => .same _

variable {host : Host Id T} {host' : Host Id T'} {converse : Prop}

/-- Expressions with the same term have the same value. -/
theorem evaluate_term (hs : host.settings = host'.settings)
    (hf : host.function? = host'.function?) (context : Context) {e e' : Expr}
    (h : e.term = e'.term) :
    Resembles converse Eq (host.evaluate context e) (host'.evaluate context e') :=
  Tracks.resembles (evaluate_moved hs (functions_follow hf) context e (Expr.moved_of_term h)) _

theorem print_term (hs : host.settings = host'.settings)
    (hf : host.function? = host'.function?) (context : Context) {e e' : Expr}
    (h : e.term = e'.term) :
    Resembles converse Eq (host.print context e) (host'.print context e') :=
  Tracks.resembles (print_moved hs (functions_follow hf) context (Expr.moved_of_term h)) _

/-- The clauses of an include pass the same variables. -/
theorem passed_term (hs : host.settings = host'.settings)
    (hf : host.function? = host'.function?) (context : Context) {clauses clauses' : Clauses}
    (h : clauses.options = clauses'.options) :
    Resembles converse Eq (host.passed context clauses.bindings)
      (host'.passed context clauses'.bindings) :=
  Tracks.resembles (passed_moved hs (functions_follow hf) context
    (Expr.moved_of_map_term (congrArg Options.bindings h))) _

end Host

end Stencil
