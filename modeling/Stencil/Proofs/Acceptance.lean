import Stencil.Proofs.Completeness
import Stencil.Proofs.Lowering

/-!
# Which items are assembled without faults

A template is assembled without faults if at most one `extends` tag stands in it, and that at its
top level; if nothing but blocks and blank text stands beside that tag; and if the same holds for the
body of every embed, which has no such tag of its own. This depends on the tokens of a source alone,
not on the places of what stands in it, nor on the name of the template.

Results:
* `Item.assemble_faults`, `Item.assembleAll_faults`: the faults of items inside a body.
* `Item.assembleTop_faults`: the faults of items at the top level.
* `Tree.ofItems_ok_iff`: which items make a tree.
* `Tree.parse_ok_iff`, `Tree.parse_ok_of_name`: which sources do.
-/

namespace Stencil

namespace Form

/-- The expression of an `extends` tag. -/
def extended? : Form → Option Term
  | .«extends» parent => some parent
  | _ => none

/-- Whether something may stand outside blocks in a template that extends another one. -/
def allowedOutside : Form → Bool
  | .block .. => true
  | .text content => Text.allBlank content
  | _ => false

/-- Forms that may all stand outside blocks. -/
def OnlyBlocks (forms : List Form) : Prop := ∀ form ∈ forms, form.allowedOutside = true

mutual

/-- What may stand in a body. -/
def Placed : Form → Prop
  | .block _ body => AllPlaced body
  | .embed _ _ body => AllPlaced body ∧ OnlyBlocks body
  | .«extends» _ => False
  | _ => True

/-- Forms that may all stand in a body. -/
def AllPlaced : List Form → Prop
  | [] => True
  | form :: rest => form.Placed ∧ AllPlaced rest

end

@[simp] theorem allPlaced_nil : AllPlaced [] := by simp only [AllPlaced]

@[simp] theorem allPlaced_cons (form : Form) (rest : List Form) :
    AllPlaced (form :: rest) ↔ form.Placed ∧ AllPlaced rest := by simp only [AllPlaced]

theorem onlyBlocks_cons (form : Form) (rest : List Form) :
    OnlyBlocks (form :: rest) ↔ form.allowedOutside = true ∧ OnlyBlocks rest :=
  List.forall_mem_cons

/-- What stands at the top level of a template beside its `extends` tags. -/
def content (forms : List Form) : List Form := forms.filter (·.extended?.isNone)

/-- The expressions of the `extends` tags at the top level. -/
def extensions (forms : List Form) : List Term := forms.filterMap extended?

/-- Forms that make a template: those at its top level are placed, at most one of them extends
    another template, and then the others are blocks and blank text. -/
structure Accepted (forms : List Form) : Prop where
  placed : AllPlaced (content forms)
  single : (extensions forms).length ≤ 1
  outside : extensions forms ≠ [] → OnlyBlocks (content forms)

end Form

open Form (OnlyBlocks AllPlaced)

/-! ## Assembling -/

/-- Nodes and the items they stand for may stand outside blocks alike. -/
theorem Stands.allowedOutside {name : String} {trees : List Tree} {nodes : List Node}
    {items : List Item} (h : Stands name trees nodes items) :
    (∀ node ∈ nodes, Draft.allowedOutside node = true) ↔ OnlyBlocks (Item.forms items) := by
  unfold OnlyBlocks
  induction h with
  | nil => simp [Item.forms]
  | text _ ih => rw [Item.forms, List.forall_mem_cons, List.forall_mem_cons, ih]; rfl
  | print _ ih => rw [Item.forms, List.forall_mem_cons, List.forall_mem_cons, ih]; rfl
  | block _ _ _ ih =>
    rw [Item.forms, List.forall_mem_cons, List.forall_mem_cons, ih, Item.form]
    rfl
  | «include» _ ih => rw [Item.forms, List.forall_mem_cons, List.forall_mem_cons, ih]; rfl
  | embed _ _ _ _ _ _ ih =>
    rw [Item.forms, List.forall_mem_cons, List.forall_mem_cons, ih, Item.form]
    rfl

/-- A body is free of faults if the draft was and all nodes may stand outside blocks. -/
theorem Draft.checkBody_faults (d : Draft) (body : List Node) :
    (d.checkBody body).faults = [] ↔
      d.faults = [] ∧ ∀ node ∈ body, Draft.allowedOutside node = true := by
  simp [Draft.checkBody, List.filter_eq_nil_iff]

namespace Item

mutual

theorem assemble_faults (name : String) : ∀ (item : Item) (d : Draft),
    (item.assemble name d).2.faults = [] ↔ d.faults = [] ∧ item.form.Placed
  | .text .., d => by simp only [assemble, form, Form.Placed, and_true]
  | .print .., d => by simp only [assemble, form, Form.Placed, and_true]
  | .block span blockName body, d => by
    have hbody := assembleAll_faults name body d
    simpa only [assemble, form, Form.Placed] using hbody
  | .«include» .., d => by simp only [assemble, form, Form.Placed, and_true]
  | .embed span target clauses body, d => by
    have hbody := assembleAll_faults name body d
    simp only [assemble, form, Form.Placed, Draft.checkBody_faults]
    constructor
    · rintro ⟨hfaults, hnodes⟩
      obtain ⟨hd, hplaced⟩ := hbody.1 hfaults
      have hstands := (assembleAll_stands name body d).2.2 hfaults
      exact ⟨hd, hplaced, hstands.allowedOutside.1 hnodes⟩
    · rintro ⟨hd, hplaced, honly⟩
      have hfaults := hbody.2 ⟨hd, hplaced⟩
      have hstands := (assembleAll_stands name body d).2.2 hfaults
      exact ⟨hfaults, hstands.allowedOutside.2 honly⟩
  | .«extends» span _, d => by
    simp [assemble, form, Form.Placed, Draft.report]

theorem assembleAll_faults (name : String) : ∀ (items : List Item) (d : Draft),
    (assembleAll name items d).2.faults = [] ↔ d.faults = [] ∧ AllPlaced (Item.forms items)
  | [], d => by simp [assembleAll, forms]
  | item :: rest, d => by
    have hitem := assemble_faults name item d
    have hrest := assembleAll_faults name rest (item.assemble name d).2
    simp only [assembleAll, forms, Form.allPlaced_cons]
    rw [hrest, hitem, and_assoc]

end

theorem extended?_form (item : Item) : item.form.extended? = item.extended?.map Expr.term := by
  cases item <;> simp only [form, extended?, Form.extended?, Option.map_none, Option.map_some]

theorem content_forms (items : List Item) :
    Form.content (forms items) = forms (items.filter (·.extended?.isNone)) := by
  induction items with
  | nil => simp only [forms, Form.content, List.filter_nil]
  | cons item rest ih =>
    have hform := extended?_form item
    unfold Form.content at ih ⊢
    rw [forms, List.filter_cons, List.filter_cons, hform, Option.isNone_map, ih]
    split <;> simp only [forms]

theorem extensions_forms (items : List Item) :
    Form.extensions (forms items) = (items.filterMap extended?).map Expr.term := by
  induction items with
  | nil => simp only [forms, Form.extensions, List.filterMap_nil, List.map_nil]
  | cons item rest ih =>
    have hform := extended?_form item
    unfold Form.extensions at ih ⊢
    rw [forms, List.filterMap_cons, List.filterMap_cons, hform, ih]
    cases item.extended? <;> rfl

theorem assembleTop_faults (name : String) (parent : Option Expr) (items : List Item) (d : Draft) :
    (assembleTop name parent items d).2.faults = [] ↔
      d.faults = [] ∧ AllPlaced (Form.content (forms items)) ∧
        parent.toList.length + (Form.extensions (forms items)).length ≤ 1 := by
  induction items generalizing parent d with
  | nil => cases parent <;> simp [assembleTop, forms, Form.content, Form.extensions]
  | cons item rest ih =>
    have hform := extended?_form item
    cases hitem : item.extended? with
    | none =>
      rw [hitem] at hform
      have hcontent : Form.content (forms (item :: rest)) =
          item.form :: Form.content (forms rest) := by simp [forms, Form.content, hform]
      have hextensions : Form.extensions (forms (item :: rest)) = Form.extensions (forms rest) := by
        simp [forms, Form.extensions, hform]
      rw [assembleTop_content name parent hitem, hcontent, hextensions, Form.allPlaced_cons]
      rw [ih, assemble_faults, and_assoc, and_assoc]
    | some expr =>
      cases item with
      | «extends» span other =>
        have hcontent : Form.content (forms (.«extends» span other :: rest)) =
            Form.content (forms rest) := by simp [forms, Form.content, form, Form.extended?]
        have hextensions : Form.extensions (forms (.«extends» span other :: rest)) =
            other.term :: Form.extensions (forms rest) := by
          simp [forms, Form.extensions, form, Form.extended?]
        rw [hcontent, hextensions, List.length_cons]
        cases parent with
        | none =>
          simp only [assembleTop, ih, Option.toList, List.length_cons, List.length_nil]
          rw [Nat.zero_add, Nat.zero_add, Nat.add_comm]
        | some first =>
          simp only [assembleTop, ih, Draft.report, Option.toList, List.length_cons]
          simp
      | _ => cases hitem

end Item

namespace Tree

theorem ofItems_ok_iff_faults {name : String} {items : List Item} :
    (∃ tree, Tree.ofItems name items = .ok tree) ↔
      (if (Item.assembleTop name none items {}).1.1.isSome then
        (Item.assembleTop name none items {}).2.checkBody (Item.assembleTop name none items {}).1.2
      else (Item.assembleTop name none items {}).2).faults = [] := by
  have hchoice : ∀ {clean : Bool} {tree : Tree} {faults : List Syntax.Fault},
      (∃ tree', (if clean then Except.ok tree else .error faults) = .ok tree') ↔ clean = true := by
    intro clean tree faults
    cases clean <;> simp
  rw [← List.isEmpty_iff]
  exact hchoice

/-- Items make a tree under any name if they are accepted. -/
theorem ofItems_ok_iff {name : String} {items : List Item} :
    (∃ tree, Tree.ofItems name items = .ok tree) ↔ Form.Accepted (Item.forms items) := by
  have hfaults := Item.assembleTop_faults name none items {}
  obtain ⟨-, -, hparent, hstands⟩ := Item.assembleTop_stands name none items {}
  have hextends : (Item.assembleTop name none items {}).1.1.isSome ↔
      Form.extensions (Item.forms items) ≠ [] := by
    rw [hparent, Option.none_or, ← List.head?_filterMap, List.isSome_head?, Item.extensions_forms]
    exact not_congr List.map_eq_nil_iff.symm
  simp only [Option.toList_none, List.length_nil, Nat.zero_add, true_and] at hfaults
  have hallowed : (Item.assembleTop name none items {}).2.faults = [] →
      ((∀ node ∈ (Item.assembleTop name none items {}).1.2, Draft.allowedOutside node = true) ↔
        OnlyBlocks (Form.content (Item.forms items))) := by
    intro hclean
    rw [Item.content_forms]
    exact (hstands hclean).allowedOutside
  rw [ofItems_ok_iff_faults]
  split
  · next hsome =>
    rw [Draft.checkBody_faults]
    constructor
    · rintro ⟨hclean, hnodes⟩
      obtain ⟨hplaced, hsingle⟩ := hfaults.1 hclean
      have honly := (hallowed hclean).1 hnodes
      exact ⟨hplaced, hsingle, fun _ => honly⟩
    · rintro ⟨hplaced, hsingle, houtside⟩
      have hclean := hfaults.2 ⟨hplaced, hsingle⟩
      have hnodes := (hallowed hclean).2 (houtside (hextends.1 hsome))
      exact ⟨hclean, hnodes⟩
  · next hnone =>
    rw [hfaults]
    constructor
    · rintro ⟨hplaced, hsingle⟩
      exact ⟨hplaced, hsingle, fun h => absurd (hextends.2 h) hnone⟩
    · rintro ⟨hplaced, hsingle, -⟩
      exact ⟨hplaced, hsingle⟩

/-- A source makes a tree under any name if it consists of items that are accepted. -/
theorem parse_ok_iff {name : String} {source : List Char} :
    (∃ tree, Tree.parse name source = .ok tree) ↔
      ∃ items, Syntax.parseItems source = .ok items ∧ Form.Accepted (Item.forms items) := by
  unfold Tree.parse
  cases Syntax.parseItems source with
  | error fault => simp
  | ok items => simp [ofItems_ok_iff]

/-- The name of a template does not matter to whether it makes a tree. -/
theorem parse_ok_of_name {name : String} {source : List Char} {tree : Tree}
    (h : Tree.parse name source = .ok tree) (name' : String) :
    ∃ tree', Tree.parse name' source = .ok tree' :=
  parse_ok_iff.2 (parse_ok_iff.1 ⟨tree, h⟩)

theorem parse_error_of_name {name : String} {source : List Char} {faults : List Syntax.Fault}
    (h : Tree.parse name source = .error faults) (name' : String) :
    ∃ faults', Tree.parse name' source = .error faults' := by
  cases h' : Tree.parse name' source with
  | error faults' => exact ⟨faults', rfl⟩
  | ok tree' =>
    obtain ⟨tree, htree⟩ := parse_ok_of_name h' name
    rw [h] at htree
    cases htree

end Tree

end Stencil
