import Mathlib.Data.List.TakeWhile
import Stencil.Proofs.Lowering

/-!
# The faults of assembled items

Three rules say where tags may stand: a template extends at most one other template, an `extends`
tag stands at the top level, and beside it, as in the body of an embed, only blocks and blank text
do. Assembling checks them at three places of its recursion and goes on after a fault. Here the
rules are read off the items alone, without nodes and without a draft, and a fault is what breaks
one of them.

Specification: `Item.WellFormed` for items that break no rule, `Item.violations` for what breaks
one, with the place and the message.

Results:
* `Item.assembleAll_reported`, `Item.assembleTop_reported`: what the steps of assembling report.
* `Item.wellFormed_iff`: items are well-formed if there are no violations.
* `Tree.ofItems_reports`: the trees and the faults of items.
-/

namespace Stencil

/-! ## Specification -/

/-- A text without the blank characters at both of its ends. -/
def Text.trim (cs : List Char) : List Char := Text.trimEnd (cs.dropWhile Text.isBlank)

namespace Item

/-- Whether an item is an `extends` tag. -/
def isExtends (item : Item) : Bool := item.extended?.isSome

/-- Whether an item may stand beside an `extends` tag, or at the top of the body of an embed. -/
def mayStandOutside : Item → Bool
  | .block .. => true
  | .«extends» .. => true
  | .text _ content => (Text.trim content.toList).isEmpty
  | _ => false

/-- The body of an embed. -/
def embedBody : Item → List Item
  | .embed _ _ _ body => body
  | _ => []

mutual

/-- The items at any depth inside an item. -/
def inside : Item → List Item
  | .block _ _ body => within body
  | .embed _ _ _ body => within body
  | _ => []

/-- The items of a body and those at any depth inside them. -/
def within : List Item → List Item
  | [] => []
  | item :: rest => item :: (inside item ++ within rest)

end

/-- Items that break no rule. -/
structure WellFormed (items : List Item) : Prop where
  /-- There is one `extends` tag at most. -/
  single : (items.filter isExtends).length ≤ 1
  /-- No `extends` tag stands inside a block or an embed. -/
  flat : ∀ item ∈ items, ∀ inner ∈ item.inside, inner.isExtends = false
  /-- The body of an embed holds blocks and blank text. -/
  embeds : ∀ item ∈ within items, ∀ inner ∈ item.embedBody, inner.mayStandOutside = true
  /-- So does a template that extends another one. -/
  root : (∃ item ∈ items, item.isExtends = true) → ∀ item ∈ items, item.mayStandOutside = true

/-- A fault as its place and its message. -/
def reported (message : String) (items : List Item) : List (Span × String) :=
  items.map fun item => (item.span, message)

/-- The `extends` tags at the top level after the first one. -/
def surplus (items : List Item) : List Item := (items.filter isExtends).drop 1

/-- The `extends` tags inside other items. -/
def nested (items : List Item) : List Item := (items.flatMap inside).filter isExtends

/-- The items of a body that may not stand outside blocks. -/
def forbidden (body : List Item) : List Item := body.filter (!mayStandOutside ·)

/-- The items that may not stand where they do in the body of an embed. -/
def misplaced (items : List Item) : List Item := items.flatMap fun item => forbidden item.embedBody

/-- Those that may not stand where they do in a template that extends another one. -/
def beside (items : List Item) : List Item := if items.any isExtends then forbidden items else []

/-- Everything that breaks a rule. -/
def violations (items : List Item) : List (Span × String) :=
  reported "Multiple extends tags are forbidden" (surplus items) ++
    reported "Cannot use extends in a block or an embed" (nested items) ++
    reported "A template that extends another one cannot include content outside blocks"
      (misplaced (within items) ++ beside items)

end Item

/-! ## Blank text -/

theorem Text.trimEnd_eq_nil {cs : List Char} :
    Text.trimEnd cs = [] ↔ cs.all Text.isBlank = true := by
  simp [Text.trimEnd, List.dropWhile_eq_nil_iff]

theorem Text.all_dropWhile_isBlank (cs : List Char) :
    (cs.dropWhile Text.isBlank).all Text.isBlank = cs.all Text.isBlank := by
  induction cs with
  | nil => rfl
  | cons c cs ih =>
    rw [List.dropWhile_cons]
    split
    · next hc => rw [ih, List.all_cons, hc, Bool.true_and]
    · rfl

/-- A text is blank if trimming leaves nothing of it. -/
theorem Text.isEmpty_trim (content : String) :
    (Text.trim content.toList).isEmpty = Text.allBlank content := by
  rw [Bool.eq_iff_iff, List.isEmpty_iff, Text.trim, Text.trimEnd_eq_nil, Text.all_dropWhile_isBlank,
    Text.allBlank]

/-! ## The nodes of a body -/

open Syntax (Fault Cause)

/-- The places and the messages of the faults of a draft. -/
def Draft.reported (d : Draft) : List (Span × String) := d.faults.map fun f => (f.span, f.message)

@[simp] theorem Draft.reported_report (d : Draft) (span : Span) (cause : Cause) :
    (d.report span cause).reported = d.reported ++ [(span, cause.message)] := by
  simp [Draft.reported, Draft.report, Fault.message]

namespace Item

/-- The places of the nodes that may not stand outside blocks. -/
def strays (nodes : List Node) : List Span :=
  (nodes.filter (!Draft.allowedOutside ·)).map Node.span

theorem strays_append (nodes nodes' : List Node) :
    strays (nodes ++ nodes') = strays nodes ++ strays nodes' := by
  simp [strays]

/-- The node of an item has its place, and may stand outside blocks if the item may. -/
theorem assemble_strays (name : String) (item : Item) (d : Draft) :
    strays (item.assemble name d).1.toList = (forbidden [item]).map span := by
  cases item with
  | text place content =>
    have hblank := Text.isEmpty_trim content
    simp only [assemble, Option.toList_some, strays, forbidden, List.filter_singleton,
      Draft.allowedOutside, mayStandOutside, hblank]
    cases Text.allBlank content <;> rfl
  | _ =>
    simp only [assemble]
    rfl

theorem assembleAll_strays (name : String) (items : List Item) (d : Draft) :
    strays (assembleAll name items d).1 = (forbidden items).map span := by
  induction items generalizing d with
  | nil => simp [assembleAll, strays, forbidden]
  | cons item rest ih =>
    have hitem := assemble_strays name item d
    have hsplit : forbidden (item :: rest) = forbidden [item] ++ forbidden rest :=
      List.filter_append [item] rest
    rw [assembleAll, strays_append, hitem, ih, hsplit, List.map_append]

/-- Checking a body reports the nodes that may not stand in it. -/
theorem checkBody_reported (d : Draft) {nodes : List Node} {items : List Item}
    (h : strays nodes = (forbidden items).map span) :
    (d.checkBody nodes).reported =
      d.reported ++ reported Cause.contentOutsideBlocks.message (forbidden items) := by
  have hfaults : (d.checkBody nodes).reported =
      d.reported ++ (strays nodes).map (·, Cause.contentOutsideBlocks.message) := by
    simp [Draft.reported, Draft.checkBody, strays, Fault.message]
  rw [hfaults, h, reported, List.map_map]
  rfl

/-! ## What a body reports -/

theorem reported_append (message : String) (items items' : List Item) :
    reported message (items ++ items') = reported message items ++ reported message items' := by
  simp [reported]

theorem within_append (items items' : List Item) :
    within (items ++ items') = within items ++ within items' := by
  induction items with
  | nil => simp [within]
  | cons item rest ih => simp [within, ih]

/-- What stands in a wrong place among items, all of them in one body. -/
def bodyViolations (items : List Item) : List (Span × String) :=
  reported Cause.nestedExtends.message ((within items).filter isExtends) ++
    reported Cause.contentOutsideBlocks.message (misplaced (within items))

theorem bodyViolations_cons (item : Item) (rest : List Item) :
    (bodyViolations (item :: rest)).Perm (bodyViolations [item] ++ bodyViolations rest) := by
  have hwithin : within (item :: rest) = within [item] ++ within rest := within_append [item] rest
  rw [List.perm_iff_count]
  intro violation
  simp only [bodyViolations, hwithin, misplaced, List.filter_append, List.flatMap_append,
    reported_append, List.count_append]
  omega

theorem bodyViolations_leaf {item : Item} (hinside : item.inside = []) (hbody : item.embedBody = [])
    (hextends : item.isExtends = false) : bodyViolations [item] = [] := by
  simp [bodyViolations, within, hinside, misplaced, hbody, forbidden, hextends, reported]

theorem bodyViolations_extends (place : Span) (parent : Expr) :
    bodyViolations [.«extends» place parent] = [(place, Cause.nestedExtends.message)] := by
  simp only [bodyViolations, within, inside, misplaced]
  rfl

theorem bodyViolations_block (place : Span) (name : String) (body : List Item) :
    bodyViolations [.block place name body] = bodyViolations body := by
  simp [bodyViolations, within, inside, misplaced, forbidden, embedBody, isExtends, extended?]

theorem bodyViolations_embed (place : Span) (target : Expr) (clauses : Clauses) (body : List Item) :
    (bodyViolations [.embed place target clauses body]).Perm
      (bodyViolations body ++ reported Cause.contentOutsideBlocks.message (forbidden body)) := by
  have hwithin : within [.embed place target clauses body] =
      .embed place target clauses body :: within body := by simp [within, inside]
  rw [List.perm_iff_count]
  intro violation
  simp only [bodyViolations, hwithin, misplaced, List.filter_cons, isExtends, extended?,
    Option.isSome_none, Bool.false_eq_true, if_false, List.flatMap_cons, embedBody,
    reported_append, List.count_append]
  omega

mutual

/-- Assembling an item inside a body reports what breaks a rule in it, after what was reported
    before. -/
theorem assemble_reported (name : String) : ∀ (item : Item) (d : Draft),
    (item.assemble name d).2.reported.Perm (d.reported ++ bodyViolations [item])
  | .text .., d => by
    rw [bodyViolations_leaf (by simp only [inside]) rfl rfl, List.append_nil, assemble]
  | .print .., d => by
    rw [bodyViolations_leaf (by simp only [inside]) rfl rfl, List.append_nil, assemble]
  | .block place blockName body, d => by
    have hbody := assembleAll_reported name body d
    rw [bodyViolations_block]
    simpa only [assemble] using hbody
  | .«include» .., d => by
    rw [bodyViolations_leaf (by simp only [inside]) rfl rfl, List.append_nil, assemble]
  | .embed place target clauses body, d => by
    have hbody := assembleAll_reported name body d
    have hcheck := checkBody_reported (assembleAll name body d).2 (assembleAll_strays name body d)
    have hembed := bodyViolations_embed place target clauses body
    have hdraft : (Item.assemble name (.embed place target clauses body) d).2.reported =
        ((assembleAll name body d).2.checkBody (assembleAll name body d).1).reported := by
      simp only [assemble, Draft.reported]
    rw [hdraft, hcheck]
    refine (hbody.append_right _).trans ?_
    rw [List.append_assoc]
    exact hembed.symm.append_left _
  | .«extends» place parent, d => by
    rw [bodyViolations_extends, assemble, Draft.reported_report]

theorem assembleAll_reported (name : String) : ∀ (items : List Item) (d : Draft),
    (assembleAll name items d).2.reported.Perm (d.reported ++ bodyViolations items)
  | [], d => by simp [assembleAll, bodyViolations, within, misplaced, reported]
  | item :: rest, d => by
    have hitem := assemble_reported name item d
    have hrest := assembleAll_reported name rest (item.assemble name d).2
    have hsplit := bodyViolations_cons item rest
    rw [assembleAll]
    refine hrest.trans ((hitem.append_right _).trans ?_)
    rw [List.append_assoc]
    exact hsplit.symm.append_left _

end

/-! ## What the top level reports -/

/-- The violations at the top level, where an `extends` tag stood before if the bound is zero, and
    none did if it is one. -/
def topViolations (bound : Nat) (items : List Item) : List (Span × String) :=
  reported Cause.repeatedExtends.message ((items.filter isExtends).drop bound) ++
    reported Cause.nestedExtends.message (nested items) ++
    reported Cause.contentOutsideBlocks.message (misplaced (within items))

theorem topViolations_content {item : Item} (h : item.extended? = none) (bound : Nat)
    (rest : List Item) :
    (topViolations bound (item :: rest)).Perm
      (bodyViolations [item] ++ topViolations bound rest) := by
  have hextends : item.isExtends = false := by rw [isExtends, h, Option.isSome_none]
  have hwithin : within (item :: rest) = within [item] ++ within rest := within_append [item] rest
  have hitem : (within [item]).filter isExtends = item.inside.filter isExtends := by
    simp [within, hextends]
  rw [List.perm_iff_count]
  intro violation
  simp only [topViolations, bodyViolations, hwithin, hitem, misplaced, nested, List.filter_cons,
    hextends, Bool.false_eq_true, if_false, List.flatMap_cons, List.filter_append,
    List.flatMap_append, reported_append, List.count_append]
  omega

theorem nested_extends (place : Span) (parent : Expr) (rest : List Item) :
    nested (.«extends» place parent :: rest) = nested rest := by
  simp only [nested, List.flatMap_cons, inside, List.nil_append]

theorem misplaced_extends (place : Span) (parent : Expr) (rest : List Item) :
    misplaced (within (.«extends» place parent :: rest)) = misplaced (within rest) := by
  simp only [within, inside, List.nil_append, misplaced, List.flatMap_cons]
  rfl

theorem topViolations_first (place : Span) (parent : Expr) (rest : List Item) :
    topViolations 1 (.«extends» place parent :: rest) = topViolations 0 rest := by
  simp only [topViolations, nested_extends, misplaced_extends]
  rfl

theorem topViolations_next (place : Span) (parent : Expr) (rest : List Item) :
    topViolations 0 (.«extends» place parent :: rest) =
      (place, Cause.repeatedExtends.message) :: topViolations 0 rest := by
  simp only [topViolations, nested_extends, misplaced_extends]
  rfl

/-- Assembling the top level reports what breaks a rule in it, but for the content beside an
    `extends` tag. -/
theorem assembleTop_reported (name : String) (parent : Option Expr) (items : List Item)
    (d : Draft) :
    (assembleTop name parent items d).2.reported.Perm
      (d.reported ++ topViolations (1 - parent.toList.length) items) := by
  induction items generalizing parent d with
  | nil => simp [assembleTop, topViolations, nested, within, misplaced, reported]
  | cons item rest ih =>
    cases hitem : item.extended? with
    | none =>
      have hcontent := topViolations_content hitem (1 - parent.toList.length) rest
      have hreported := assemble_reported name item d
      rw [assembleTop_content name parent hitem]
      refine (ih parent _).trans ((hreported.append_right _).trans ?_)
      rw [List.append_assoc]
      exact hcontent.symm.append_left _
    | some expr =>
      cases item with
      | «extends» place other =>
        cases parent with
        | none =>
          have hrest := ih (some other) d
          rw [assembleTop]
          show List.Perm _ (d.reported ++ topViolations 1 (.«extends» place other :: rest))
          rw [topViolations_first]
          exact hrest
        | some first =>
          have hrest := ih (some first) (d.report place .repeatedExtends)
          rw [assembleTop]
          show List.Perm _ (d.reported ++ topViolations 0 (.«extends» place other :: rest))
          rw [topViolations_next]
          simpa using hrest
      | _ => cases hitem

theorem assembleTop_strays (name : String) (parent : Option Expr) (items : List Item) (d : Draft) :
    strays (assembleTop name parent items d).1.2 = (forbidden items).map span := by
  induction items generalizing parent d with
  | nil => simp [assembleTop, strays, forbidden]
  | cons item rest ih =>
    have hsplit : forbidden (item :: rest) = forbidden [item] ++ forbidden rest :=
      List.filter_append [item] rest
    cases hitem : item.extended? with
    | none =>
      rw [assembleTop_content name parent hitem, strays_append, assemble_strays, ih, hsplit,
        List.map_append]
    | some expr =>
      cases item with
      | «extends» place other =>
        have hnone : forbidden [.«extends» place other] = [] := rfl
        rw [hsplit, hnone, List.nil_append]
        cases parent with
        | none => exact ih (some other) d
        | some first => exact ih (some first) (d.report place .repeatedExtends)
      | _ => cases hitem

/-! ## Well-formed items -/

theorem reported_eq_nil {message : String} {items : List Item} :
    reported message items = [] ↔ items = [] := List.map_eq_nil_iff

theorem forbidden_eq_nil {items : List Item} :
    forbidden items = [] ↔ ∀ item ∈ items, item.mayStandOutside = true := by
  simp [forbidden, List.filter_eq_nil_iff]

/-- Items are well-formed if there are no violations. -/
theorem wellFormed_iff {items : List Item} : WellFormed items ↔ violations items = [] := by
  have hsurplus : surplus items = [] ↔ (items.filter isExtends).length ≤ 1 := List.drop_eq_nil_iff
  have hnested : nested items = [] ↔
      ∀ item ∈ items, ∀ inner ∈ item.inside, inner.isExtends = false := by
    simp only [nested, List.filter_eq_nil_iff, List.mem_flatMap, Bool.not_eq_true]
    constructor
    · intro h item hitem inner hinner
      exact h inner ⟨item, hitem, hinner⟩
    · rintro h inner ⟨item, hitem, hinner⟩
      exact h item hitem inner hinner
  have hmisplaced : misplaced (within items) = [] ↔
      ∀ item ∈ within items, ∀ inner ∈ item.embedBody, inner.mayStandOutside = true := by
    simp only [misplaced, List.flatMap_eq_nil_iff, forbidden_eq_nil]
  have hbeside : beside items = [] ↔
      ((∃ item ∈ items, item.isExtends = true) → ∀ item ∈ items, item.mayStandOutside = true) := by
    rw [← List.any_eq_true, ← forbidden_eq_nil, beside]
    split
    · next h => simp [h]
    · next h => simp [h]
  simp only [violations, List.append_eq_nil_iff, reported_eq_nil, hsurplus, hnested, hmisplaced,
    hbeside]
  constructor
  · intro h
    exact ⟨⟨h.single, h.flat⟩, h.embeds, h.root⟩
  · rintro ⟨⟨hsingle, hflat⟩, hembeds, hroot⟩
    exact ⟨hsingle, hflat, hembeds, hroot⟩

end Item

/-! ## Trees and faults -/

namespace Item

theorem assembleTop_extends (name : String) (items : List Item) :
    (assembleTop name none items {}).1.1.isSome = items.any isExtends := by
  obtain ⟨-, -, hparent, -⟩ := assembleTop_stands name none items {}
  rw [hparent, Option.none_or, List.isSome_findSome?]
  rfl

/-- The draft of a template: what its top level reports, and the content beside an `extends` tag. -/
def checked (name : String) (items : List Item) : Draft :=
  if (assembleTop name none items {}).1.1.isSome then
    (assembleTop name none items {}).2.checkBody (assembleTop name none items {}).1.2
  else (assembleTop name none items {}).2

theorem checked_reported (name : String) (items : List Item) :
    (checked name items).reported.Perm (violations items) := by
  have htop : (assembleTop name none items {}).2.reported.Perm (topViolations 1 items) := by
    simpa [Draft.reported] using assembleTop_reported name none items {}
  have hviolations : violations items =
      topViolations 1 items ++ reported Cause.contentOutsideBlocks.message (beside items) := by
    rw [violations, reported_append, ← List.append_assoc]
    rfl
  rw [hviolations]
  unfold checked beside
  rw [assembleTop_extends]
  split
  · rw [checkBody_reported _ (assembleTop_strays name none items {})]
    exact htop.append_right _
  · simpa [reported] using htop

end Item

namespace Tree

theorem ofItems_checked (name : String) (items : List Item) :
    Tree.ofItems name items =
      if (Item.checked name items).faults.isEmpty then
        .ok ⟨name, (Item.assembleTop name none items {}).1.1,
          (Item.assembleTop name none items {}).1.2, (Item.checked name items).embedded, none⟩
      else .error (Item.checked name items).faults := rfl

/-- Items make a tree if they are well-formed. Otherwise there is one fault for every violation, at
    its place and with the message of its rule. -/
theorem ofItems_reports (name : String) (items : List Item) :
    ((∃ tree, Tree.ofItems name items = .ok tree) ↔ Item.WellFormed items) ∧
      ∀ faults, Tree.ofItems name items = .error faults →
        (faults.map fun fault => (fault.span, fault.message)).Perm (Item.violations items) := by
  have hreported := Item.checked_reported name items
  have hempty : (Item.checked name items).faults.isEmpty = true ↔ Item.violations items = [] := by
    have hlength := hreported.length_eq
    rw [Draft.reported, List.length_map] at hlength
    rw [List.isEmpty_iff, ← List.length_eq_zero_iff, hlength, List.length_eq_zero_iff]
  rw [ofItems_checked, Item.wellFormed_iff, ← hempty]
  split
  · next h => exact ⟨⟨fun _ => h, fun _ => ⟨_, rfl⟩⟩, fun _ hfaults => by cases hfaults⟩
  · next h =>
    refine ⟨⟨fun hok => ?_, fun hok => absurd hok h⟩, fun faults hfaults => ?_⟩
    · obtain ⟨_, hok⟩ := hok
      cases hok
    · cases hfaults
      exact hreported

/-- Items that break every rule: `{% extends a %}{% extends a %}!`, and after it
    `{% block b %}{% embed a %}{% extends a %}!{% endembed %}{% endblock %}`. -/
def crowded : List Item :=
  let base := Expr.name ⟨0, 0⟩ "a"
  [.«extends» ⟨0, 15⟩ base, .«extends» ⟨15, 30⟩ base, .text ⟨30, 31⟩ "!",
    .block ⟨31, 102⟩ "b" [.embed ⟨44, 88⟩ base {} [.«extends» ⟨57, 72⟩ base, .text ⟨72, 73⟩ "!"]]]

/-- The four faults of these items, two of them in the body of the embed. -/
theorem ofItems_reports_crowded :
    ∃ faults, Tree.ofItems "page" crowded = .error faults ∧ ¬ Item.WellFormed crowded ∧
      (faults.map fun fault => (fault.span, fault.message)).Perm
        [(⟨15, 30⟩, "Multiple extends tags are forbidden"),
          (⟨57, 72⟩, "Cannot use extends in a block or an embed"),
          (⟨72, 73⟩,
            "A template that extends another one cannot include content outside blocks"),
          (⟨30, 31⟩,
            "A template that extends another one cannot include content outside blocks")] := by
  obtain ⟨hwellFormed, hfaults⟩ := ofItems_reports "page" crowded
  cases htree : Tree.ofItems "page" crowded with
  | ok tree =>
    have hrule := (hwellFormed.1 ⟨tree, htree⟩).single
    exact absurd hrule (by decide)
  | error faults =>
    refine ⟨faults, rfl, fun h => absurd h.single (by decide), ?_⟩
    exact hfaults faults htree

end Tree

end Stencil
