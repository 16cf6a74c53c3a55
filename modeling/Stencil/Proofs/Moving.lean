import Stencil.Proofs.Swapping
import Stencil.Proofs.Terms

/-!
# Embeds in templates of their own

The body of an embed may move to a template of its own, which an include names in the place of the
embed. The page with the include is alike to the page with the embed: both are rendered to the same
text where the include finds the template that the body moved to.

Results:
* `Item.alike_of_forms`, `Item.alike_of_swap`: items that differ in their places, or in one embed.
* `Page.Alike.merged`, `Item.Alike.ofItems`: pages after the built-in pass.
* `Likeness.moving_sound`: rendering with an embed and with an include.
-/

namespace Stencil

/-- Templates that differ in their places, and in embeds of the one that are includes of the other.
    Such an include names the template of the given page. -/
def Likeness.moving (fresh : String) (page : Page) : Likeness where
  prints expr expr' := expr.term = expr'.term
  parents expr expr' := expr.term = expr'.term
  includes target clauses target' clauses' :=
    target.term = target'.term ∧ clauses.options = clauses'.options
  passes clauses clauses' := clauses.options = clauses'.options
  finds target found := target.term = .constant (.string fresh) ∧ found = page

/-! ## Items by their forms -/

namespace Item

variable {item : Item}

theorem form_eq_text {content : String} (h : item.form = .text content) :
    ∃ span, item = .text span content := by
  cases item <;> simp_all [form]

theorem form_eq_print {expr : Term} (h : item.form = .print expr) :
    ∃ span given, item = .print span given ∧ given.term = expr := by
  cases item <;> simp_all [form]

theorem form_eq_block {name : String} {body : List Form} (h : item.form = .block name body) :
    ∃ span given, item = .block span name given ∧ forms given = body := by
  cases item <;> simp_all [form]

theorem form_eq_include {target : Term} {options : Options}
    (h : item.form = .«include» target options) :
    ∃ span given clauses, item = .«include» span given clauses ∧ given.term = target ∧
      clauses.options = options := by
  cases item <;> simp_all [form]

theorem form_eq_embed {target : Term} {options : Options} {body : List Form}
    (h : item.form = .embed target options body) :
    ∃ span given clauses inner, item = .embed span given clauses inner ∧ given.term = target ∧
      clauses.options = options ∧ forms inner = body := by
  cases item <;> simp_all [form]

theorem form_eq_extends {parent : Term} (h : item.form = .«extends» parent) :
    ∃ span given, item = .«extends» span given ∧ given.term = parent := by
  cases item <;> simp_all [form]

theorem forms_eq_cons {items : List Item} {form : Form} {rest : List Form}
    (h : forms items = form :: rest) :
    ∃ item others, items = item :: others ∧ item.form = form ∧ forms others = rest := by
  cases items with
  | nil => simp [forms] at h
  | cons item others =>
    rw [forms, List.cons.injEq] at h
    exact ⟨item, others, rfl, h⟩

end Item

/-! ## Items that are alike -/

section Alike

variable {fresh : String} {page : Page}

/-- Items that differ in nothing but their places. -/
theorem Item.alike_of_forms : ∀ {items items' : List Item},
    Item.forms items = Item.forms items' → Item.Alike (.moving fresh page) items items'
  | [], items', h => by
    cases items' with
    | nil => exact .nil
    | cons => simp [Item.forms] at h
  | .text .. :: rest, items', h => by
    obtain ⟨item, others, rfl, hitem, hrest⟩ := Item.forms_eq_cons h.symm
    obtain ⟨span, rfl⟩ := Item.form_eq_text hitem
    exact .text (alike_of_forms hrest.symm)
  | .print .. :: rest, items', h => by
    obtain ⟨item, others, rfl, hitem, hrest⟩ := Item.forms_eq_cons h.symm
    obtain ⟨span, given, rfl, hgiven⟩ := Item.form_eq_print hitem
    exact .print hgiven.symm (alike_of_forms hrest.symm)
  | .block _ name body :: rest, items', h => by
    obtain ⟨item, others, rfl, hitem, hrest⟩ := Item.forms_eq_cons h.symm
    obtain ⟨span, given, rfl, hgiven⟩ := Item.form_eq_block hitem
    exact .block (alike_of_forms hgiven.symm) (alike_of_forms hrest.symm)
  | .«include» .. :: rest, items', h => by
    obtain ⟨item, others, rfl, hitem, hrest⟩ := Item.forms_eq_cons h.symm
    obtain ⟨span, given, clauses, rfl, hgiven, hclauses⟩ := Item.form_eq_include hitem
    exact .«include» ⟨hgiven.symm, hclauses.symm⟩ (alike_of_forms hrest.symm)
  | .embed _ target clauses body :: rest, items', h => by
    obtain ⟨item, others, rfl, hitem, hrest⟩ := Item.forms_eq_cons h.symm
    obtain ⟨span, given, clauses, inner, rfl, hgiven, hclauses, hinner⟩ := Item.form_eq_embed hitem
    exact .embed hgiven.symm hclauses.symm (alike_of_forms hinner.symm) (alike_of_forms hrest.symm)
  | .«extends» .. :: rest, items', h => by
    obtain ⟨item, others, rfl, hitem, hrest⟩ := Item.forms_eq_cons h.symm
    obtain ⟨span, given, rfl, hgiven⟩ := Item.form_eq_extends hitem
    exact .«extends» hgiven.symm (alike_of_forms hrest.symm)

/-- Items with an embed, and those with an include in its place. -/
theorem Item.alike_of_swap {target : Term} {options : Options} {body forms forms' : List Form}
    (h : Form.Swap (.embed target options body) (.«include» (.constant (.string fresh)) options)
      forms forms') {parent : Expr} (hparent : page.parent = some parent)
    (htarget : parent.term = target)
    (hbody : ∀ items, Item.forms items = body → Item.Alike (.moving fresh page) items page.body)
    {items items' : List Item} (hitems : Item.forms items = forms)
    (hitems' : Item.forms items' = forms') : Item.Alike (.moving fresh page) items items' := by
  induction h generalizing items items' with
  | here rest =>
    obtain ⟨item, others, rfl, hitem, hrest⟩ := Item.forms_eq_cons hitems
    obtain ⟨item', others', rfl, hitem', hrest'⟩ := Item.forms_eq_cons hitems'
    obtain ⟨span, given, clauses, inner, rfl, hgiven, hclauses, hinner⟩ := Item.form_eq_embed hitem
    obtain ⟨span', named, clauses', rfl, hnamed, hclauses'⟩ := Item.form_eq_include hitem'
    have hfinds : (Likeness.moving fresh page).finds named page := ⟨hnamed, rfl⟩
    exact .moved hfinds hparent (hgiven.trans htarget.symm) (hclauses.trans hclauses'.symm)
      (hbody inner hinner) (Item.alike_of_forms (hrest.trans hrest'.symm))
  | later form _ ih =>
    obtain ⟨item, others, rfl, hitem, hrest⟩ := Item.forms_eq_cons hitems
    obtain ⟨item', others', rfl, hitem', hrest'⟩ := Item.forms_eq_cons hitems'
    have hfirst : Item.forms [item] = Item.forms [item'] := by
      simp only [Item.forms, hitem, hitem']
    exact (Item.alike_of_forms hfirst).append (ih hrest hrest')
  | inside o rest _ ih =>
    obtain ⟨item, others, rfl, hitem, hrest⟩ := Item.forms_eq_cons hitems
    obtain ⟨item', others', rfl, hitem', hrest'⟩ := Item.forms_eq_cons hitems'
    have hothers : Item.Alike (.moving fresh page) others others' :=
      Item.alike_of_forms (hrest.trans hrest'.symm)
    cases o with
    | block name =>
      obtain ⟨span, inner, rfl, hinner⟩ := Item.form_eq_block hitem
      obtain ⟨span', inner', rfl, hinner'⟩ := Item.form_eq_block hitem'
      exact .block (ih hinner hinner') hothers
    | embed other options =>
      obtain ⟨span, given, clauses, inner, rfl, hgiven, hclauses, hinner⟩ :=
        Item.form_eq_embed hitem
      obtain ⟨span', given', clauses', inner', rfl, hgiven', hclauses', hinner'⟩ :=
        Item.form_eq_embed hitem'
      exact .embed (hgiven.trans hgiven'.symm) (hclauses.trans hclauses'.symm) (ih hinner hinner')
        hothers

/-! ## Pages that are alike -/

/-- Joining the texts of bodies that are alike. -/
theorem Item.Alike.mergeText {r : Likeness} {items items' : List Item}
    (h : Item.Alike r items items') :
    Item.Alike r (Item.mergeText items) (Item.mergeText items') := by
  induction h with
  | nil => exact .nil
  | @text span span' content items items' _ ih =>
    simp only [Item.mergeText]
    split
    · exact ih
    · revert ih
      generalize Item.mergeText items = merged
      generalize Item.mergeText items' = merged'
      intro ih
      cases ih with
      | text h => exact .text h
      | nil => exact .text .nil
      | print hexpr h => exact .text (.print hexpr h)
      | block hbody h => exact .text (.block hbody h)
      | «include» hincludes h => exact .text (.«include» hincludes h)
      | «extends» hparents h => exact .text (.«extends» hparents h)
      | embed hparents hpasses hbody h => exact .text (.embed hparents hpasses hbody h)
      | moved hfinds hpage hparents hpasses hbody h =>
        exact .text (.moved hfinds hpage hparents hpasses hbody h)
  | print hexpr _ ih => exact .print hexpr ih
  | block hbody _ _ ih => exact .block hbody ih
  | «include» hincludes _ ih => exact .«include» hincludes ih
  | «extends» hparents _ ih => exact .«extends» hparents ih
  | embed hparents hpasses hbody _ _ ih => exact .embed hparents hpasses hbody ih
  | moved hfinds hpage hparents hpasses hbody _ _ ih =>
    exact .moved hfinds hpage hparents hpasses hbody ih

/-- The built-in pass, which changes the page of the moved embed as well. -/
theorem Item.Alike.merged {items items' : List Item}
    (h : Item.Alike (.moving fresh page) items items') :
    Item.Alike (.moving fresh page.merged) (Item.mergedAll items) (Item.mergedAll items') := by
  induction h with
  | nil => exact .nil
  | text _ ih => exact .text ih
  | print hexpr _ ih => exact .print hexpr ih
  | block _ _ ihBody ih => exact .block ihBody.mergeText ih
  | «include» hincludes _ ih => exact .«include» hincludes ih
  | «extends» hparents _ ih => exact .«extends» hparents ih
  | embed hparents hpasses _ _ ihBody ih => exact .embed hparents hpasses ihBody.mergeText ih
  | @moved _ _ _ _ target _ _ found _ _ _ hfinds hpage hparents hpasses _ _ ihBody ih =>
    obtain ⟨hname, rfl⟩ := hfinds
    have hfinds : (Likeness.moving fresh found.merged).finds target found.merged := ⟨hname, rfl⟩
    exact .moved hfinds hpage hparents hpasses ihBody.mergeText ih

theorem Page.Alike.merged {page₁ page₂ : Page} (h : page₁.Alike (.moving fresh page) page₂) :
    page₁.merged.Alike (.moving fresh page.merged) page₂.merged :=
  ⟨h.parent, h.body.merged.mergeText⟩

/-- Pages of items that are alike. -/
theorem Item.Alike.ofItems {r : Likeness} {items items' : List Item}
    (h : Item.Alike r items items') (name name' : String) :
    Page.Alike r (Page.ofItems name items) (Page.ofItems name' items') := by
  unfold Page.ofItems
  suffices hboth : Option.Rel r.parents (items.findSome? Item.extended?)
      (items'.findSome? Item.extended?) ∧
    Item.Alike r (items.filter (·.extended?.isNone)) (items'.filter (·.extended?.isNone)) from
    ⟨hboth.1, hboth.2⟩
  induction h with
  | nil => exact ⟨.none, .nil⟩
  | text _ ih => exact ⟨ih.1, .text ih.2⟩
  | print hexpr _ ih => exact ⟨ih.1, .print hexpr ih.2⟩
  | block hbody _ _ ih => exact ⟨ih.1, .block hbody ih.2⟩
  | «include» hincludes _ ih => exact ⟨ih.1, .«include» hincludes ih.2⟩
  | «extends» hparents _ ih => exact ⟨.some hparents, ih.2⟩
  | embed hparents hpasses hbody _ _ ih => exact ⟨ih.1, .embed hparents hpasses hbody ih.2⟩
  | moved hfinds hpage hparents hpasses hbody _ _ ih =>
    exact ⟨ih.1, .moved hfinds hpage hparents hpasses hbody ih.2⟩

end Alike

/-! ## Rendering -/

namespace Likeness

variable {fresh : String} {page : Page} {host host' : Host Id Page}

section Finding

variable (hs : host.settings = host'.settings) (hf : host.function? = host'.function?)
  (hhas : host.has = host'.has)
  (hload : ∀ name, Found True (Page.Alike (.moving fresh page)) (host.load name) (host'.load name))

include hhas hload

theorem find_moving (names : List String) :
    Found True (Page.Alike (.moving fresh page)) (host.find names).run (host'.find names).run := by
  have hfound : Found True (Page.Alike (.moving fresh page)) (host.find (names.map id)).run
      (host'.find names).run :=
    Host.find_found (fun name _ => congrFun hhas name) fun name _ _ => hload name
  rwa [List.map_id] at hfound

theorem resolve_moving (value : Value) (span span' : Span) :
    Found True (Page.Alike (.moving fresh page)) (host.resolve value span).run
      (host'.resolve value span').run := by
  cases hnames : Host.candidates value with
  | ok names =>
    rw [Host.resolve_of_candidates _ hnames, Host.resolve_of_candidates _ hnames]
    exact find_moving hhas hload names
  | error misfit =>
    rw [Host.resolve_of_misfit _ hnames, Host.resolve_of_misfit _ hnames]
    exact .failed nofun fun _ => ⟨_, rfl, nofun⟩

include hs hf

theorem parent_moving {e e' : Expr} (h : e.term = e'.term) (context : Context) :
    Resembles True (Page.Alike (.moving fresh page)) (host.parent context e)
      (host'.parent context e') := by
  refine (Host.evaluate_term hs hf context h).bind ?_
  rintro value _ rfl
  exact (resolve_moving hhas hload value e.span e'.span).resembles

theorem included_moving {e e' : Expr} (h : e.term = e'.term) (context : Context)
    (ignoreMissing : Bool) :
    Resembles True (Option.Rel (Page.Alike (.moving fresh page)))
      (host.included? context ignoreMissing e) (host'.included? context ignoreMissing e') := by
  refine (Host.evaluate_term hs hf context h).bind ?_
  rintro value _ rfl
  exact (resolve_moving hhas hload value e.span e'.span).optional ignoreMissing

end Finding

/-- An include of a template by its name finds it if it is there. -/
theorem included_fresh (hthere : host.has fresh = true) (hpage : host.load fresh = .ok page)
    {target : Expr} (htarget : target.term = .constant (.string fresh)) (context : Context)
    (ignoreMissing : Bool) :
    host.included? context ignoreMissing target = pure (some page) := by
  obtain ⟨span, rfl⟩ := Expr.term_eq_constant htarget
  have hfirst : host.firstOf [fresh] = some fresh := by
    rw [Host.firstOf_cons, hthere]
    rfl
  have hfind : host.find [fresh] = pure page :=
    (Host.find_of_firstOf_some hfirst).trans hpage
  have hresolve : host.resolve (.string fresh) (Expr.constant span (.string fresh)).span =
      pure page := (Host.resolve_of_candidates _ rfl _).trans hfind
  rw [Host.included?, Host.evaluate_constant, pure_bind, hresolve]
  rfl

/-- Hosts with the same functions, and with templates that are alike. -/
theorem moving_sound (hs : host.settings = host'.settings)
    (hf : host.function? = host'.function?) (hhas : host.has = host'.has)
    (hload : ∀ name,
      Found True (Page.Alike (.moving fresh page)) (host.load name) (host'.load name))
    (hthere : host'.has fresh = true) (hpage : host'.load fresh = .ok page) :
    (Likeness.moving fresh page).Sound True host host' where
  maxDepth := congrArg Settings.maxDepth hs
  prints h context := Host.print_term hs hf context h
  parents h context := parent_moving hs hf hhas hload h context
  includes := by
    rintro target clauses target' clauses' ⟨htarget, hclauses⟩ render render' hrender context
    have hignore : clauses.ignoreMissing = clauses'.ignoreMissing :=
      congrArg Options.ignoreMissing hclauses
    have honly : clauses.only = clauses'.only := congrArg Options.only hclauses
    have hincluded : Resembles True (Option.Rel (Page.Alike (.moving fresh page)))
        (host.included? context clauses.ignoreMissing target)
        (host'.included? context clauses'.ignoreMissing target') := by
      rw [← hignore]
      exact included_moving hs hf hhas hload htarget context clauses.ignoreMissing
    refine Page.insert_resembles hincluded ?_
    intro found found' hfound
    refine (Host.passed_term hs hf context hclauses).bind ?_
    rintro bindings _ rfl
    rw [honly]
    exact hrender found found' hfound _
  passes h := ⟨congrArg Options.only h, fun context => Host.passed_term hs hf context h⟩
  finds := by
    rintro target found ⟨htarget, rfl⟩ context ignoreMissing
    exact included_fresh hthere hpage htarget context ignoreMissing

end Likeness

end Stencil
