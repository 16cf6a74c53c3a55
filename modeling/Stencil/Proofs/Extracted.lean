import Stencil.Proofs.Extraction
import Stencil.Proofs.Moving
import Stencil.Proofs.Sparing

/-!
# Embeds as includes

An embed is an include of a template that has no name of its own. If such a template gets a name,
and the embed becomes an include of that name, then nothing changes in what any template renders to,
as long as the name is not asked for by anything else.

Results:
* `Extraction.page_alike`: the pages of the source with the embed and of the one with the include.
* `Extraction.loadPage_found`: what engines load that have the one source or the other.
* `Extraction.embeds_as_includes`: acceptance and rendering.
-/

namespace Stencil

/-- A loader with one more source, in the place of any other one of that name. -/
def Loader.adding (store : Loader Id) (name : String) (source : List Char) : Loader Id where
  source other := if other = name then .ok (String.ofList source) else store.source other
  has other := if other = name then true else store.has other

namespace Loader

variable (store : Loader Id) (name : String) (source : List Char)

theorem adding_self : (store.adding name source).source name = .ok (String.ofList source) :=
  if_pos rfl

theorem adding_of_ne {other : String} (h : other ≠ name) :
    (store.adding name source).source other = store.source other := if_neg h

theorem adding_has : (store.adding name source).has name = true := if_pos rfl

theorem agreeOff_adding : AgreeOff name store (store.adding name source) := by
  intro other hother
  exact ⟨(if_neg hother).symm, (if_neg hother).symm⟩

end Loader

/-! ## Pages -/

theorem Page.ofSource_of_items {source : List Char} {items : List Item}
    (h : Syntax.parseItems source = .ok items) (name : String) :
    Page.ofSource false name (String.ofList source) = (Page.ofItems name items).merged := by
  unfold Page.ofSource
  rw [String.toList_ofList, h]
  rfl

/-- A page is alike to itself. -/
theorem Page.Alike.refl {fresh : String} {page : Page} (other : Page) :
    other.Alike (.moving fresh page) other where
  parent := by
    cases other.parent with
    | none => exact .none
    | some parent =>
      have hsame : (Likeness.moving fresh page).parents parent parent := rfl
      exact .some hsame
  body := Item.alike_of_forms rfl

namespace Extraction

variable (x : Extraction)

/-- The page of the new template. -/
def page : Page := Page.ofSource false x.fresh (String.ofList x.child)

variable {x}

/-- The items of the new template: its parent, and the body of the embed. -/
theorem ofItems_child {items : List Item} {body : List Form}
    (h : Item.forms items = .«extends» x.target :: body) (hplaced : Form.AllPlaced body)
    (name : String) :
    (∃ parent, (Page.ofItems name items).parent = some parent ∧ parent.term = x.target) ∧
      Item.forms (Page.ofItems name items).body = body := by
  obtain ⟨item, others, rfl, hitem, rfl⟩ := Item.forms_eq_cons h
  obtain ⟨span, parent, rfl, hparent⟩ := Item.form_eq_extends hitem
  refine ⟨⟨parent, rfl, hparent⟩, ?_⟩
  change Item.forms (others.filter (·.extended?.isNone)) = _
  rw [← Item.content_forms]
  exact (Form.content_of_placed hplaced).1

/-- The page with the embed is alike to the one with the include. -/
theorem page_alike {name : String} (h : ∃ tree, Tree.parse name x.source = .ok tree) :
    (Page.ofSource false name (String.ofList x.source)).Alike (.moving x.fresh x.page)
      (Page.ofSource false name (String.ofList x.including)) := by
  obtain ⟨items, hitems, haccepted⟩ := Tree.parse_ok_iff.1 h
  obtain ⟨body, forms', hbody, hforms', hswap⟩ :=
    split (Syntax.standsFor_iff.2 ⟨items, hitems, rfl⟩)
  obtain ⟨items', hitems', rfl⟩ := Syntax.standsFor_iff.1 hforms'
  obtain ⟨moved, hmoved, hforms⟩ :=
    Syntax.standsFor_iff.1 (standsFor_child.2 ⟨body, hbody, rfl⟩)
  have hplaced : Form.AllPlaced body :=
    (Form.accepted_extends.1 ((hswap.accepted x.target).1 haccepted).2).1
  obtain ⟨⟨parent, hparent, htarget⟩, hmovedBody⟩ := ofItems_child hforms hplaced x.fresh
  have halike : Item.Alike (.moving x.fresh (Page.ofItems x.fresh moved)) items items' :=
    Item.alike_of_swap hswap hparent htarget
      (fun inner hinner => Item.alike_of_forms (hinner.trans hmovedBody.symm)) rfl rfl
  rw [page, Page.ofSource_of_items hitems, Page.ofSource_of_items hitems',
    Page.ofSource_of_items hmoved]
  exact (halike.ofItems name name).merged

end Extraction

/-! ## Loading -/

namespace Engine

variable {store store' : Loader Id} {settings : Settings} {functions : Dict (Function Id)}
  {patience : Nat} {name : String}

theorem loadPage_of_tree {source : List Char}
    (hsource : store.source name = .ok (String.ofList source))
    (htree : ∃ tree, Tree.parse name source = .ok tree) :
    ((ofFunctions store settings functions patience : Engine Id).loadPage false name).run =
      .ok (Page.ofSource false name (String.ofList source)) := by
  obtain ⟨tree, htree⟩ := htree
  have hload :=
    loadPage_of_source (ofFunctions_passes store settings functions patience) rfl hsource
  rw [String.toList_ofList, htree] at hload
  obtain ⟨-, hpage⟩ | ⟨hrefused, -⟩ := hload
  · exact hpage
  · exact (hrefused nofun).elim

/-- A source that makes a tree is rendered as its page is. -/
theorem run_renderSourceUncached {source : List Char}
    (htree : ∃ tree, Tree.parse name source = .ok tree) (context : Context) :
    ((ofFunctions store settings functions patience : Engine Id).renderSourceUncached false name
        (String.ofList source) context).run =
      (Page.render ((ofFunctions store settings functions patience : Engine Id).pages false)
        patience (Page.ofSource false name (String.ofList source)) context).run := by
  obtain ⟨tree, htree⟩ := htree
  rw [← String.toList_ofList (l := source)] at htree
  obtain ⟨hrefused, -⟩ | ⟨-, hrun⟩ := renderSourceUncached_of_tree
    (ofFunctions_passes store settings functions patience) htree context
  · exact (hrefused nofun).elim
  · exact hrun

/-- Engines load the same page of a source that both of their loaders give. -/
theorem loadPage_same (hsource : store.source name = store'.source name) :
    ((ofFunctions store settings functions patience : Engine Id).loadPage false name).run =
      ((ofFunctions store' settings functions patience : Engine Id).loadPage false name).run := by
  simp only [loadPage, ofFunctions, Loader.lift, hsource]
  rfl

/-- A search that ends like another one finds pages that are alike. -/
theorem found_same {fresh : String} {page : Page} (result : Except Failure Page) :
    Found True (Page.Alike (.moving fresh page)) result result := by
  cases result with
  | ok other => exact .found (.refl other)
  | error failure =>
    cases failure with
    | templateNotFound missing => exact .missing missing missing
    | _ => exact .failed nofun fun _ => ⟨_, rfl, nofun⟩

theorem renders_iff_uncached {output : String} {context : Context} :
    (ofFunctions store settings functions patience).Renders name context output ↔
      ((ofFunctions store settings functions patience : Engine Id).renderUncached false name
        context).run = .ok output := by
  obtain ⟨cache, hrun⟩ :=
    render_uncached (ofFunctions_passes store settings functions patience) name context
  rw [renders_iff, hrun]

end Engine

/-! ## Rendering -/

namespace Extraction

open Engine

variable (x : Extraction) (store : Loader Id) (name : String)

/-- The store with the embed. -/
def embeddingStore : Loader Id := store.adding name x.source

/-- The store with the include and the new template. -/
def includingStore : Loader Id := (store.adding name x.including).adding x.fresh x.child

variable {x store name} {settings : Settings} {functions : Dict (Function Id)} {patience : Nat}

/-- Where both stores have the new template, their engines load pages that are alike. -/
theorem loadPage_found (h : ∃ tree, Tree.parse name x.source = .ok tree) (other : String) :
    Found True (Page.Alike (.moving x.fresh x.page))
      ((ofFunctions ((x.embeddingStore store name).adding x.fresh x.child) settings functions
        patience : Engine Id).loadPage false other).run
      ((ofFunctions (x.includingStore store name) settings functions patience :
        Engine Id).loadPage false other).run := by
  by_cases hname : other = name ∧ other ≠ x.fresh
  · obtain ⟨rfl, hfresh⟩ := hname
    have hleft : ((x.embeddingStore store other).adding x.fresh x.child).source other =
        .ok (String.ofList x.source) :=
      (Loader.adding_of_ne _ _ _ hfresh).trans (Loader.adding_self ..)
    have hright : (x.includingStore store other).source other = .ok (String.ofList x.including) :=
      (Loader.adding_of_ne _ _ _ hfresh).trans (Loader.adding_self ..)
    rw [loadPage_of_tree hleft h, loadPage_of_tree hright ((x.parse_ok_iff other).1 h).1]
    exact .found (page_alike h)
  · have hsource : ((x.embeddingStore store name).adding x.fresh x.child).source other =
        (x.includingStore store name).source other := by
      by_cases hfresh : other = x.fresh
      · subst hfresh
        exact (Loader.adding_self ..).trans (Loader.adding_self ..).symm
      · have hother : other ≠ name := fun heq => hname ⟨heq, hfresh⟩
        simp only [embeddingStore, includingStore, Loader.adding_of_ne _ _ _ hfresh,
          Loader.adding_of_ne _ _ _ hother]
    rw [loadPage_same hsource]
    exact found_same _

/-- Where both stores have the new template, templates render alike. -/
theorem renders_iff_including (h : ∃ tree, Tree.parse name x.source = .ok tree) (rendered : String)
    (context : Context) (output : String) :
    (ofFunctions ((x.embeddingStore store name).adding x.fresh x.child) settings functions
        patience).Renders rendered context output ↔
      (ofFunctions (x.includingStore store name) settings functions patience).Renders rendered
        context output := by
  have hchild : ((ofFunctions (x.includingStore store name) settings functions patience :
      Engine Id).loadPage false x.fresh).run = .ok x.page :=
    loadPage_of_tree (Loader.adding_self ..) ((x.parse_ok_iff name).1 h).2
  have hthere : (decide (x.fresh = rendered) ||
      Id.run ((x.includingStore store name).has x.fresh)) = true := by
    rw [includingStore, Loader.adding_has]
    exact Bool.or_true _
  have hsound : (Likeness.moving x.fresh x.page).Sound True
      ((ofFunctions ((x.embeddingStore store name).adding x.fresh x.child) settings functions
        patience : Engine Id).uncached false fun other => other = rendered ||
          Id.run ((x.includingStore store name).has other))
      ((ofFunctions (x.includingStore store name) settings functions patience :
        Engine Id).uncached false fun other => other = rendered ||
          Id.run ((x.includingStore store name).has other)) :=
    Likeness.moving_sound rfl rfl rfl (loadPage_found h) hthere hchild
  have hresembles : Resembles True Eq
      ((ofFunctions ((x.embeddingStore store name).adding x.fresh x.child) settings functions
        patience : Engine Id).renderUncached false rendered context)
      ((ofFunctions (x.includingStore store name) settings functions patience :
        Engine Id).renderUncached false rendered context) := by
    refine (loadPage_found h rendered).resembles.bind ?_
    intro page page' halike
    exact Page.render_resembles hsound patience halike context
  rw [renders_iff_uncached, renders_iff_uncached]
  exact hresembles.run_eq_iff output

/-- Where a store has the new template, the source with the embed renders like the one with the
    include. -/
theorem rendersSource_iff_including (h : ∃ tree, Tree.parse name x.source = .ok tree)
    (context : Context) (output : String) :
    (ofFunctions (store.adding x.fresh x.child) settings functions patience).RendersSource name
        (String.ofList x.source) context output ↔
      (ofFunctions (store.adding x.fresh x.child) settings functions patience).RendersSource name
        (String.ofList x.including) context output := by
  have hboth := (x.parse_ok_iff name).1 h
  have hchild : ((ofFunctions (store.adding x.fresh x.child) settings functions patience :
      Engine Id).loadPage false x.fresh).run = .ok x.page :=
    loadPage_of_tree (Loader.adding_self ..) hboth.2
  have hsound : (Likeness.moving x.fresh x.page).Sound True
      ((ofFunctions (store.adding x.fresh x.child) settings functions patience :
        Engine Id).pages false)
      ((ofFunctions (store.adding x.fresh x.child) settings functions patience :
        Engine Id).pages false) :=
    Likeness.moving_sound rfl rfl rfl (fun _ => found_same _)
      (Loader.adding_has store x.fresh x.child) hchild
  have hresembles := Page.render_resembles hsound patience (page_alike h) context
  rw [rendersSource_iff_uncached (ofFunctions_passes _ settings functions patience),
    rendersSource_iff_uncached (ofFunctions_passes _ settings functions patience),
    run_renderSourceUncached h, run_renderSourceUncached hboth.1]
  exact hresembles.run_eq_iff output

variable (x)

/-- An embed is an include of a template without a name. A source with an embed is accepted exactly
    if the source with an include in its place and the source of the new template are. If it is
    accepted, every template that does not ask for the name of the new one renders to the same text
    with the embed and with the include, and so does the source itself. So it is with any
    patience. -/
theorem embeds_as_includes (name : String) :
    ((∃ tree, Tree.parse name x.source = .ok tree) ↔
      (∃ tree, Tree.parse name x.including = .ok tree) ∧
        ∃ tree, Tree.parse x.fresh x.child = .ok tree) ∧
    ((∃ tree, Tree.parse name x.source = .ok tree) →
      ∀ (store : Loader Id) (settings : Settings) (functions : Dict (Function Id))
        (patience : Nat) (context : Context) (output : String),
        (∀ rendered,
          Spares (x.embeddingStore store name) settings functions patience rendered context
            x.fresh →
          ((ofFunctions (x.embeddingStore store name) settings functions patience).Renders rendered
              context output ↔
            (ofFunctions (x.includingStore store name) settings functions patience).Renders rendered
              context output)) ∧
        (SparesSource store settings functions patience name (String.ofList x.source) context
            x.fresh →
          ((ofFunctions store settings functions patience).RendersSource name
              (String.ofList x.source) context output ↔
            (ofFunctions (store.adding x.fresh x.child) settings functions patience).RendersSource
              name (String.ofList x.including) context output))) := by
  refine ⟨x.parse_ok_iff name, fun h store settings functions patience context output =>
    ⟨fun rendered hspares => ?_, fun hspares => ?_⟩⟩
  · have hagree : Loader.AgreeOff x.fresh (x.embeddingStore store name)
        ((x.embeddingStore store name).adding x.fresh x.child) :=
      Loader.agreeOff_adding (x.embeddingStore store name) x.fresh x.child
    rw [renders_iff_of_agree hagree hspares output]
    exact renders_iff_including h rendered context output
  · have hagree : Loader.AgreeOff x.fresh store (store.adding x.fresh x.child) :=
      Loader.agreeOff_adding store x.fresh x.child
    rw [rendersSource_iff_of_agree hagree hspares output]
    exact rendersSource_iff_including h context output

/-- An embed in a block of another one, with an embed in its own body. -/
def nested : Extraction where
  front := (tag "embed 'box'" ++ tag "block in" ++ "(").toList
  embedTag := "embed shape with \x7b'shape': 'box', 'x': y\x7d only".toList
  body := (tag "block in" ++ "\x7b\x7bx\x7d\x7d" ++ tag "embed 'box'" ++ tag "endembed" ++
    tag "endblock").toList
  endTag := "endembed".toList
  back := (")" ++ tag "endblock" ++ tag "endembed").toList
  includeTag := "include 'new' with \x7b'shape': 'box', 'x': y\x7d only".toList
  extendsTag := "extends shape".toList
  fresh := "new"
  target := .name "shape"
  options := ⟨false, some (.mapping [("shape", .constant (.string "box")), ("x", .name "y")]), true⟩
  targetTokens := [.ident "shape"]
  clauseTokens := [.keyword .«with», .mark .braceOpen, .string "shape", .mark .colon,
    .string "box", .mark .comma, .string "x", .mark .colon, .ident "y", .mark .braceClose,
    .keyword .only]
  isTarget := .operand (.atom (.name "shape"))
  areClauses := by
    have hy : Grammar.Expression [.ident "y"] (.name "y") := .operand (.atom (.name "y"))
    have hbox : Grammar.Expression [.string "box"] (.constant (.string "box")) :=
      .operand (.atom (.literal (.string "box")))
    have hmapping := Grammar.Atom.mapping (.comma (.string "shape") hbox (.last (.string "x") hy))
    have hbindings := Grammar.Bindings.present (.operand (.atom hmapping))
    exact @Grammar.Clauses.intro [] _ _ ⟨false, _, true⟩ .absent hbindings .present
  embeds := ⟨by decide +kernel, by decide +kernel⟩
  ends := ⟨by decide +kernel, by decide +kernel⟩
  includes := ⟨by decide +kernel, by decide +kernel⟩
  extending := ⟨by decide +kernel, by decide +kernel⟩
  frontComplete := by decide +kernel
  bodyComplete := by decide +kernel
  balanced := by decide +kernel

/-- A template with a block. -/
def boxes : Loader Id :=
  Loader.memory [("box", "[" ++ tag "block in" ++ "-" ++ tag "endblock" ++ "]")]

theorem embeds_as_includes_nested :
    ((ofFunctions (nested.embeddingStore boxes "page") {} [] 0).Renders "page" [("y", .string "a")]
        "[([a[-]])]" ∧
      (ofFunctions (nested.includingStore boxes "page") {} [] 0).Renders "page" [("y", .string "a")]
        "[([a[-]])]") ∧
    (ofFunctions boxes {} [] 0).RendersSource "page" (String.ofList nested.source)
        [("y", .string "a")] "[([a[-]])]" ∧
      (ofFunctions (boxes.adding "new" nested.child) {} [] 0).RendersSource "page"
        (String.ofList nested.including) [("y", .string "a")] "[([a[-]])]" := by
  have hparse : ∃ tree, Tree.parse "page" nested.source = .ok tree := by
    have hok : (Tree.parse "page" nested.source).toOption.isSome = true := by decide +kernel
    cases htree : Tree.parse "page" nested.source with
    | ok tree => exact ⟨tree, rfl⟩
    | error faults =>
      rw [htree] at hok
      cases hok
  have hloaded : (((hushed (nested.embeddingStore boxes "page") {} [] 0 nested.fresh).render "page"
      [("y", .string "a")]).run []).map Prod.fst = some (.ok "[([a[-]])]") := by decide +kernel
  have hgiven : (((hushed boxes {} [] 0 nested.fresh).renderSource "page"
      (String.ofList nested.source) [("y", .string "a")]).run.run []).map Prod.fst =
        some (.ok "[([a[-]])]") := by decide +kernel
  obtain ⟨⟨_, cache⟩, hloaded, rfl⟩ := Option.map_eq_some_iff.1 hloaded
  obtain ⟨⟨_, cache'⟩, hgiven, rfl⟩ := Option.map_eq_some_iff.1 hgiven
  have hspares : Spares (nested.embeddingStore boxes "page") {} [] 0 "page" [("y", .string "a")]
      nested.fresh := Option.isSome_iff_exists.2 ⟨_, hloaded⟩
  have hsparesSource : SparesSource boxes {} [] 0 "page" (String.ofList nested.source)
      [("y", .string "a")] nested.fresh := Option.isSome_iff_exists.2 ⟨_, hgiven⟩
  have hembedding := renders_iff.2 (render_of_hushed (.refl _ _) hloaded)
  have hsource := rendersSource_iff.2
    (result_of_hushed (renderSource_follows_hushed (.refl _ _) _ _ _) hgiven)
  obtain ⟨hbyName, hbySource⟩ := (embeds_as_includes nested "page").2 hparse boxes {} [] 0
    [("y", .string "a")] "[([a[-]])]"
  exact ⟨⟨hembedding, (hbyName "page" hspares).1 hembedding⟩, hsource,
    (hbySource hsparesSource).1 hsource⟩

end Extraction

end Stencil
