import Stencil.Engine.Environment
import Stencil.Override.Routing

/-!
# Rendering in place

A template tree keeps the bodies of its embeds apart and refers to them by number. Here a template
is its items, as they stand in the source: an embed carries its own body, and rendering it takes
that body and no other. There are no numbers, and so no owners of embedded trees.

Results:
* `Page.renderItems_nil`, `Page.renderItems_cons`, `Page.renderItem_text`, `Page.renderItem_print`,
  `Page.renderItem_include`, `Page.renderItem_extends`, `Page.renderItem_embed`,
  `Page.renderItem_own`, `Page.renderItem_defined`: a body, item by item.
* `Page.renderUnder_zero`, `Page.renderUnder_root`, `Page.renderUnder_child`: a page beyond the depth
  limit, without and with a parent.
-/

namespace Stencil

/-! ## Pages -/

/-- A template with its embeds in place, or an embed. -/
structure Page where
  /-- The name of the template. -/
  name : String
  /-- The expression that names the extended template. -/
  parent : Option Expr
  body : List Item
deriving Repr, Inhabited

/-- A block that is defined in the template of the given name. -/
structure Passage where
  template : String
  body : List Item
deriving Repr, Inhabited

mutual

/-- The blocks in an item, an outer block before the ones inside it. Those in the body of an embed
    are its own. -/
def Item.blocks : Item → List (String × List Item)
  | .block _ name body => (name, body) :: Item.blocksIn body
  | _ => []

/-- The blocks in some items. -/
def Item.blocksIn : List Item → List (String × List Item)
  | [] => []
  | item :: rest => item.blocks ++ Item.blocksIn rest

end

/-- Adds the blocks of a template; names that are defined already keep their definitions. -/
def addPassages (defined : Dict Passage) (template : String) (blocks : List (String × List Item)) :
    Dict Passage :=
  blocks.foldl (fun d b => Dict.insertNew d b.1 ⟨template, b.2⟩) defined

/-- The expression of an `extends` tag. -/
def Item.extended? : Item → Option Expr
  | .«extends» _ expr => some expr
  | _ => none

/-- The page of a template. -/
def Page.ofItems (name : String) (items : List Item) : Page where
  name := name
  parent := items.findSome? Item.extended?
  body := items.filter (·.extended?.isNone)

/-! ## The passes -/

open Override (routedParent routedTarget routedClauses)

namespace Item

/-- Joins the texts of a body that follow each other, and drops the empty ones. -/
def mergeText : List Item → List Item
  | [] => []
  | .text span content :: rest =>
    if content.isEmpty then mergeText rest
    else match mergeText rest with
      | .text next more :: others => .text (span.upTo next) (content ++ more) :: others
      | others => .text span content :: others
  | item :: rest => item :: mergeText rest

mutual

/-- Merges the texts of all bodies in an item. -/
def merged : Item → Item
  | .block span name body => .block span name (mergeText (mergedAll body))
  | .embed span target clauses body => .embed span target clauses (mergeText (mergedAll body))
  | item => item

/-- Merges the texts of all bodies in some items. -/
def mergedAll : List Item → List Item
  | [] => []
  | item :: rest => item.merged :: mergedAll rest

end

mutual

/-- An item of the template of the given name that consults the hooks. -/
def routed (template : String) : Item → Item
  | .block span name body => .block span name (routedAll template body)
  | .«include» span target clauses =>
    .«include» span (routedTarget target clauses) (routedClauses target span clauses)
  | .embed span target clauses body =>
    .embed span (routedParent target)
      (routedClauses (.constant span (.string template)) span clauses) (routedAll template body)
  | item => item

/-- Items of the template of the given name that consult the hooks. -/
def routedAll (template : String) : List Item → List Item
  | [] => []
  | item :: rest => item.routed template :: routedAll template rest

end

end Item

namespace Page

/-- The page with all texts merged. -/
def merged (page : Page) : Page := { page with body := Item.mergeText (Item.mergedAll page.body) }

/-- The page that consults the hooks. -/
def routed (page : Page) : Page where
  name := page.name
  parent := page.parent.map routedParent
  body := Item.routedAll page.name page.body

/-- The page of a template after the passes of an engine without or with overrides. -/
def compiled (overridden : Bool) (page : Page) : Page :=
  if overridden then page.merged.routed else page.merged

/-- The page of a source after the passes. -/
def ofSource (overridden : Bool) (name source : String) : Page :=
  match Syntax.parseItems source.toList with
  | .ok items => (ofItems name items).compiled overridden
  | .error _ => ⟨name, none, []⟩

end Page

/-! ## Rendering -/

/-- How the items of a body are rendered that are not plain text. -/
structure ItemRendering (n : Type → Type) where
  /-- The text of a printed expression. -/
  print : Expr → Rendering n String
  /-- The text of an include. -/
  insert : Expr → Clauses → Rendering n String
  /-- The text of an embed with its own body. -/
  embed : Expr → Clauses → List Item → Rendering n String
  /-- The text of a block that has a definition in effect, if it has one. -/
  replace? : String → Option (Unit → Rendering n String)

namespace ItemRendering

variable {n : Type → Type} [Monad n]

mutual

/-- The text of an item. -/
def onItem (r : ItemRendering n) : Item → Rendering n String
  | .text _ content => pure content
  | .print _ expr => r.print expr
  | .block _ name body =>
    match r.replace? name with
    | some replacement => replacement ()
    | none => r.onItems body
  | .«include» _ target clauses => r.insert target clauses
  | .embed _ parent clauses body => r.embed parent clauses body
  | .«extends» .. => pure ""

/-- The text of a body. -/
def onItems (r : ItemRendering n) : List Item → Rendering n String
  | [] => pure ""
  | item :: rest => do
    let front ← r.onItem item
    let back ← r.onItems rest
    pure (front ++ back)

end

end ItemRendering

namespace Page

variable {n : Type → Type} [Monad n]

/-- The text of a page with the variables that an include passes to it. -/
def renderPassing (host : Host n Page) (render : Page → Context → Rendering n String)
    (context : Context) (clauses : Clauses) (page : Page) : Rendering n String := do
  let bindings ← host.passed context clauses.bindings
  render page (Host.scope context clauses.only bindings)

/-- The text of an include. -/
def insert (host : Host n Page) (render : Page → Context → Rendering n String) (context : Context)
    (target : Expr) (clauses : Clauses) : Rendering n String := do
  match ← host.included? context clauses.ignoreMissing target with
  | none => pure ""
  | some page => renderPassing host render context clauses page

/-- How the items of a body in the template of the given name are rendered. The last argument renders
    the definition of a name. -/
def items (host : Host n Page) (render : Page → Context → Rendering n String) (context : Context)
    (defined : Dict Passage) (template : String)
    (follow : String → Passage → Rendering n String) : ItemRendering n where
  print := host.print context
  insert := insert host render context
  embed parent clauses body :=
    renderPassing host render context clauses ⟨template, some parent, body⟩
  replace? name := (Dict.get? defined name).map fun p _ => follow name p

/-- The text of a body in the template of the given name. The number bounds how many definitions may
    lead from one to the next. -/
def renderItems (host : Host n Page) (render : Page → Context → Rendering n String)
    (context : Context) (defined : Dict Passage) : Nat → String → List Item → Rendering n String
  | 0, template, body =>
    (items host render context defined template fun name _ =>
      throw (.endlessBlock name)).onItems body
  | bound + 1, template, body =>
    (items host render context defined template fun _ p =>
      renderItems host render context defined bound p.template p.body).onItems body

/-- The text of a page under the definitions in effect. The first number is the patience, as in the
    rendering of trees, the second one is how many pages may be nested, this one included. -/
def renderUnder (host : Host n Page) (patience : Nat) :
    Nat → Dict Passage → Page → Context → Rendering n String
  | 0, _, page, _ => throw (.tooDeep host.settings.maxDepth page.name)
  | depth + 1, defined, page, context =>
    match page.parent with
    | none =>
      renderItems host (renderUnder host patience depth []) context defined
        (defined.length + patience) page.name page.body
    | some parent => do
      let found ← host.parent context parent
      renderUnder host patience depth (addPassages defined page.name (Item.blocksIn page.body))
        found context

/-- The text of a template. -/
def render (host : Host n Page) (patience : Nat) (page : Page) (context : Context) :
    Rendering n String :=
  renderUnder host patience (host.settings.maxDepth + 1) [] page context

/-! ## Bodies, item by item -/

section Items

variable (host : Host n Page) (render : Page → Context → Rendering n String) (context : Context)
  (defined : Dict Passage) (bound : Nat) (template : String)

/-- The text of a definition in effect. -/
def follow (name : String) (p : Passage) : Rendering n String :=
  match bound with
  | 0 => throw (.endlessBlock name)
  | bound + 1 => renderItems host render context defined bound p.template p.body

/-- The text of an item under the definitions in effect. -/
def renderItem (item : Item) : Rendering n String :=
  (items host render context defined template (follow host render context defined bound)).onItem
    item

theorem renderItems_eq_onItems (body : List Item) :
    renderItems host render context defined bound template body =
      (items host render context defined template
        (follow host render context defined bound)).onItems body := by
  cases bound <;> rfl

theorem renderItems_nil :
    renderItems host render context defined bound template [] = pure "" := by
  simp only [renderItems_eq_onItems, ItemRendering.onItems]

theorem renderItems_cons (item : Item) (rest : List Item) :
    renderItems host render context defined bound template (item :: rest) = (do
      let front ← renderItem host render context defined bound template item
      let back ← renderItems host render context defined bound template rest
      pure (front ++ back)) := by
  simp only [renderItems_eq_onItems, ItemRendering.onItems, renderItem]

theorem renderItem_text (span : Span) (content : String) :
    renderItem host render context defined bound template (.text span content) = pure content := by
  rfl

theorem renderItem_print (span : Span) (expr : Expr) :
    renderItem host render context defined bound template (.print span expr) =
      host.print context expr := by
  rfl

theorem renderItem_include (span : Span) (target : Expr) (clauses : Clauses) :
    renderItem host render context defined bound template (.«include» span target clauses) =
      insert host render context target clauses := by
  rfl

/-- An `extends` tag has no text of its own. -/
theorem renderItem_extends (span : Span) (parent : Expr) :
    renderItem host render context defined bound template (.«extends» span parent) = pure "" := by
  rfl

/-- An embed renders the page of its own body. -/
theorem renderItem_embed (span : Span) (parent : Expr) (clauses : Clauses) (body : List Item) :
    renderItem host render context defined bound template (.embed span parent clauses body) =
      renderPassing host render context clauses ⟨template, some parent, body⟩ := by
  rfl

/-- A block without a definition in effect renders its own body. -/
theorem renderItem_own {name : String} (h : Dict.get? defined name = none) (span : Span)
    (body : List Item) :
    renderItem host render context defined bound template (.block span name body) =
      renderItems host render context defined bound template body := by
  simp only [renderItem, ItemRendering.onItem, items, h, Option.map_none, renderItems_eq_onItems]

/-- A block with a definition in effect renders the definition. -/
theorem renderItem_defined {name : String} {p : Passage} (h : Dict.get? defined name = some p)
    (span : Span) (body : List Item) :
    renderItem host render context defined bound template (.block span name body) =
      follow host render context defined bound name p := by
  simp only [renderItem, ItemRendering.onItem, items, h, Option.map_some]

end Items

/-! ## Pages with and without a parent -/

theorem renderUnder_zero (host : Host n Page) (patience : Nat) (defined : Dict Passage)
    (page : Page) (context : Context) : renderUnder host patience 0 defined page context =
      throw (.tooDeep host.settings.maxDepth page.name) := rfl

/-- A page without a parent renders its body. -/
theorem renderUnder_root (host : Host n Page) (patience depth : Nat) (defined : Dict Passage)
    {page : Page} (h : page.parent = none) (context : Context) :
    renderUnder host patience (depth + 1) defined page context =
      renderItems host (renderUnder host patience depth []) context defined
        (defined.length + patience) page.name page.body := by
  simp only [renderUnder, h]

/-- A page with a parent renders the parent under its own definitions. -/
theorem renderUnder_child (host : Host n Page) (patience depth : Nat) (defined : Dict Passage)
    {page : Page} {parent : Expr} (h : page.parent = some parent) (context : Context) :
    renderUnder host patience (depth + 1) defined page context = (do
      let found ← host.parent context parent
      renderUnder host patience depth (addPassages defined page.name (Item.blocksIn page.body))
        found context) := by
  simp only [renderUnder, h]

end Page

end Stencil
