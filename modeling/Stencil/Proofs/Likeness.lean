import Mathlib.Data.List.Forall2
import Stencil.Proofs.Dictionaries
import Stencil.Proofs.Hosts
import Stencil.Proofs.InPlace

/-!
# Pages that are rendered alike

Two pages are alike if they have the same texts and blocks in the same places, and expressions,
includes and embeds that belong together. Where what belongs together gives the same values and
finds pages that are alike again, such pages are rendered to the same text. An embed may also belong
to an include, if the page that the include finds is alike to the embed.

The comparison counts only successes: what the first rendering gives, the second one gives as well,
and the other way round if this is asked for.

Results:
* `Resembles.bind`, `Resembles.join`: steps that resemble each other can be composed.
* `Item.Alike.blocks`, `Page.Alike.add`: blocks and definitions.
* `Page.renderItems_resembles`, `Page.renderUnder_resembles`: bodies and pages.
-/

namespace Stencil

/-! ## Steps that succeed alike -/

section Steps

variable {α β α' β' : Type}

/-- If the first rendering succeeds, so does the second one, with an answer that belongs to it;
    under a condition, this holds the other way round. -/
structure Resembles (converse : Prop) (R : α → β → Prop) (x : Rendering Id α) (y : Rendering Id β) :
    Prop where
  forth : ∀ a, x.run = .ok a → ∃ b, y.run = .ok b ∧ R a b
  back : converse → ∀ b, y.run = .ok b → ∃ a, x.run = .ok a ∧ R a b

/-- A composed step succeeds if both of its parts do. -/
theorem run_bind_eq_ok {x : Rendering Id α} {f : α → Rendering Id β} {b : β} :
    (x >>= f).run = .ok b ↔ ∃ a, x.run = .ok a ∧ (f a).run = .ok b := by
  rw [ExceptT.run_bind]
  cases hx : x.run with
  | ok a =>
    constructor
    · intro h
      exact ⟨a, rfl, h⟩
    · rintro ⟨_, ⟨⟩, h⟩
      exact h
  | error e =>
    constructor
    · rintro ⟨⟩
    · rintro ⟨_, ⟨⟩, _⟩

namespace Resembles

variable {converse : Prop} {R : α → β → Prop} {R' : α' → β' → Prop} {x : Rendering Id α}
  {y : Rendering Id β}

theorem pure {a : α} {b : β} (h : R a b) :
    Resembles converse R (pure a : Rendering Id α) (pure b : Rendering Id β) where
  forth := by
    rintro _ ⟨⟩
    exact ⟨b, rfl, h⟩
  back := by
    rintro - _ ⟨⟩
    exact ⟨a, rfl, h⟩

/-- Two steps of which the first one fails, and under the condition the second one as well. -/
theorem failed {e : Failure} (hx : x.run = .error e)
    (hy : converse → ∃ e', y.run = .error e') : Resembles converse R x y where
  forth a ha := by
    rw [hx] at ha
    cases ha
  back hconverse b hb := by
    obtain ⟨e', hy⟩ := hy hconverse
    rw [hy] at hb
    cases hb

theorem throw (e e' : Failure) :
    Resembles converse R (throw e : Rendering Id α) (throw e' : Rendering Id β) :=
  failed rfl fun _ => ⟨e', rfl⟩

theorem mono {R' : α → β → Prop} (h : Resembles converse R x y) (hR : ∀ a b, R a b → R' a b) :
    Resembles converse R' x y where
  forth a ha := by
    obtain ⟨b, hb, hab⟩ := h.forth a ha
    exact ⟨b, hb, hR a b hab⟩
  back hconverse b hb := by
    obtain ⟨a, ha, hab⟩ := h.back hconverse b hb
    exact ⟨a, ha, hR a b hab⟩

theorem bind {f : α → Rendering Id α'} {g : β → Rendering Id β'} (h : Resembles converse R x y)
    (hf : ∀ a b, R a b → Resembles converse R' (f a) (g b)) :
    Resembles converse R' (x >>= f) (y >>= g) where
  forth c hc := by
    obtain ⟨a, ha, hc⟩ := run_bind_eq_ok.1 hc
    obtain ⟨b, hb, hR⟩ := h.forth a ha
    obtain ⟨d, hd, hR'⟩ := (hf a b hR).forth c hc
    exact ⟨d, run_bind_eq_ok.2 ⟨b, hb, hd⟩, hR'⟩
  back hconverse d hd := by
    obtain ⟨b, hb, hd⟩ := run_bind_eq_ok.1 hd
    obtain ⟨a, ha, hR⟩ := h.back hconverse b hb
    obtain ⟨c, hc, hR'⟩ := (hf a b hR).back hconverse d hd
    exact ⟨c, run_bind_eq_ok.2 ⟨a, ha, hc⟩, hR'⟩

theorem join {front back front' back' : Rendering Id String}
    (hfront : Resembles converse Eq front front') (hback : Resembles converse Eq back back') :
    Resembles converse Eq (Stencil.join front back) (Stencil.join front' back') := by
  refine hfront.bind ?_
  rintro first _ rfl
  refine hback.bind ?_
  rintro second _ rfl
  exact .pure rfl

/-- Steps that resemble each other both ways succeed with the same answers. -/
theorem run_eq_iff {x y : Rendering Id α} (h : Resembles True Eq x y) (a : α) :
    x.run = .ok a ↔ y.run = .ok a := by
  constructor
  · intro hx
    obtain ⟨_, hy, rfl⟩ := h.forth a hx
    exact hy
  · intro hy
    obtain ⟨_, hx, rfl⟩ := h.back trivial a hy
    exact hx

end Resembles

end Steps

/-! ## Templates that are found alike -/

/-- Two searches for a template: both find one, neither does, or the first one fails for another
    reason. Then the second one fails like that as well, at least under a condition. -/
inductive Found {α β : Type} (converse : Prop) (R : α → β → Prop) :
    Except Failure α → Except Failure β → Prop
  | found {a : α} {b : β} : R a b → Found converse R (.ok a) (.ok b)
  | missing (name name' : String) :
      Found converse R (.error (.templateNotFound name)) (.error (.templateNotFound name'))
  | failed {e : Failure} {result : Except Failure β} : (∀ name, e ≠ .templateNotFound name) →
      (converse → ∃ e', result = .error e' ∧ ∀ name, e' ≠ .templateNotFound name) →
      Found converse R (.error e) result

namespace Found

variable {α β : Type} {converse : Prop} {R : α → β → Prop} {x : Rendering Id α} {y : Rendering Id β}

theorem resembles (h : Found converse R x.run y.run) : Resembles converse R x y := by
  revert h
  generalize hx : x.run = result
  generalize hy : y.run = result'
  intro h
  cases h with
  | @found a b hR =>
    obtain rfl : x = pure a := hx
    obtain rfl : y = pure b := hy
    exact .pure hR
  | missing name name' => exact .failed hx fun _ => ⟨_, hy⟩
  | failed he he' =>
    refine .failed hx fun hconverse => ?_
    obtain ⟨e', rfl, -⟩ := he' hconverse
    exact ⟨e', hy⟩

theorem optional_throw {forgiven : Bool} {e : Failure} (h : ∀ name, e ≠ .templateNotFound name) :
    Host.optional forgiven (throw e : Rendering Id α) = throw e := by
  cases e with
  | templateNotFound name => exact absurd rfl (h name)
  | _ => rfl

/-- A missing template is forgiven in both searches, or in neither. -/
theorem optional (h : Found converse R x.run y.run) (forgiven : Bool) :
    Resembles converse (Option.Rel R) (Host.optional forgiven x) (Host.optional forgiven y) := by
  revert h
  generalize hx : x.run = result
  generalize hy : y.run = result'
  intro h
  cases h with
  | @found a b hR =>
    obtain rfl : x = pure a := hx
    obtain rfl : y = pure b := hy
    exact .pure (.some hR)
  | missing name name' =>
    obtain rfl : x = throw (.templateNotFound name) := hx
    obtain rfl : y = throw (.templateNotFound name') := hy
    cases forgiven with
    | true => exact .pure .none
    | false => exact .throw _ _
  | @failed e _ he he' =>
    obtain rfl : x = throw e := hx
    refine .failed (congrArg ExceptT.run (optional_throw he)) fun hconverse => ?_
    obtain ⟨e', rfl, hfails⟩ := he' hconverse
    obtain rfl : y = throw e' := hy
    exact ⟨e', congrArg ExceptT.run (optional_throw hfails)⟩

end Found

namespace Host

variable {T T' : Type} {host : Host Id T} {host' : Host Id T'} {f : String → String}

theorem firstOf_cons (host : Host Id T) (name : String) (rest : List String) :
    host.firstOf (name :: rest) =
      if Id.run (host.has name) then some name else host.firstOf rest := rfl

theorem firstOf_some {names : List String} {name : String} (h : host.firstOf names = some name) :
    name ∈ names ∧ Id.run (host.has name) = true := by
  induction names with
  | nil => cases h
  | cons other rest ih =>
    rw [firstOf_cons] at h
    split at h
    · next hother =>
      cases h
      exact ⟨List.mem_cons_self, hother⟩
    · obtain ⟨hmem, hname⟩ := ih h
      exact ⟨List.mem_cons_of_mem _ hmem, hname⟩

/-- The first of some templates that is there, looked for under other names. -/
theorem firstOf_map {names : List String}
    (hhas : ∀ name ∈ names, host.has (f name) = host'.has name) :
    host.firstOf (names.map f) = Option.map f (host'.firstOf names) := by
  induction names with
  | nil => rfl
  | cons name rest ih =>
    have hrest := ih fun other hother => hhas other (List.mem_cons_of_mem _ hother)
    rw [List.map_cons, firstOf_cons, firstOf_cons, hhas name List.mem_cons_self, hrest]
    split <;> rfl

theorem find_of_firstOf_some {names : List String} {name : String}
    (h : host.firstOf names = some name) : (host.find names).run = host.load name := by
  have hfirst : (ExceptT.lift (host.firstOf names) : Rendering Id (Option String)) =
      pure (some name) := congrArg (ExceptT.lift (m := Id)) h
  rw [find, hfirst]
  rfl

theorem find_of_firstOf_none {names : List String} (h : host.firstOf names = none) :
    (host.find names).run = .error (.templateNotFound (", ".intercalate names)) := by
  have hfirst : (ExceptT.lift (host.firstOf names) : Rendering Id (Option String)) = pure none :=
    congrArg (ExceptT.lift (m := Id)) h
  rw [find, hfirst]
  rfl

/-- Templates that are looked for under other names are found alike. -/
theorem find_found {converse : Prop} {R : T → T' → Prop} {names : List String}
    (hhas : ∀ name ∈ names, host.has (f name) = host'.has name)
    (hload : ∀ name ∈ names, Id.run (host'.has name) = true →
      Found converse R (host.load (f name)) (host'.load name)) :
    Found converse R (host.find (names.map f)).run (host'.find names).run := by
  have hmap : host.firstOf (names.map f) = Option.map f (host'.firstOf names) := firstOf_map hhas
  cases hfirst : host'.firstOf names with
  | none =>
    rw [hfirst] at hmap
    rw [find_of_firstOf_none hmap, find_of_firstOf_none hfirst]
    exact .missing _ _
  | some name =>
    rw [hfirst] at hmap
    rw [find_of_firstOf_some hmap, find_of_firstOf_some hfirst]
    obtain ⟨hmem, hname⟩ := firstOf_some hfirst
    exact hload name hmem hname

end Host

/-! ## Items and pages that are alike -/

/-- What belongs together in two templates. -/
structure Likeness where
  /-- Printed expressions. -/
  prints : Expr → Expr → Prop
  /-- Expressions of extended templates. -/
  parents : Expr → Expr → Prop
  /-- Includes: their targets and clauses. -/
  includes : Expr → Clauses → Expr → Clauses → Prop
  /-- Clauses of embeds. -/
  passes : Clauses → Clauses → Prop
  /-- An include that always finds the same page. -/
  finds : Expr → Page → Prop

/-- Two bodies with the same texts and blocks, and with expressions, includes and embeds that belong
    together. An embed of the first one may have moved to a page of its own in the second one. -/
inductive Item.Alike (r : Likeness) : List Item → List Item → Prop
  | nil : Item.Alike r [] []
  | text {span span' : Span} {content : String} {items items' : List Item} :
      Item.Alike r items items' →
      Item.Alike r (.text span content :: items) (.text span' content :: items')
  | print {span span' : Span} {expr expr' : Expr} {items items' : List Item} :
      r.prints expr expr' → Item.Alike r items items' →
      Item.Alike r (.print span expr :: items) (.print span' expr' :: items')
  | block {span span' : Span} {name : String} {body body' items items' : List Item} :
      Item.Alike r body body' → Item.Alike r items items' →
      Item.Alike r (.block span name body :: items) (.block span' name body' :: items')
  | «include» {span span' : Span} {target target' : Expr} {clauses clauses' : Clauses}
      {items items' : List Item} : r.includes target clauses target' clauses' →
      Item.Alike r items items' →
      Item.Alike r (.«include» span target clauses :: items)
        (.«include» span' target' clauses' :: items')
  | «extends» {span span' : Span} {parent parent' : Expr} {items items' : List Item} :
      r.parents parent parent' → Item.Alike r items items' →
      Item.Alike r (.«extends» span parent :: items) (.«extends» span' parent' :: items')
  | embed {span span' : Span} {parent parent' : Expr} {clauses clauses' : Clauses}
      {body body' items items' : List Item} : r.parents parent parent' →
      r.passes clauses clauses' → Item.Alike r body body' → Item.Alike r items items' →
      Item.Alike r (.embed span parent clauses body :: items)
        (.embed span' parent' clauses' body' :: items')
  | moved {span span' : Span} {parent parent' target : Expr} {clauses clauses' : Clauses}
      {page : Page} {body items items' : List Item} : r.finds target page →
      page.parent = some parent' → r.parents parent parent' → r.passes clauses clauses' →
      Item.Alike r body page.body → Item.Alike r items items' →
      Item.Alike r (.embed span parent clauses body :: items)
        (.«include» span' target clauses' :: items')

/-- Two pages of this kind. -/
structure Page.Alike (r : Likeness) (page page' : Page) : Prop where
  parent : Option.Rel r.parents page.parent page'.parent
  body : Item.Alike r page.body page'.body

/-- The bodies of two definitions are alike. -/
def Passage.Alike (r : Likeness) (p p' : Passage) : Prop := Item.Alike r p.body p'.body

variable {r : Likeness}

theorem Item.Alike.append {front front' back back' : List Item} (h : Item.Alike r front front')
    (hback : Item.Alike r back back') : Item.Alike r (front ++ back) (front' ++ back') := by
  induction h with
  | nil => exact hback
  | text _ ih => exact .text ih
  | print hexpr _ ih => exact .print hexpr ih
  | block hbody _ _ ih => exact .block hbody ih
  | «include» hincludes _ ih => exact .«include» hincludes ih
  | «extends» hparents _ ih => exact .«extends» hparents ih
  | embed hparents hpasses hbody _ _ ih => exact .embed hparents hpasses hbody ih
  | moved hfinds hpage hparents hpasses hbody _ _ ih =>
    exact .moved hfinds hpage hparents hpasses hbody ih

/-- The blocks in bodies that are alike. -/
theorem Item.Alike.blocks {items items' : List Item} (h : Item.Alike r items items') :
    List.Forall₂ (fun b b' => b.1 = b'.1 ∧ Item.Alike r b.2 b'.2) (Item.blocksIn items)
      (Item.blocksIn items') := by
  induction h with
  | nil => exact .nil
  | @block span span' name body body' items items' hbody _ ihBody ih =>
    simp only [Item.blocksIn, Item.blocks, List.cons_append]
    exact .cons ⟨rfl, hbody⟩ (List.rel_append ihBody ih)
  | text _ ih => simpa only [Item.blocksIn, Item.blocks, List.nil_append] using ih
  | print _ _ ih => simpa only [Item.blocksIn, Item.blocks, List.nil_append] using ih
  | «include» _ _ ih => simpa only [Item.blocksIn, Item.blocks, List.nil_append] using ih
  | «extends» _ _ ih => simpa only [Item.blocksIn, Item.blocks, List.nil_append] using ih
  | embed _ _ _ _ _ ih => simpa only [Item.blocksIn, Item.blocks, List.nil_append] using ih
  | moved _ _ _ _ _ _ _ ih => simpa only [Item.blocksIn, Item.blocks, List.nil_append] using ih

/-- Adding the blocks of pages that are alike. -/
theorem Page.Alike.add {page page' : Page} (h : page.Alike r page')
    {defined defined' : Dict Passage} (hdefined : Dict.Related (Passage.Alike r) defined defined') :
    Dict.Related (Passage.Alike r)
      (addPassages defined page.name (Item.blocksIn page.body))
      (addPassages defined' page'.name (Item.blocksIn page'.body)) :=
  hdefined.foldl_insertNew h.body.blocks

/-! ## Rendering -/

namespace Page

/-- Pages that are alike are rendered alike. -/
def RendersAlike (converse : Prop) (r : Likeness)
    (render render' : Page → Context → Rendering Id String) : Prop :=
  ∀ page page', page.Alike r page' → ∀ context,
    Resembles converse Eq (render page context) (render' page' context)

end Page

/-- What belongs together gives the same values and finds pages that are alike. -/
structure Likeness.Sound (r : Likeness) (converse : Prop) (host host' : Host Id Page) : Prop where
  maxDepth : host.settings.maxDepth = host'.settings.maxDepth
  prints : ∀ {expr expr'}, r.prints expr expr' → ∀ context,
    Resembles converse Eq (host.print context expr) (host'.print context expr')
  parents : ∀ {expr expr'}, r.parents expr expr' → ∀ context,
    Resembles converse (Page.Alike r) (host.parent context expr) (host'.parent context expr')
  includes : ∀ {target clauses target' clauses'}, r.includes target clauses target' clauses' →
    ∀ {render render'}, Page.RendersAlike converse r render render' → ∀ context,
    Resembles converse Eq (Page.insert host render context target clauses)
      (Page.insert host' render' context target' clauses')
  passes : ∀ {clauses clauses'}, r.passes clauses clauses' → clauses.only = clauses'.only ∧
    ∀ context, Resembles converse Eq (host.passed context clauses.bindings)
      (host'.passed context clauses'.bindings)
  finds : ∀ {target page}, r.finds target page → ∀ context ignoreMissing,
    host'.included? context ignoreMissing target = pure (some page)

namespace Page

variable {converse : Prop} {host host' : Host Id Page}
  {render render' : Page → Context → Rendering Id String}

/-- The text of alike pages with the variables that an include passes to them. -/
theorem renderPassing_resembles (hs : r.Sound converse host host')
    (hrender : RendersAlike converse r render render') {clauses clauses' : Clauses}
    (hpasses : r.passes clauses clauses') {page page' : Page} (hpage : page.Alike r page')
    (context : Context) :
    Resembles converse Eq (renderPassing host render context clauses page)
      (renderPassing host' render' context clauses' page') := by
  obtain ⟨honly, hpassed⟩ := hs.passes hpasses
  refine (hpassed context).bind ?_
  rintro bindings _ rfl
  rw [honly]
  exact hrender _ _ hpage _

/-- Includes that find pages that belong together, and render these alike. -/
theorem insert_resembles {R : Page → Page → Prop} {context : Context} {target target' : Expr}
    {clauses clauses' : Clauses}
    (hfound : Resembles converse (Option.Rel R)
      (host.included? context clauses.ignoreMissing target)
      (host'.included? context clauses'.ignoreMissing target'))
    (hpassing : ∀ page page', R page page' → Resembles converse Eq
      (renderPassing host render context clauses page)
      (renderPassing host' render' context clauses' page')) :
    Resembles converse Eq (insert host render context target clauses)
      (insert host' render' context target' clauses') := by
  refine hfound.bind ?_
  intro found found' h
  cases h with
  | none => exact .pure rfl
  | some h => exact hpassing _ _ h

/-- An include that must not be skipped finds a page. -/
theorem exists_of_included {context : Context} {target : Expr} {found : Option Page}
    (h : (host.included? context false target).run = .ok found) : ∃ page, found = some page := by
  obtain ⟨value, -, h⟩ := run_bind_eq_ok.1 h
  change (Host.optional false (host.resolve value target.span)).run = .ok found at h
  cases hstep : (host.resolve value target.span).run with
  | ok page =>
    have hpure : host.resolve value target.span = pure page := hstep
    rw [hpure] at h
    cases h
    exact ⟨page, rfl⟩
  | error e =>
    have hthrow : host.resolve value target.span = throw e := hstep
    rw [hthrow] at h
    cases e <;> cases h

/-- An include that must not be skipped fails if its variables cannot be passed. -/
theorem insert_of_refused {context : Context} {target : Expr} {clauses : Clauses} {e : Failure}
    (hclauses : clauses.ignoreMissing = false)
    (hpassed : host.passed context clauses.bindings = .of (.error e)) :
    ∃ e', (insert host render context target clauses).run = .error e' := by
  cases hrun : (insert host render context target clauses).run with
  | error e' => exact ⟨e', rfl⟩
  | ok text =>
    obtain ⟨found, hfound, hrun⟩ := run_bind_eq_ok.1 hrun
    rw [hclauses] at hfound
    obtain ⟨page, rfl⟩ := exists_of_included hfound
    obtain ⟨bindings, hbindings, -⟩ := run_bind_eq_ok.1 hrun
    rw [hpassed] at hbindings
    cases hbindings

section Bodies

variable {defined defined' : Dict Passage}
  (hdefined : Dict.Related (Passage.Alike r) defined defined')

include hdefined

/-- Bodies that are alike are rendered alike if definitions are. -/
theorem renderItems_resembles_of_follow (hs : r.Sound converse host host')
    (hrender : RendersAlike converse r render render') (context : Context) (bound : Nat)
    (hfollow : ∀ name p p', Passage.Alike r p p' →
      Resembles converse Eq (follow host render context defined bound name p)
        (follow host' render' context defined' bound name p'))
    (template template' : String) {items items' : List Item} (h : Item.Alike r items items') :
    Resembles converse Eq (renderItems host render context defined bound template items)
      (renderItems host' render' context defined' bound template' items') := by
  induction h with
  | nil =>
    rw [renderItems_nil, renderItems_nil]
    exact .pure rfl
  | text _ ih =>
    rw [renderItems_cons, renderItems_cons, renderItem_text, renderItem_text]
    exact .join (.pure rfl) ih
  | print hexpr _ ih =>
    rw [renderItems_cons, renderItems_cons, renderItem_print, renderItem_print]
    exact .join (hs.prints hexpr context) ih
  | @block span span' name body body' items items' _ _ ihBody ih =>
    rw [renderItems_cons, renderItems_cons]
    refine .join ?_ ih
    cases hp : Dict.get? defined name with
    | none =>
      rw [renderItem_own _ _ _ _ _ _ hp, renderItem_own _ _ _ _ _ _ (hdefined.get?_none hp)]
      exact ihBody
    | some p =>
      obtain ⟨p', hp', halike⟩ := hdefined.get?_some hp
      rw [renderItem_defined _ _ _ _ _ _ hp, renderItem_defined _ _ _ _ _ _ hp']
      exact hfollow name p p' halike
  | «include» hincludes _ ih =>
    rw [renderItems_cons, renderItems_cons, renderItem_include, renderItem_include]
    exact .join (hs.includes hincludes hrender context) ih
  | «extends» _ _ ih =>
    rw [renderItems_cons, renderItems_cons, renderItem_extends, renderItem_extends]
    exact .join (.pure rfl) ih
  | embed hparent hpasses hbody _ _ ih =>
    rw [renderItems_cons, renderItems_cons, renderItem_embed, renderItem_embed]
    refine .join ?_ ih
    exact renderPassing_resembles hs hrender hpasses ⟨.some hparent, hbody⟩ context
  | @moved _ _ parent parent' target _ clauses' page body _ _ hfinds hpage hparent hpasses hbody
      _ _ ih =>
    rw [renderItems_cons, renderItems_cons, renderItem_embed, renderItem_include]
    refine .join ?_ ih
    have hinsert : insert host' render' context target clauses' =
        renderPassing host' render' context clauses' page := by
      rw [insert, hs.finds hfinds, pure_bind]
    rw [hinsert]
    have halike : Page.Alike r ⟨template, some parent, body⟩ page := by
      refine ⟨?_, hbody⟩
      rw [hpage]
      exact .some hparent
    exact renderPassing_resembles hs hrender hpasses halike context

theorem renderItems_resembles (hs : r.Sound converse host host')
    (hrender : RendersAlike converse r render render') (context : Context) (bound : Nat)
    (template template' : String) {items items' : List Item} (h : Item.Alike r items items') :
    Resembles converse Eq (renderItems host render context defined bound template items)
      (renderItems host' render' context defined' bound template' items') := by
  induction bound generalizing template template' items items' with
  | zero =>
    refine renderItems_resembles_of_follow hdefined hs hrender context 0 (fun name p p' _ => ?_)
      template template' h
    exact .throw _ _
  | succ bound ih =>
    refine renderItems_resembles_of_follow hdefined hs hrender context _ (fun name p p' hp => ?_)
      template template' h
    exact ih p.template p'.template hp

end Bodies

/-- Pages that are alike are rendered alike, under definitions that are alike. -/
theorem renderUnder_resembles (hs : r.Sound converse host host') (patience depth : Nat)
    {defined defined' : Dict Passage}
    (hdefined : Dict.Related (Passage.Alike r) defined defined') {page page' : Page}
    (h : page.Alike r page') (context : Context) :
    Resembles converse Eq (renderUnder host patience depth defined page context)
      (renderUnder host' patience depth defined' page' context) := by
  induction depth generalizing defined defined' page page' context with
  | zero =>
    rw [renderUnder_zero, renderUnder_zero]
    exact .throw _ _
  | succ depth ih =>
    have hparent := h.parent
    cases hp : page.parent with
    | none =>
      cases hp' : page'.parent with
      | some _ =>
        rw [hp, hp'] at hparent
        cases hparent
      | none =>
        rw [renderUnder_root _ _ _ _ hp, renderUnder_root _ _ _ _ hp', hdefined.length]
        exact renderItems_resembles hdefined hs (fun _ _ halike => ih .nil halike) context _ _ _
          h.body
    | some parent =>
      cases hp' : page'.parent with
      | none =>
        rw [hp, hp'] at hparent
        cases hparent
      | some parent' =>
        rw [hp, hp'] at hparent
        cases hparent with
        | some hparent =>
        rw [renderUnder_child _ _ _ _ hp, renderUnder_child _ _ _ _ hp']
        refine (hs.parents hparent context).bind ?_
        intro found found' hfound
        exact ih (h.add hdefined) hfound context

theorem render_resembles (hs : r.Sound converse host host') (patience : Nat) {page page' : Page}
    (h : page.Alike r page') (context : Context) :
    Resembles converse Eq (Page.render host patience page context)
      (Page.render host' patience page' context) := by
  unfold Page.render
  rw [hs.maxDepth]
  exact renderUnder_resembles hs _ _ .nil h context

end Page

end Stencil
