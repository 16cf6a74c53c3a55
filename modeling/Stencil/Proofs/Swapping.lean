import Stencil.Proofs.Acceptance
import Stencil.Proofs.Nesting

/-!
# One form in the place of another

If a block or an embed of a template is replaced by a single tag, all the forms around it stay the
same. What stood between the tags is a template of its own, and a source in which an `extends` tag
stands before it is accepted exactly if it may be the body of an embed.

Results:
* `Step.swaps`, `Steps.swaps`: what is read next does not depend on the replaced form.
* `Body.swap`, `Body.swap_back`: replacing a block or an embed by a tag, and the other way round.
* `Body.cons_leaf`: a tag before the pieces of a body.
* `Form.Swap.accepted`: acceptance with an embed and without it.
-/

namespace Stencil

open Grammar (Opened)

/-- Forms that differ in one place, at any depth. -/
inductive Form.Swap (x y : Form) : List Form → List Form → Prop
  | here (rest : List Form) : Form.Swap x y (x :: rest) (y :: rest)
  | later (form : Form) {rest rest' : List Form} : Form.Swap x y rest rest' →
      Form.Swap x y (form :: rest) (form :: rest')
  | inside (o : Opened) (rest : List Form) {body body' : List Form} : Form.Swap x y body body' →
      Form.Swap x y (o.form body :: rest) (o.form body' :: rest)

namespace Form.Swap

variable {x y : Form} {forms forms' : List Form}

theorem symm (h : Swap x y forms forms') : Swap y x forms' forms := by
  induction h with
  | here rest => exact .here rest
  | later form _ ih => exact .later form ih
  | inside o rest _ ih => exact .inside o rest ih

theorem append_right (h : Swap x y forms forms') (back : List Form) :
    Swap x y (forms ++ back) (forms' ++ back) := by
  induction h with
  | here rest => exact .here _
  | later form _ ih => exact .later form ih
  | inside o rest h _ => exact .inside o _ h

theorem append_left (front : List Form) (h : Swap x y forms forms') :
    Swap x y (front ++ forms) (front ++ forms') := by
  induction front with
  | nil => exact h
  | cons form front ih => exact .later form ih

theorem last (front : List Form) : Swap x y (front ++ [x]) (front ++ [y]) :=
  append_left front (.here [])

end Form.Swap

namespace Grammar

open Form (Swap)

/-! ## Reading on -/

/-- Configurations that differ in one form. -/
inductive Config.Swaps (x y : Form) : Config → Config → Prop
  | here {outer : List (Opened × List Form)} {here here' : List Form} : Swap x y here here' →
      Config.Swaps x y ⟨outer, here⟩ ⟨outer, here'⟩
  | outer {outer outer' : List (Opened × List Form)} {before before' : List Form} (o : Opened)
      (here : List Form) : Config.Swaps x y ⟨outer, before⟩ ⟨outer', before'⟩ →
      Config.Swaps x y ⟨(o, before) :: outer, here⟩ ⟨(o, before') :: outer', here⟩

variable {x y : Form}

/-- Forms that are added behind the place where two configurations differ. -/
theorem Config.Swaps.append {outer outer' : List (Opened × List Form)} {here here' : List Form}
    (h : Config.Swaps x y ⟨outer, here⟩ ⟨outer', here'⟩) (back : List Form) :
    Config.Swaps x y ⟨outer, here ++ back⟩ ⟨outer', here' ++ back⟩ := by
  cases h with
  | here h => exact .here (h.append_right back)
  | outer o _ h => exact .outer o _ h

/-- The next piece is read alike. -/
theorem Step.swaps {p : Piece} {c d c' : Config} (hstep : Step p c d) (h : c.Swaps x y c') :
    ∃ d', Step p c' d' ∧ d.Swaps x y d' := by
  cases hstep with
  | @leaf form outer here hleaf =>
    obtain ⟨outer', here'⟩ := c'
    exact ⟨_, .leaf hleaf, h.append [form]⟩
  | opens hopens =>
    obtain ⟨outer', here'⟩ := c'
    exact ⟨_, .opens hopens, .outer _ [] h⟩
  | @shuts o outer before here hshuts =>
    cases h with
    | here h => exact ⟨_, .shuts hshuts, .here (.append_left before (.inside o [] h))⟩
    | outer _ _ h => exact ⟨_, .shuts hshuts, h.append _⟩

theorem Steps.swaps {ps : List Piece} {c d c' : Config} (hsteps : Steps ps c d)
    (h : c.Swaps x y c') : ∃ d', Steps ps c' d' ∧ d.Swaps x y d' := by
  induction hsteps generalizing c' with
  | nil => exact ⟨c', .nil c', h⟩
  | cons hstep _ ih =>
    obtain ⟨mid, hstep', hmid⟩ := hstep.swaps h
    obtain ⟨d', hsteps', hd⟩ := ih hmid
    exact ⟨d', .cons hstep' hsteps', hd⟩

/-! ## What a tag stands for -/

theorem Leaf.unique {p : Piece} {form form' : Form} (h : Leaf p form) (h' : Leaf p form') :
    form = form' := h.entry.unique h'.entry

theorem Opens.unique {o o' : Opened} {p : Piece} (h : Opens o p) (h' : Opens o' p) : o = o' := by
  cases o with
  | block name =>
    cases h with
    | block => cases h'; rfl
  | embed target options =>
    cases o' with
    | block name => cases h'; cases h
    | embed target' options' =>
      have hentry := h.entry (.embed target options) .nil
      have hentry' := h'.entry (.embed target' options') .nil
      cases hentry.unique hentry'
      rfl

theorem Leaf.step {p : Piece} {form : Form} (h : Leaf p form) {c d : Config} (hstep : Step p c d) :
    d = ⟨c.outer, c.here ++ [form]⟩ := by
  cases hstep with
  | leaf hleaf => rw [h.unique hleaf]
  | opens hopens => cases hopens <;> cases h
  | shuts hshuts => cases hshuts <;> cases h

theorem Opens.step {o : Opened} {p : Piece} (h : Opens o p) {c d : Config} (hstep : Step p c d) :
    d = ⟨(o, c.here) :: c.outer, []⟩ := by
  cases hstep with
  | leaf hleaf => cases hleaf <;> cases h
  | opens hopens => rw [h.unique hopens]
  | shuts hshuts => cases hshuts <;> cases h

theorem Shuts.step {o : Opened} {p : Piece} (h : Shuts o p) {outer : List (Opened × List Form)}
    {before here : List Form} {d : Config} (hstep : Step p ⟨(o, before) :: outer, here⟩ d) :
    d = ⟨outer, before ++ [o.form here]⟩ := by
  cases hstep with
  | leaf hleaf => cases hleaf <;> cases h
  | opens hopens => cases hopens <;> cases h
  | shuts => rfl

/-! ## Replacing what stands between two tags -/

section Replacing

variable {front inner back : List Piece} {p q leaf : Piece} {o : Opened} {y : Form}
  (hfront : ∀ r ∈ front, r.Fit) (hinner : ∀ r ∈ inner, r.Fit) (hback : ∀ r ∈ back, r.Fit)
  (hopens : Opens o p) (hshuts : Shuts o q) (hleaf : Leaf leaf y)

include hfront hinner hback hopens hshuts hleaf

/-- What stands between two tags is a body, and a single tag can take its place and theirs. -/
theorem Body.swap (hdepth : depthAfter 0 (flat inner) = some 0) {forms : List Form}
    (h : Body (flat (front ++ p :: (inner ++ q :: back))) forms) :
    ∃ body forms', Body (flat inner) body ∧ Body (flat (front ++ leaf :: back)) forms' ∧
      Swap (o.form body) y forms forms' := by
  have hfit : ∀ r ∈ front ++ p :: (inner ++ q :: back), r.Fit := by
    simp only [List.forall_mem_append, List.forall_mem_cons]
    exact ⟨hfront, hopens.fit, hinner, hshuts.fit, hback⟩
  obtain ⟨⟨outer, here⟩, hbefore, hsteps⟩ := (h.steps hfit [] []).of_append
  cases hsteps with
  | cons hstep hsteps =>
  cases hopens.step hstep
  obtain ⟨mid, hinside, hsteps⟩ := hsteps.of_append
  obtain ⟨body, hbody, rfl⟩ := hinside.body hdepth
  cases hsteps with
  | cons hstep hafter =>
  cases hshuts.step hstep
  have hswaps : Config.Swaps (o.form body) y ⟨outer, here ++ [o.form body]⟩
      ⟨outer, here ++ [y]⟩ := .here (.last here)
  obtain ⟨⟨outer', forms'⟩, hafter', hswap⟩ := hafter.swaps hswaps
  cases hswap with
  | here hswap =>
    exact ⟨body, forms', hbody, (hbefore.append (.cons (.leaf hleaf) hafter')).derived, hswap⟩

/-- A body between two tags can take the place of a single tag. -/
theorem Body.swap_back {body forms' : List Form} (hbody : Body (flat inner) body)
    (h : Body (flat (front ++ leaf :: back)) forms') :
    ∃ forms, Body (flat (front ++ p :: (inner ++ q :: back))) forms ∧
      Swap (o.form body) y forms forms' := by
  have hfit : ∀ r ∈ front ++ leaf :: back, r.Fit := by
    simp only [List.forall_mem_append, List.forall_mem_cons]
    exact ⟨hfront, hleaf.fit, hback⟩
  obtain ⟨⟨outer, here⟩, hbefore, hsteps⟩ := (h.steps hfit [] []).of_append
  cases hsteps with
  | cons hstep hafter =>
  cases hleaf.step hstep
  have hswaps : Config.Swaps y (o.form body) ⟨outer, here ++ [y]⟩
      ⟨outer, here ++ [o.form body]⟩ := .here (.last here)
  obtain ⟨⟨outer', forms⟩, hafter', hswap⟩ := hafter.swaps hswaps
  cases hswap with
  | here hswap =>
    have hinside := hbody.steps hinner ((o, here) :: outer) []
    have hrest := hinside.append (.cons (.shuts hshuts) hafter')
    exact ⟨forms, (hbefore.append (.cons (.opens hopens) hrest)).derived, hswap.symm⟩

end Replacing

/-- A tag before the pieces of a body. -/
theorem Body.cons_leaf {leaf : Piece} {y : Form} (hleaf : Leaf leaf y) {inner : List Piece}
    (hinner : ∀ r ∈ inner, r.Fit) (hdepth : depthAfter 0 (flat inner) = some 0)
    {forms : List Form} :
    Body (flat (leaf :: inner)) forms ↔ ∃ body, Body (flat inner) body ∧ forms = y :: body := by
  constructor
  · intro h
    have hfit := List.forall_mem_cons.2 ⟨hleaf.fit, hinner⟩
    cases h.steps hfit [] [] with
    | cons hstep hsteps =>
    cases hleaf.step hstep
    obtain ⟨body, hbody, heq⟩ := hsteps.body hdepth
    cases heq
    exact ⟨body, hbody, rfl⟩
  · rintro ⟨body, hbody, rfl⟩
    exact .cons hleaf.entry hbody

end Grammar

/-! ## Acceptance -/

namespace Form

open Grammar (Opened)

theorem extended?_of_placed {form : Form} (h : form.Placed) : form.extended? = none := by
  cases form with
  | «extends» => simp only [Placed] at h
  | _ => rfl

/-- A placed body has no `extends` tag at its top level. -/
theorem content_of_placed {forms : List Form} (h : AllPlaced forms) :
    content forms = forms ∧ extensions forms = [] := by
  induction forms with
  | nil => exact ⟨rfl, rfl⟩
  | cons form rest ih =>
    rw [allPlaced_cons] at h
    obtain ⟨hcontent, hextensions⟩ := ih h.2
    have hform := extended?_of_placed h.1
    unfold content extensions at *
    rw [List.filter_cons, List.filterMap_cons, hform, hcontent, hextensions]
    exact ⟨rfl, rfl⟩

theorem content_of_extensions {forms : List Form} (h : extensions forms = []) :
    content forms = forms := by
  unfold content extensions at *
  rw [List.filterMap_eq_nil_iff] at h
  rw [List.filter_eq_self]
  intro form hform
  rw [h form hform]
  rfl

/-- A source that starts with an `extends` tag is accepted if the rest may be the body of an
    embed. -/
theorem accepted_extends {target : Term} {body : List Form} :
    Accepted (.«extends» target :: body) ↔ AllPlaced body ∧ OnlyBlocks body := by
  have hcontent : content (.«extends» target :: body) = content body := rfl
  have hextensions : extensions (.«extends» target :: body) = target :: extensions body := rfl
  constructor
  · rintro ⟨hplaced, hsingle, houtside⟩
    rw [hcontent] at hplaced houtside
    rw [hextensions] at hsingle houtside
    have hnone : extensions body = [] := by
      rw [List.length_cons] at hsingle
      exact List.length_eq_zero_iff.1 (by omega)
    rw [content_of_extensions hnone] at hplaced houtside
    exact ⟨hplaced, houtside (List.cons_ne_nil _ _)⟩
  · rintro ⟨hplaced, honly⟩
    obtain ⟨hsame, hnone⟩ := content_of_placed hplaced
    refine ⟨?_, ?_, fun _ => ?_⟩
    · rw [hcontent, hsame]
      exact hplaced
    · rw [hextensions, hnone]
      exact Nat.le_refl 1
    · rw [hcontent, hsame]
      exact honly

namespace Swap

variable {target : Term} {options : Options} {body : List Form} {target' : Term}
  {options' : Options} {forms forms' : List Form}

theorem allowedOutside_form (o : Opened) (body body' : List Form) :
    (o.form body).allowedOutside = (o.form body').allowedOutside := by cases o <;> rfl

theorem onlyBlocks
    (h : Swap (.embed target options body) (.«include» target' options') forms forms') :
    OnlyBlocks forms ↔ OnlyBlocks forms' := by
  induction h with
  | here rest => rw [onlyBlocks_cons, onlyBlocks_cons]; rfl
  | later form _ ih => rw [onlyBlocks_cons, onlyBlocks_cons, ih]
  | @inside o rest body body' _ _ =>
    rw [onlyBlocks_cons, onlyBlocks_cons, allowedOutside_form o body body']

theorem allPlaced
    (h : Swap (.embed target options body) (.«include» target' options') forms forms') :
    AllPlaced forms ↔ AllPlaced forms' ∧ AllPlaced body ∧ OnlyBlocks body := by
  induction h with
  | here rest =>
    simp only [allPlaced_cons, Placed, true_and]
    exact and_comm
  | later form _ ih => rw [allPlaced_cons, allPlaced_cons, ih, and_assoc]
  | inside o rest hbody ih =>
    cases o with
    | block name =>
      simp only [Opened.form, allPlaced_cons, Placed, ih]
      tauto
    | embed target options =>
      simp only [Opened.form, allPlaced_cons, Placed, ih, hbody.onlyBlocks]
      tauto

theorem content
    (h : Swap (.embed target options body) (.«include» target' options') forms forms') :
    Swap (.embed target options body) (.«include» target' options') (Form.content forms)
      (Form.content forms') := by
  unfold Form.content
  induction h with
  | here rest => exact .here _
  | later form _ ih =>
    rw [List.filter_cons, List.filter_cons]
    split
    · exact .later form ih
    · exact ih
  | inside o rest hbody _ => cases o <;> exact .inside _ _ hbody

theorem extensions
    (h : Swap (.embed target options body) (.«include» target' options') forms forms') :
    Form.extensions forms = Form.extensions forms' := by
  unfold Form.extensions
  induction h with
  | here rest => rfl
  | later form _ ih => rw [List.filterMap_cons, List.filterMap_cons, ih]
  | inside o rest _ _ => cases o <;> rfl

/-- A source with an embed is accepted exactly if the source is that has an include in its place, and
    the source that has the body of the embed behind an `extends` tag. -/
theorem accepted
    (h : Swap (.embed target options body) (.«include» target' options') forms forms')
    (parent : Term) :
    Accepted forms ↔ Accepted forms' ∧ Accepted (.«extends» parent :: body) := by
  rw [accepted_extends]
  constructor
  · rintro ⟨hplaced, hsingle, houtside⟩
    obtain ⟨hplaced', hbody⟩ := h.content.allPlaced.1 hplaced
    rw [h.extensions] at hsingle houtside
    exact ⟨⟨hplaced', hsingle, fun hne => h.content.onlyBlocks.1 (houtside hne)⟩, hbody⟩
  · rintro ⟨⟨hplaced, hsingle, houtside⟩, hbody⟩
    rw [← h.extensions] at hsingle houtside
    exact ⟨h.content.allPlaced.2 ⟨hplaced, hbody⟩, hsingle,
      fun hne => h.content.onlyBlocks.2 (houtside hne)⟩

end Swap

end Form

end Stencil
