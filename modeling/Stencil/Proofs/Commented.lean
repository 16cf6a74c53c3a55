import Stencil.Proofs.Forgiving
import Stencil.Proofs.Moving
import Stencil.Proofs.Splitting

/-!
# Templates with comments

Comments are transparent. A comment may keep two texts apart that would be one without it, and it
moves what stands behind it. The built-in pass joins the texts again, at every depth, so the trees
of both sources differ in their places alone once it has run; and places appear in failures only. So
where the template with the comment is rendered to a text, the template without it is rendered to
the same text, and the other way round.

Results:
* `Node.joinText_joinText`: joining two texts one after the other, and both at once.
* `Item.assembleAll_split`, `Syntax.Resplit.merged`: trees of items whose texts are split elsewhere.
* `Engine.renderTemplate_of_resplit`: rendering such trees.
* `Engine.render_commented`: rendering with a comment and without it.
-/

namespace Stencil

open Node Override

theorem Clauses.forgives_of_options {clauses clauses' : Clauses}
    (h : clauses.options = clauses'.options) : clauses.Forgives anywhere clauses' where
  ignoreMissing hignore := (congrArg Options.ignoreMissing h).symm.trans hignore
  bindings := Expr.moved_of_map_term (congrArg Options.bindings h)
  only := congrArg Options.only h

/-! ## Merging -/

/-- Two texts in front of a body with merged texts are joined to one, wherever that stands. -/
theorem Node.joinText_joinText (first second : Span) (front back : String) (merged : List Node) :
    ∃ span, joinText first front (joinText second back merged) =
      joinText span (front ++ back) merged := by
  by_cases hfront : front = ""
  · subst hfront
    exact ⟨second, by rw [String.empty_append]; rfl⟩
  by_cases hback : back = ""
  · subst hback
    exact ⟨first, by rw [String.append_empty]; rfl⟩
  have hboth : front ++ back ≠ "" := fun h => hfront (String.append_eq_empty_iff.1 h).1
  refine ⟨first.upTo second, ?_⟩
  unfold joinText
  simp only [String.isEmpty_iff, hfront, hback, hboth, if_false]
  cases merged with
  | nil => rfl
  | cons node others => cases node <;> simp [Span.upTo, String.append_assoc]

/-- The nodes of a body after the built-in pass. -/
def Node.mergedAll (nodes : List Node) : List Node := mergeText (changeAll mergeNode nodes)

/-! ## Assembling -/

namespace Tree.CorrespondAll

variable {r : Correspondence} {trees trees' : List Tree}

theorem length (h : CorrespondAll r trees trees') : trees.length = trees'.length := by
  induction trees generalizing trees' with
  | nil => cases h; rfl
  | cons tree rest ih =>
    cases h with
    | cons _ hrest => rw [List.length_cons, List.length_cons, ih hrest]

theorem append {more more' : List Tree} (h : CorrespondAll r trees trees')
    (hmore : CorrespondAll r more more') : CorrespondAll r (trees ++ more) (trees' ++ more') := by
  induction trees generalizing trees' with
  | nil => cases h; exact hmore
  | cons tree rest ih =>
    cases h with
    | cons htree hrest => exact .cons htree (ih hrest)

end Tree.CorrespondAll

/-- Drafts with the same embedded trees after the built-in pass, up to places. -/
def Draft.Matches (d d' : Draft) : Prop :=
  Tree.CorrespondAll (forgiving anywhere) (Tree.changeAll mergeTree mergeNode d.embedded)
    (Tree.changeAll mergeTree mergeNode d'.embedded)

theorem Draft.Matches.length {d d' : Draft} (h : d.Matches d') :
    d.embedded.length = d'.embedded.length := by
  have hlength := Tree.CorrespondAll.length h
  rwa [Tree.changeAll_eq_map, Tree.changeAll_eq_map, List.length_map, List.length_map] at hlength

theorem Draft.Matches.push {d d' : Draft} (h : d.Matches d') {tree tree' : Tree}
    (htree : tree.merged.Forgives anywhere tree'.merged) :
    Matches { d with embedded := d.embedded ++ [tree] }
      { d' with embedded := d'.embedded ++ [tree'] } := by
  have hlast : ∀ (trees : List Tree) (tree : Tree),
      Tree.changeAll mergeTree mergeNode (trees ++ [tree]) =
        Tree.changeAll mergeTree mergeNode trees ++ [tree.merged] := by
    intro trees tree
    rw [Tree.changeAll_eq_map, Tree.changeAll_eq_map, List.map_append]
    rfl
  unfold Matches
  rw [hlast, hlast]
  exact Tree.CorrespondAll.append h (.cons htree .nil)

/-- Nodes with a draft that are the same after the built-in pass, up to places. -/
structure AssembledAlike (p p' : List Node × Draft) : Prop where
  nodes : Node.Forgives anywhere (mergedAll p.1) (mergedAll p'.1)
  draft : p.2.Matches p'.2

namespace AssembledAlike

open Item (assembleAll)

variable {name : String} {span span' : Span} {rest rest' : List Item} {d d' : Draft}

theorem text (h : AssembledAlike (assembleAll name rest d) (assembleAll name rest' d'))
    (content : String) :
    AssembledAlike (assembleAll name (.text span content :: rest) d)
      (assembleAll name (.text span' content :: rest') d') := by
  simp only [assembleAll, Item.assemble]
  exact ⟨h.nodes.joinText span span' content, h.draft⟩

theorem print {e e' : Expr} (he : e.Moved anywhere e')
    (h : AssembledAlike (assembleAll name rest d) (assembleAll name rest' d')) :
    AssembledAlike (assembleAll name (.print span e :: rest) d)
      (assembleAll name (.print span' e' :: rest') d') := by
  simp only [assembleAll, Item.assemble]
  exact ⟨.print he h.nodes, h.draft⟩

theorem block {inner inner' : List Item} (blockName : String)
    (hbody : AssembledAlike (assembleAll name inner d) (assembleAll name inner' d'))
    (h : AssembledAlike (assembleAll name rest (assembleAll name inner d).2)
      (assembleAll name rest' (assembleAll name inner' d').2)) :
    AssembledAlike (assembleAll name (.block span blockName inner :: rest) d)
      (assembleAll name (.block span' blockName inner' :: rest') d') := by
  simp only [assembleAll, Item.assemble]
  exact ⟨.block hbody.nodes h.nodes, h.draft⟩

theorem «include» {target target' : Expr} {clauses clauses' : Clauses}
    (htarget : target.Moved anywhere target') (hclauses : clauses.Forgives anywhere clauses')
    (h : AssembledAlike (assembleAll name rest d) (assembleAll name rest' d')) :
    AssembledAlike (assembleAll name (.«include» span target clauses :: rest) d)
      (assembleAll name (.«include» span' target' clauses' :: rest') d') := by
  simp only [assembleAll, Item.assemble]
  exact ⟨.«include» ⟨trivial, .named htarget, hclauses⟩ h.nodes, h.draft⟩

/-- An embed adds a tree to the draft. Both trees have the same index, since there are as many trees
    before the one as before the other. -/
theorem embed {target target' : Expr} {clauses clauses' : Clauses} {inner inner' : List Item}
    (htarget : target.Moved anywhere target') (hclauses : clauses.Forgives anywhere clauses')
    (hbody : AssembledAlike (assembleAll name inner d) (assembleAll name inner' d'))
    (h : ∀ {e e' : Draft}, e.Matches e' →
      AssembledAlike (assembleAll name rest e) (assembleAll name rest' e')) :
    AssembledAlike (assembleAll name (.embed span target clauses inner :: rest) d)
      (assembleAll name (.embed span' target' clauses' inner' :: rest') d') := by
  simp only [assembleAll, Item.assemble]
  generalize assembleAll name inner d = p at hbody
  generalize assembleAll name inner' d' = p' at hbody
  -- The check of the body adds faults only, and these are not compared.
  have hchecked : (p.2.checkBody p.1).Matches (p'.2.checkBody p'.1) := hbody.draft
  have htree : (Tree.merged ⟨name, some target, p.1, [], some p.2.embedded.length⟩).Forgives
      anywhere (Tree.merged ⟨name, some target', p'.1, [], some p'.2.embedded.length⟩) := by
    rw [hbody.draft.length]
    exact .intro (.some htarget) hbody.nodes .nil
  have hinclude : (forgiving anywhere).«include» span (.embedded name p.2.embedded.length) clauses
      span' (.embedded name p'.2.embedded.length) clauses' := by
    rw [hbody.draft.length]
    exact ⟨trivial, .embedded _ _, hclauses⟩
  have hrest := h (hchecked.push htree)
  exact ⟨.«include» hinclude hrest.nodes, hrest.draft⟩

/-- A text and its halves. -/
theorem split {span'' : Span} (front back : String)
    (h : AssembledAlike (assembleAll name rest d) (assembleAll name rest' d')) :
    AssembledAlike (assembleAll name (.text span (front ++ back) :: rest) d)
      (assembleAll name (.text span' front :: .text span'' back :: rest') d') := by
  simp only [assembleAll, Item.assemble]
  obtain ⟨joined, hjoined⟩ := joinText_joinText span' span'' front back
    (mergedAll (assembleAll name rest' d').1)
  have hnodes := h.nodes.joinText span joined (front ++ back)
  rw [← hjoined] at hnodes
  exact ⟨hnodes, h.draft⟩

theorem join {span'' : Span} (front back : String)
    (h : AssembledAlike (assembleAll name rest d) (assembleAll name rest' d')) :
    AssembledAlike (assembleAll name (.text span front :: .text span' back :: rest) d)
      (assembleAll name (.text span'' (front ++ back) :: rest') d') := by
  simp only [assembleAll, Item.assemble]
  obtain ⟨joined, hjoined⟩ := joinText_joinText span span' front back
    (mergedAll (assembleAll name rest d).1)
  have hnodes := h.nodes.joinText joined span'' (front ++ back)
  rw [← hjoined] at hnodes
  exact ⟨hnodes, h.draft⟩

end AssembledAlike

namespace Item

theorem forms_eq_nil {items : List Item} (h : forms items = []) : items = [] := by
  cases items with
  | nil => rfl
  | cons item rest => simp [forms] at h

/-- Items whose texts are split elsewhere are assembled alike. -/
theorem assembleAll_split (name : String) {forms forms' : List Form} (h : Form.Split forms forms')
    {items items' : List Item} (hitems : Item.forms items = forms)
    (hitems' : Item.forms items' = forms') {d d' : Draft} (hd : d.Matches d') :
    AssembledAlike (assembleAll name items d) (assembleAll name items' d') := by
  induction h generalizing items items' d d' with
  | nil =>
    obtain rfl := forms_eq_nil hitems
    obtain rfl := forms_eq_nil hitems'
    simp only [assembleAll]
    exact ⟨.nil, hd⟩
  | text content _ ih =>
    obtain ⟨item, others, rfl, hitem, hrest⟩ := forms_eq_cons hitems
    obtain ⟨item', others', rfl, hitem', hrest'⟩ := forms_eq_cons hitems'
    obtain ⟨span, rfl⟩ := form_eq_text hitem
    obtain ⟨span', rfl⟩ := form_eq_text hitem'
    exact (ih hrest hrest' hd).text content
  | print expr _ ih =>
    obtain ⟨item, others, rfl, hitem, hrest⟩ := forms_eq_cons hitems
    obtain ⟨item', others', rfl, hitem', hrest'⟩ := forms_eq_cons hitems'
    obtain ⟨span, given, rfl, hgiven⟩ := form_eq_print hitem
    obtain ⟨span', given', rfl, hgiven'⟩ := form_eq_print hitem'
    exact .print (Expr.moved_of_term (hgiven.trans hgiven'.symm)) (ih hrest hrest' hd)
  | «include» target options _ ih =>
    obtain ⟨item, others, rfl, hitem, hrest⟩ := forms_eq_cons hitems
    obtain ⟨item', others', rfl, hitem', hrest'⟩ := forms_eq_cons hitems'
    obtain ⟨span, given, clauses, rfl, hgiven, hclauses⟩ := form_eq_include hitem
    obtain ⟨span', given', clauses', rfl, hgiven', hclauses'⟩ := form_eq_include hitem'
    exact .«include» (Expr.moved_of_term (hgiven.trans hgiven'.symm))
      (Clauses.forgives_of_options (hclauses.trans hclauses'.symm)) (ih hrest hrest' hd)
  | «extends» parent _ ih =>
    obtain ⟨item, others, rfl, hitem, hrest⟩ := forms_eq_cons hitems
    obtain ⟨item', others', rfl, hitem', hrest'⟩ := forms_eq_cons hitems'
    obtain ⟨span, given, rfl, -⟩ := form_eq_extends hitem
    obtain ⟨span', given', rfl, -⟩ := form_eq_extends hitem'
    simp only [assembleAll, assemble]
    exact ih hrest hrest' hd
  | inside o _ _ ihBody ih =>
    obtain ⟨item, others, rfl, hitem, hrest⟩ := forms_eq_cons hitems
    obtain ⟨item', others', rfl, hitem', hrest'⟩ := forms_eq_cons hitems'
    cases o with
    | block block =>
      obtain ⟨span, inner, rfl, hinner⟩ := form_eq_block hitem
      obtain ⟨span', inner', rfl, hinner'⟩ := form_eq_block hitem'
      have hbody := ihBody hinner hinner' hd
      exact .block block hbody (ih hrest hrest' hbody.draft)
    | embed target options =>
      obtain ⟨span, given, clauses, inner, rfl, hgiven, hclauses, hinner⟩ := form_eq_embed hitem
      obtain ⟨span', given', clauses', inner', rfl, hgiven', hclauses', hinner'⟩ :=
        form_eq_embed hitem'
      exact .embed (Expr.moved_of_term (hgiven.trans hgiven'.symm))
        (Clauses.forgives_of_options (hclauses.trans hclauses'.symm)) (ihBody hinner hinner' hd)
        (ih hrest hrest')
  | split front back _ ih =>
    obtain ⟨item, others, rfl, hitem, hrest⟩ := forms_eq_cons hitems
    obtain ⟨first, more, rfl, hfirst, hmore⟩ := forms_eq_cons hitems'
    obtain ⟨second, others', rfl, hsecond, hrest'⟩ := forms_eq_cons hmore
    obtain ⟨span, rfl⟩ := form_eq_text hitem
    obtain ⟨span', rfl⟩ := form_eq_text hfirst
    obtain ⟨span'', rfl⟩ := form_eq_text hsecond
    exact .split front back (ih hrest hrest' hd)
  | join front back _ ih =>
    obtain ⟨first, more, rfl, hfirst, hmore⟩ := forms_eq_cons hitems
    obtain ⟨second, others, rfl, hsecond, hrest⟩ := forms_eq_cons hmore
    obtain ⟨item', others', rfl, hitem', hrest'⟩ := forms_eq_cons hitems'
    obtain ⟨span, rfl⟩ := form_eq_text hfirst
    obtain ⟨span', rfl⟩ := form_eq_text hsecond
    obtain ⟨span'', rfl⟩ := form_eq_text hitem'
    exact .join front back (ih hrest hrest' hd)

/-! ### At the top level -/

mutual

/-- What an item is assembled to does not depend on the faults found so far. -/
theorem assemble_of_embedded (name : String) : ∀ (item : Item) {d d' : Draft},
    d.embedded = d'.embedded → (assemble name item d).1 = (assemble name item d').1 ∧
      (assemble name item d).2.embedded = (assemble name item d').2.embedded
  | .text .., _, _, h | .print .., _, _, h | .«include» .., _, _, h | .«extends» .., _, _, h => by
    simp only [assemble]
    exact ⟨trivial, h⟩
  | .block _ _ body, _, _, h => by
    obtain ⟨hnodes, hembedded⟩ := assembleAll_of_embedded name body h
    simp only [assemble, hnodes]
    exact ⟨trivial, hembedded⟩
  | .embed _ _ _ body, _, _, h => by
    obtain ⟨hnodes, hembedded⟩ := assembleAll_of_embedded name body h
    simp only [assemble, Draft.checkBody, hnodes, hembedded]
    exact ⟨trivial, trivial⟩

theorem assembleAll_of_embedded (name : String) : ∀ (items : List Item) {d d' : Draft},
    d.embedded = d'.embedded → (assembleAll name items d).1 = (assembleAll name items d').1 ∧
      (assembleAll name items d).2.embedded = (assembleAll name items d').2.embedded
  | [], _, _, h => by
    simp only [assembleAll]
    exact ⟨trivial, h⟩
  | item :: rest, _, _, h => by
    obtain ⟨hnode, hitem⟩ := assemble_of_embedded name item h
    obtain ⟨hnodes, hrest⟩ := assembleAll_of_embedded name rest hitem
    simp only [assembleAll, hnode, hnodes]
    exact ⟨trivial, hrest⟩

end

/-- The items at the top level are assembled as those of a body are, but for the faults. -/
theorem assembleTop_eq (name : String) (parent : Option Expr) (items : List Item) {d d' : Draft}
    (h : d.embedded = d'.embedded) :
    (assembleTop name parent items d).1.2 = (assembleAll name items d').1 ∧
      (assembleTop name parent items d).2.embedded = (assembleAll name items d').2.embedded := by
  induction items generalizing parent d d' with
  | nil =>
    simp only [assembleTop, assembleAll]
    exact ⟨trivial, h⟩
  | cons item rest ih =>
    cases hitem : item.extended? with
    | none =>
      obtain ⟨hnode, hembedded⟩ := assemble_of_embedded name item h
      obtain ⟨hnodes, hrest⟩ := ih parent hembedded
      rw [assembleTop_content name parent hitem, assembleAll, hnode, hnodes]
      exact ⟨rfl, hrest⟩
    | some expr =>
      cases item with
      | «extends» span other =>
        simp only [assembleAll, assemble]
        cases parent with
        | none => exact ih (some other) h
        | some first => exact ih (some first) h
      | _ => cases hitem

end Item

/-! ## Trees -/

/-- The extended template of items with the same extensions. -/
theorem Item.extended_of_forms {items items' : List Item}
    (h : Form.extensions (forms items) = Form.extensions (forms items')) :
    Option.Rel (Expr.Moved anywhere) (items.findSome? extended?) (items'.findSome? extended?) := by
  rw [extensions_forms, extensions_forms] at h
  refine Expr.moved_of_map_term ?_
  rw [← List.head?_filterMap, ← List.head?_filterMap, ← List.head?_map, ← List.head?_map, h]

/-- The tree of a source, and the tree of a source whose texts are split elsewhere, after the
    built-in pass. -/
theorem Syntax.Resplit.merged {source source' : List Char} (h : Syntax.Resplit source source')
    {name : String} {tree tree' : Tree} (htree : Tree.parse name source = .ok tree)
    (htree' : Tree.parse name source' = .ok tree') :
    tree.merged.Forgives anywhere tree'.merged := by
  obtain ⟨items, hitems, htree⟩ := Tree.parse_ok htree
  obtain ⟨items', hitems', htree'⟩ := Tree.parse_ok htree'
  obtain ⟨forms', hforms', hsplit⟩ := h _ (standsFor_iff.2 ⟨items, hitems, rfl⟩)
  obtain rfl := hforms'.unique (standsFor_iff.2 ⟨items', hitems', rfl⟩)
  obtain ⟨rfl, -⟩ := Tree.ofItems_ok htree
  obtain ⟨rfl, -⟩ := Tree.ofItems_ok htree'
  obtain ⟨-, -, hparent, -⟩ := Item.assembleTop_stands name none items {}
  obtain ⟨-, -, hparent', -⟩ := Item.assembleTop_stands name none items' {}
  have hempty : Draft.Matches {} {} := .nil
  obtain ⟨hnodes, hembedded⟩ := Item.assembleAll_split name hsplit rfl rfl hempty
  have htop := Item.assembleTop_eq name none items (Eq.refl (Draft.embedded {}))
  have htop' := Item.assembleTop_eq name none items' (Eq.refl (Draft.embedded {}))
  rw [hparent, hparent', htop.1, htop.2, htop'.1, htop'.2, Option.none_or, Option.none_or]
  exact .intro (Item.extended_of_forms hsplit.extensions) hnodes hembedded

namespace Tree

variable {place : Span → Span → Prop} {tree tree' : Tree}

/-- The passes after the built-in one respect what belongs together once it has run. -/
theorem compiled_of_merged (h : tree.merged.Forgives place tree'.merged) (overridden : Bool) :
    (tree.compiled overridden).Forgives place (tree'.compiled overridden) := by
  cases overridden with
  | false => exact h
  | true => exact Corresponds.change respects_route tree.merged h

theorem refused?_merged (overridden : Bool) (tree : Tree) :
    tree.merged.refused? overridden = tree.refused? overridden := by
  unfold refused?
  rw [tags_merged]

end Tree

/-! ## Rendering -/

namespace Engine

variable {m : Type → Type} [Monad m] {τ : Type} [Runs m τ] {e : Engine m}

/-- An engine finds templates, functions and what is kept as it finds them itself. -/
theorem host_tracks_self : e.host.Tracks anywhere (Eq (α := Cache × τ)) (Tree.Forgives anywhere)
    e.host where
  settings := rfl
  function := Host.functions_follow rfl
  has name := .same _
  load name := by
    rintro s _ rfl r s' hload
    refine .inr ⟨r, s', hload, rfl, ?_⟩
    cases r with
    | ok tree => exact .ok (tree.forgives_self fun _ => trivial)
    | error failure => exact .error (.same failure)

section Sources

variable {overridden : Bool} (he : e.passes = standardPasses overridden) {name : String}
  {source source' : String} (h : Syntax.Resplit source.toList source'.toList)

include he h

/-- A source whose texts are split elsewhere is compiled too. -/
theorem compile_of_resplit {s : τ}
    (hcompile : ∃ t, outcome (e.compile name source) s = some (.ok t, s)) :
    ∃ t, outcome (e.compile name source') s = some (.ok t, s) := by
  obtain ⟨t, ht⟩ := hcompile
  obtain ⟨tree, htree, -, -⟩ := compile_ok he ht
  obtain ⟨tree', htree'⟩ := h.accepts ⟨tree, htree⟩
  have hrefused := (h.merged htree htree').refused? overridden
  rw [Tree.refused?_merged, Tree.refused?_merged] at hrefused
  rw [outcome_compile_eq he htree s] at ht
  rw [outcome_compile_eq he htree' s]
  revert hrefused ht
  generalize tree.refused? overridden = fault
  generalize tree'.refused? overridden = fault'
  intro ht hrefused
  cases hrefused with
  | none => exact ⟨_, rfl⟩
  | some => cases ht

/-- A text that is rendered from a source is rendered from a source whose texts are split elsewhere
    as well. -/
theorem renderTemplate_of_resplit {s s' u u' : τ} {t t' : Template}
    (ht : outcome (e.compile name source) s = some (.ok t, u))
    (ht' : outcome (e.compile name source') s' = some (.ok t', u')) {context : Context}
    {before after : Cache × τ} {output : String}
    (hrun : run (e.renderTemplate t context) before = some (.ok output, after)) :
    run (e.renderTemplate t' context) before = some (.ok output, after) := by
  obtain ⟨tree, htree, -, rfl⟩ := compile_ok he ht
  obtain ⟨tree', htree', -, rfl⟩ := compile_ok he ht'
  have hcompiled := Tree.compiled_of_merged (h.merged htree htree') overridden
  have hrender :=
    (Host.forgives (host_tracks_self (e := e) (τ := τ))).render e.patience hcompiled context
  obtain ⟨_, herror, -⟩ | ⟨r, after', hrun', rfl, hends⟩ := hrender rfl hrun
  · cases herror
  · cases hends with
    | ok heq => rw [heq]; exact hrun'

end Sources

/-- A source with a comment between two of its parts. -/
def commented (front comment back : String) : String :=
  front ++ "\x7b#" ++ comment ++ "#\x7d" ++ back

theorem toList_commented (front comment back : String) :
    (commented front comment back).toList =
      front.toList ++ (Syntax.Delimiter.comment.enclose comment.toList ++ back.toList) := by
  simp [commented, Syntax.Delimiter.enclose, Syntax.Delimiter.inner, Syntax.Delimiter.closing]

/-- Comments are transparent. Where the part of a source before a comment has tokens and does not
    end in a brace, the source is accepted with the comment exactly if it is without it, and so it
    is compiled. Both of them render the same texts: in every context, over every store, with any
    functions, settings and patience, with and without the hooks of a chain, from whatever is kept
    before, and leaving the same behind. -/
theorem render_commented {overridden : Bool} (he : e.passes = standardPasses overridden)
    {a b c : String} {ls : List Lexeme} (hlexemes : Syntax.lexemes a.toList = .ok ls)
    (hbrace : a.toList.getLast? ≠ some '\x7b') (hcomment : ¬ ['#', '\x7d'] <:+: c.toList)
    (name : String) :
    ((∃ tree, Tree.parse name (a ++ b).toList = .ok tree) ↔
      ∃ tree, Tree.parse name (commented a c b).toList = .ok tree) ∧
    (∀ s : τ, (∃ t, outcome (e.compile name (a ++ b)) s = some (.ok t, s)) ↔
      ∃ t, outcome (e.compile name (commented a c b)) s = some (.ok t, s)) ∧
    ∀ {s s' u u' : τ} {t t' : Template},
      outcome (e.compile name (a ++ b)) s = some (.ok t, u) →
      outcome (e.compile name (commented a c b)) s' = some (.ok t', u') →
      ∀ (context : Context) (before after : Cache × τ) (output : String),
        run (e.renderTemplate t context) before = some (.ok output, after) ↔
          run (e.renderTemplate t' context) before = some (.ok output, after) := by
  obtain ⟨hresplit, hresplit'⟩ := Syntax.resplit_commented hlexemes hbrace hcomment b.toList
  rw [← toList_commented, ← String.toList_append] at hresplit hresplit'
  refine ⟨⟨hresplit.accepts, hresplit'.accepts⟩, fun s => ?_, fun ht ht' context before after
    output => ?_⟩
  · exact ⟨compile_of_resplit he hresplit, compile_of_resplit he hresplit'⟩
  · exact ⟨renderTemplate_of_resplit he hresplit ht ht',
      renderTemplate_of_resplit he hresplit' ht' ht⟩

/-- An engine whose chain renames the template that is included. -/
def memoEngine : Engine Id :=
  overriding (Loader.memory [("closing", "Yours")]) {} [] 0 ⟨[.table [("greeting", "closing")]]⟩

/-- A memo, which a comment in the middle of a word cuts in two. -/
def memoFront : String := "Dear " ++ tag " block who " ++ "fri"

/-- What stands behind the comment. -/
def memoBack : String := "end" ++ tag " endblock " ++ ", " ++ tag " include 'greeting' "

/-- The template of a source, if it is compiled. -/
def memoOf (source : String) : Template :=
  ((memoEngine.compile "memo" source).run.toOption).getD default

theorem outcome_memoOf {source : String}
    (h : (memoEngine.compile "memo" source).run.toOption.isSome = true) :
    outcome (memoEngine.compile "memo" source) () = some (.ok (memoOf source), ()) := by
  change some ((memoEngine.compile "memo" source).run, ()) = _
  unfold memoOf
  revert h
  generalize (memoEngine.compile "memo" source).run = result
  intro h
  cases result with
  | error failure => cases h
  | ok t => rfl

/-- A comment inside the text of a block, under a chain that renames an included template. -/
theorem render_commented_memo : ∃ after,
    run (memoEngine.renderTemplate (memoOf (memoFront ++ memoBack)) []) ([], ()) =
      some (.ok "Dear friend, Yours", after) ∧
    run (memoEngine.renderTemplate
      (memoOf (commented memoFront " or colleague? " memoBack)) []) ([], ()) =
      some (.ok "Dear friend, Yours", after) := by
  have hlexemes : Syntax.lexemes memoFront.toList =
      .ok [⟨.text "Dear ", ⟨0, 5⟩⟩, ⟨.tagOpen, ⟨5, 7⟩⟩, ⟨.keyword .block, ⟨8, 13⟩⟩,
        ⟨.ident "who", ⟨14, 17⟩⟩, ⟨.tagClose, ⟨18, 20⟩⟩, ⟨.text "fri", ⟨20, 23⟩⟩] := by
    decide +kernel
  have hplain : outcome (memoEngine.compile "memo" (memoFront ++ memoBack)) () =
      some (.ok (memoOf (memoFront ++ memoBack)), ()) := outcome_memoOf (by decide +kernel)
  have hcommented : outcome (memoEngine.compile "memo"
      (commented memoFront " or colleague? " memoBack)) () =
      some (.ok (memoOf (commented memoFront " or colleague? " memoBack)), ()) :=
    outcome_memoOf (by decide +kernel)
  have htransparent := (render_commented (overriding_passes _ _ _ _ _) hlexemes (by decide)
    (by decide +kernel) "memo").2.2 hplain hcommented
  -- The compiled template is made a variable, so that rendering is evaluated once.
  revert hplain htransparent
  generalize ht : memoOf (memoFront ++ memoBack) = t
  intro hplain htransparent
  have hresult : ((memoEngine.renderTemplate t []).run []).1 = .ok "Dear friend, Yours" := by
    rw [← ht]
    decide +kernel
  have hrun : run (memoEngine.renderTemplate t []) ([], ()) =
      some (.ok "Dear friend, Yours", ((memoEngine.renderTemplate t []).run []).2, ()) := by
    rw [← hresult]
    rfl
  exact ⟨_, hrun, (htransparent [] ([], ()) _ "Dear friend, Yours").1 hrun⟩

end Engine

end Stencil
