import Stencil.Proofs.Joints
import Stencil.Proofs.Swapping

/-!
# Sources whose embeds are extracted

The body of an embed can be taken out of a source. An `include` tag takes the place of the embed and
of its body; it names a new template, whose source is an `extends` tag for what was embedded,
followed by the body. The source with the embed is accepted exactly if both of the others are.

Results:
* `Syntax.standsFor_iff`, `Tree.parse_ok_iff_standsFor`: the forms of a source, and which sources
  make a tree.
* `Syntax.pieced_append`: the pieces of a source that is cut at a tag.
* `Extraction.split`, `Extraction.join`: the forms of the three sources.
* `Extraction.parse_ok_iff`: which of them make trees.
-/

namespace Stencil

open Grammar (Body flat)
open Form (Swap)

/-! ## Sources as pieces -/

namespace Syntax

/-- The forms that a source stands for. -/
def StandsFor (source : List Char) (forms : List Form) : Prop :=
  ∃ ts, tokensOf source = some ts ∧ Body ts forms

/-- The texts and the tags of a source. -/
def Pieced (source : List Char) (ps : List Grammar.Piece) : Prop :=
  (∀ p ∈ ps, p.Fit) ∧ tokensOf source = some (flat ps)

/-- The items of a source have the forms that it stands for. -/
theorem standsFor_iff {source : List Char} {forms : List Form} :
    StandsFor source forms ↔ ∃ items, parseItems source = .ok items ∧ Item.forms items = forms := by
  unfold StandsFor tokensOf parseItems
  cases lexemes source with
  | error fault =>
    constructor
    · rintro ⟨ts, ⟨⟩, -⟩
    · rintro ⟨items, ⟨⟩, -⟩
  | ok ls =>
    constructor
    · rintro ⟨_, ⟨⟩, hbody⟩
      have hread := itemsOf_of_derivation hbody (Text.utf8Length source)
      change ∃ items, itemsOf ls (Text.utf8Length source) = .ok items ∧ _
      cases hitems : itemsOf ls (Text.utf8Length source) with
      | error fault =>
        rw [hitems] at hread
        cases hread
      | ok items =>
        rw [hitems] at hread
        exact ⟨items, rfl, Except.ok.inj hread⟩
    · rintro ⟨items, hitems, rfl⟩
      have hfound : itemsOf ls (Text.utf8Length source) = .ok items := hitems
      exact ⟨_, rfl, derivation_of_itemsOf hfound⟩

theorem StandsFor.unique {source : List Char} {forms forms' : List Form}
    (h : StandsFor source forms) (h' : StandsFor source forms') : forms = forms' := by
  obtain ⟨ts, hts, hbody⟩ := h
  obtain ⟨ts', hts', hbody'⟩ := h'
  obtain rfl : ts = ts' := Option.some.inj (hts.symm.trans hts')
  exact hbody.unique hbody'

theorem exists_pieced {source : List Char} {ts : List Token} (h : tokensOf source = some ts) :
    ∃ ps, Pieced source ps ∧ flat ps = ts := by
  obtain ⟨ps, hfit, rfl⟩ := Grammar.exists_pieces (bracketed_tokensOf h)
  exact ⟨ps, ⟨hfit, h⟩, rfl⟩

theorem standsFor_iff_pieced {source : List Char} {forms : List Form} :
    StandsFor source forms ↔ ∃ ps, Pieced source ps ∧ Body (flat ps) forms := by
  constructor
  · rintro ⟨ts, hts, hbody⟩
    obtain ⟨ps, hps, rfl⟩ := exists_pieced hts
    exact ⟨ps, hps, hbody⟩
  · rintro ⟨ps, hps, hbody⟩
    exact ⟨_, hps.2, hbody⟩

theorem Pieced.unique {source : List Char} {ps qs : List Grammar.Piece} (hps : Pieced source ps)
    (hqs : Pieced source qs) : ps = qs :=
  Grammar.pieces_unique hps.1 hqs.1 (Option.some.inj (hps.2.symm.trans hqs.2))

/-- What stands in a tag, and the tokens that it is read to. -/
structure Tagged (content : List Char) (code : List Token) : Prop where
  encloses : Delimiter.tag.Encloses content
  tokens : codeTokens content = some code

/-- The pieces of a source that is cut at a tag. -/
theorem pieced_append {front content : List Char} (hfront : Complete front) {code : List Token}
    (htag : Tagged content code) (hcode : Grammar.Coded code) (back : List Char)
    (ps : List Grammar.Piece) :
    Pieced (front ++ (Delimiter.tag.enclose content ++ back)) ps ↔
      ∃ before behind, Pieced front before ∧ Pieced back behind ∧
        ps = before ++ .tag code :: behind := by
  have htokens : tokensOf (front ++ (Delimiter.tag.enclose content ++ back)) =
      (tokensOf front).bind fun before =>
        (tokensOf back).map fun others => before ++ Grammar.tag code ++ others := by
    rw [tokensOf_append hfront htag.encloses, Delimiter.tokens, htag.tokens]
    rfl
  have hpieces : ∀ before behind, Pieced front before → Pieced back behind →
      Pieced (front ++ (Delimiter.tag.enclose content ++ back))
        (before ++ .tag code :: behind) := by
    rintro before behind ⟨hbefore, hfront⟩ ⟨hbehind, hback⟩
    refine ⟨?_, ?_⟩
    · rw [List.forall_mem_append, List.forall_mem_cons]
      exact ⟨hbefore, hcode, hbehind⟩
    · rw [htokens, hfront, hback, Grammar.flat_append, Grammar.flat_cons, Option.bind_some,
        Option.map_some, List.append_assoc]
      rfl
  constructor
  · intro hps
    have hall := hps.2
    rw [htokens] at hall
    obtain ⟨ts, hts, hrest⟩ := Option.bind_eq_some_iff.1 hall
    obtain ⟨us, hus, -⟩ := Option.map_eq_some_iff.1 hrest
    obtain ⟨before, hbefore, -⟩ := exists_pieced hts
    obtain ⟨behind, hbehind, -⟩ := exists_pieced hus
    exact ⟨before, behind, hbefore, hbehind, hps.unique (hpieces before behind hbefore hbehind)⟩
  · rintro ⟨before, behind, hbefore, hbehind, rfl⟩
    exact hpieces before behind hbefore hbehind

theorem pieced_nil : Pieced [] [] := ⟨List.forall_mem_nil _, tokensOf_text rfl⟩

/-- The pieces of a source that starts with a tag. -/
theorem pieced_cons {content : List Char} {code : List Token} (htag : Tagged content code)
    (hcode : Grammar.Coded code) (back : List Char) (ps : List Grammar.Piece) :
    Pieced (Delimiter.tag.enclose content ++ back) ps ↔
      ∃ behind, Pieced back behind ∧ ps = .tag code :: behind := by
  have happend := pieced_append .nil htag hcode back ps
  rw [List.nil_append] at happend
  rw [happend]
  constructor
  · rintro ⟨before, behind, hbefore, hbehind, rfl⟩
    obtain rfl := hbefore.unique pieced_nil
    exact ⟨behind, hbehind, rfl⟩
  · rintro ⟨behind, hbehind, rfl⟩
    exact ⟨[], behind, pieced_nil, hbehind, rfl⟩

end Syntax

open Syntax (StandsFor Pieced Tagged)

/-- A source makes a tree under any name if it stands for forms that are accepted. -/
theorem Tree.parse_ok_iff_standsFor {name : String} {source : List Char} :
    (∃ tree, Tree.parse name source = .ok tree) ↔
      ∃ forms, StandsFor source forms ∧ Form.Accepted forms := by
  rw [Tree.parse_ok_iff]
  constructor
  · rintro ⟨items, hitems, haccepted⟩
    exact ⟨_, Syntax.standsFor_iff.2 ⟨items, hitems, rfl⟩, haccepted⟩
  · rintro ⟨forms, hforms, haccepted⟩
    obtain ⟨items, hitems, rfl⟩ := Syntax.standsFor_iff.1 hforms
    exact ⟨items, hitems, haccepted⟩

/-! ## Extractions -/

/-- A source with an embed, and tags that can take its place. -/
structure Extraction where
  /-- What stands before the embed. -/
  front : List Char
  /-- What stands in the `embed` tag. -/
  embedTag : List Char
  /-- The body of the embed. -/
  body : List Char
  /-- What stands in the tag that ends the embed. -/
  endTag : List Char
  /-- What stands behind the embed. -/
  back : List Char
  /-- What stands in the `include` tag. -/
  includeTag : List Char
  /-- What stands in the `extends` tag. -/
  extendsTag : List Char
  /-- The name of the new template. -/
  fresh : String
  /-- What is embedded. -/
  target : Term
  /-- The clauses of the embed. -/
  options : Options
  targetTokens : List Token
  clauseTokens : List Token
  isTarget : Grammar.Expression targetTokens target
  areClauses : Grammar.Clauses clauseTokens options
  embeds : Tagged embedTag (.keyword .embed :: targetTokens ++ clauseTokens)
  ends : Tagged endTag [.keyword .endEmbed]
  includes : Tagged includeTag (.keyword .«include» :: [.string fresh] ++ clauseTokens)
  extending : Tagged extendsTag (.keyword .«extends» :: targetTokens)
  /-- Nothing is left open before the `embed` tag. -/
  frontComplete : Syntax.Complete front
  /-- Nothing is left open before the tag that ends the embed. -/
  bodyComplete : Syntax.Complete body
  /-- All blocks and embeds that are opened in the body are closed in it. -/
  balanced : ∀ tokens ∈ Syntax.tokensOf body, Grammar.depthAfter 0 tokens = some 0

namespace Extraction

variable (x : Extraction)

/-- The source with the embed. -/
def source : List Char :=
  x.front ++ (Syntax.Delimiter.tag.enclose x.embedTag ++
    (x.body ++ (Syntax.Delimiter.tag.enclose x.endTag ++ x.back)))

/-- The source with an include in its place. -/
def including : List Char :=
  x.front ++ (Syntax.Delimiter.tag.enclose x.includeTag ++ x.back)

/-- The source of the new template. -/
def child : List Char := Syntax.Delimiter.tag.enclose x.extendsTag ++ x.body

/-- The include. -/
def inclusion : Form := .«include» (.constant (.string x.fresh)) x.options

/-! ### Tags -/

theorem opens : Grammar.Opens (.embed x.target x.options)
    (.tag (.keyword .embed :: x.targetTokens ++ x.clauseTokens)) :=
  .embed x.isTarget x.areClauses

theorem shuts : Grammar.Shuts (.embed x.target x.options) (.tag [.keyword .endEmbed]) :=
  .embed x.target x.options

theorem leaf : Grammar.Leaf (.tag (.keyword .«include» :: [.string x.fresh] ++ x.clauseTokens))
    x.inclusion :=
  .«include» (.operand (.atom (.literal (.string x.fresh)))) x.areClauses

theorem leafExtends : Grammar.Leaf (.tag (.keyword .«extends» :: x.targetTokens))
    (.«extends» x.target) :=
  .«extends» x.isTarget

/-! ### Pieces -/

theorem pieced_source (ps : List Grammar.Piece) : Pieced x.source ps ↔
    ∃ front inner back, Pieced x.front front ∧ Pieced x.body inner ∧ Pieced x.back back ∧
      ps = front ++ .tag (.keyword .embed :: x.targetTokens ++ x.clauseTokens) ::
        (inner ++ .tag [.keyword .endEmbed] :: back) := by
  unfold source
  simp only [Syntax.pieced_append x.frontComplete x.embeds x.opens.fit,
    Syntax.pieced_append x.bodyComplete x.ends x.shuts.fit]
  constructor
  · rintro ⟨front, _, hfront, ⟨inner, back, hinner, hback, rfl⟩, rfl⟩
    exact ⟨front, inner, back, hfront, hinner, hback, rfl⟩
  · rintro ⟨front, inner, back, hfront, hinner, hback, rfl⟩
    exact ⟨front, _, hfront, ⟨inner, back, hinner, hback, rfl⟩, rfl⟩

theorem pieced_including (ps : List Grammar.Piece) : Pieced x.including ps ↔
    ∃ front back, Pieced x.front front ∧ Pieced x.back back ∧
      ps = front ++ .tag (.keyword .«include» :: [.string x.fresh] ++ x.clauseTokens) :: back :=
  Syntax.pieced_append x.frontComplete x.includes x.leaf.fit x.back ps

theorem pieced_child (ps : List Grammar.Piece) : Pieced x.child ps ↔
    ∃ inner, Pieced x.body inner ∧ ps = .tag (.keyword .«extends» :: x.targetTokens) :: inner :=
  Syntax.pieced_cons x.extending x.leafExtends.fit x.body ps

/-! ### Forms -/

variable {x}

/-- The new template extends what was embedded. -/
theorem standsFor_child {forms : List Form} : StandsFor x.child forms ↔
    ∃ body, StandsFor x.body body ∧ forms = .«extends» x.target :: body := by
  simp only [Syntax.standsFor_iff_pieced, pieced_child]
  constructor
  · rintro ⟨_, ⟨inner, hinner, rfl⟩, hforms⟩
    obtain ⟨body, hbody, rfl⟩ :=
      (Body.cons_leaf x.leafExtends hinner.1 (x.balanced _ hinner.2)).1 hforms
    exact ⟨body, ⟨inner, hinner, hbody⟩, rfl⟩
  · rintro ⟨body, ⟨inner, hinner, hbody⟩, rfl⟩
    exact ⟨_, ⟨inner, hinner, rfl⟩,
      (Body.cons_leaf x.leafExtends hinner.1 (x.balanced _ hinner.2)).2 ⟨body, hbody, rfl⟩⟩

/-- What the source with the embed stands for, in two parts. -/
theorem split {forms : List Form} (h : StandsFor x.source forms) :
    ∃ body forms', StandsFor x.body body ∧ StandsFor x.including forms' ∧
      Swap (.embed x.target x.options body) x.inclusion forms forms' := by
  obtain ⟨_, hps, hforms⟩ := Syntax.standsFor_iff_pieced.1 h
  obtain ⟨front, inner, back, hfront, hinner, hback, rfl⟩ := (x.pieced_source _).1 hps
  obtain ⟨body, forms', hbody, hforms', hswap⟩ := Body.swap hfront.1 hinner.1 hback.1 x.opens
    x.shuts x.leaf (x.balanced _ hinner.2) hforms
  exact ⟨body, forms', Syntax.standsFor_iff_pieced.2 ⟨inner, hinner, hbody⟩,
    Syntax.standsFor_iff_pieced.2 ⟨_, (x.pieced_including _).2 ⟨front, back, hfront, hback, rfl⟩,
      hforms'⟩, hswap⟩

/-- What the two parts stand for, put together. -/
theorem join {body forms' : List Form} (hbody : StandsFor x.body body)
    (h : StandsFor x.including forms') :
    ∃ forms, StandsFor x.source forms ∧
      Swap (.embed x.target x.options body) x.inclusion forms forms' := by
  obtain ⟨inner, hinner, hbody⟩ := Syntax.standsFor_iff_pieced.1 hbody
  obtain ⟨_, hps, hforms'⟩ := Syntax.standsFor_iff_pieced.1 h
  obtain ⟨front, back, hfront, hback, rfl⟩ := (x.pieced_including _).1 hps
  obtain ⟨forms, hforms, hswap⟩ :=
    Body.swap_back hfront.1 hinner.1 hback.1 x.opens x.shuts x.leaf hbody hforms'
  exact ⟨forms, Syntax.standsFor_iff_pieced.2 ⟨_, (x.pieced_source _).2
    ⟨front, inner, back, hfront, hinner, hback, rfl⟩, hforms⟩, hswap⟩

variable (x)

/-- The source with the embed makes a tree exactly if both of the others do. -/
theorem parse_ok_iff (name : String) :
    (∃ tree, Tree.parse name x.source = .ok tree) ↔
      (∃ tree, Tree.parse name x.including = .ok tree) ∧
        ∃ tree, Tree.parse x.fresh x.child = .ok tree := by
  simp only [Tree.parse_ok_iff_standsFor]
  constructor
  · rintro ⟨forms, hforms, haccepted⟩
    obtain ⟨body, forms', hbody, hforms', hswap⟩ := split hforms
    obtain ⟨hincluding, hchild⟩ := (hswap.accepted x.target).1 haccepted
    exact ⟨⟨forms', hforms', hincluding⟩, _, standsFor_child.2 ⟨body, hbody, rfl⟩, hchild⟩
  · rintro ⟨⟨forms', hforms', hincluding⟩, _, hchild, haccepted⟩
    obtain ⟨body, hbody, rfl⟩ := standsFor_child.1 hchild
    obtain ⟨forms, hforms, hswap⟩ := join hbody hforms'
    exact ⟨forms, hforms, (hswap.accepted x.target).2 ⟨hincluding, haccepted⟩⟩

end Extraction

end Stencil
