import Stencil.Proofs.Completeness
import Stencil.Proofs.Layout

/-!
# Templates read tag by tag

The grammar derives a template as a whole. Here it is read from left to right instead: a tag that
opens a block or an embed puts the forms read so far aside, and the tag that closes it takes them up
again. So a template can be cut between any two tags, and what was read before does not matter to
what is read next.

Results:
* `Body.unique`: tokens stand for at most one template.
* `exists_pieces`, `pieces_unique`: texts and complete tags can be told apart.
* `Body.steps`, `Steps.above`: derived templates are those that are read to their end.
-/

namespace Stencil

open Syntax (Bracketed openingToken closingToken)

namespace Grammar

/-! ## Tokens stand for one template -/

/-- Tokens stand for at most one template. -/
theorem Body.unique {ts : List Token} {forms forms' : List Form} (h : Body ts forms)
    (h' : Body ts forms') : forms = forms' := by
  have hlexemes : ts = (ts.map fun t => (⟨t, default⟩ : Lexeme)).map (·.token) := by
    rw [List.map_map]
    exact (List.map_id ts).symm
  rw [hlexemes] at h h'
  exact Except.ok.inj ((Syntax.itemsOf_of_derivation h 0).symm.trans
    (Syntax.itemsOf_of_derivation h' 0))

theorem Entry.unique {ts : List Token} {form form' : Form} (h : Entry ts form)
    (h' : Entry ts form') : form = form' :=
  (List.cons.inj (Body.unique (.cons h .nil) (.cons h' .nil))).1

theorem Body.append {ts us : List Token} {front back : List Form} :
    Body ts front → Body us back → Body (ts ++ us) (front ++ back)
  | .nil, hback => hback
  | .cons hentry hrest, hback => by
    rw [List.append_assoc, List.cons_append]
    exact .cons hentry (hrest.append hback)

theorem Body.single {ts : List Token} {form : Form} (h : Entry ts form) : Body ts [form] := by
  have hbody := Body.cons h .nil
  rwa [List.append_nil] at hbody

/-! ## Code -/

/-- Tokens that may stand in a tag. -/
def Coded (ts : List Token) : Prop := ∀ t ∈ ts, t.IsCode

theorem coded_append {ts us : List Token} : Coded (ts ++ us) ↔ Coded ts ∧ Coded us :=
  List.forall_mem_append

theorem coded_cons {t : Token} {ts : List Token} : Coded (t :: ts) ↔ t.IsCode ∧ Coded ts :=
  List.forall_mem_cons

theorem Coded.nil : Coded [] := nofun

theorem Literal.isCode {t : Token} {value : Value} (h : Literal t value) : t.IsCode := by
  cases h <;> trivial

theorem Key.isCode {t : Token} {key : String} (h : Key t key) : t.IsCode := by
  cases h <;> trivial

mutual

theorem Expression.coded {ts : List Token} {t : Term} : Expression ts t → Coded ts
  | .operand h => h.coded
  | .concat hleft hright => coded_append.2 ⟨hleft.coded, coded_cons.2 ⟨trivial, hright.coded⟩⟩

theorem Operand.coded {ts : List Token} {t : Term} : Operand ts t → Coded ts
  | .atom h => h.coded
  | .attribute name h =>
    coded_append.2 ⟨h.coded, coded_cons.2 ⟨trivial, coded_cons.2 ⟨trivial, .nil⟩⟩⟩

theorem Atom.coded {ts : List Token} {t : Term} : Atom ts t → Coded ts
  | .literal h => coded_cons.2 ⟨h.isCode, .nil⟩
  | .mapping h =>
    coded_append.2 ⟨coded_cons.2 ⟨trivial, h.coded⟩, coded_cons.2 ⟨trivial, .nil⟩⟩
  | .array h => coded_append.2 ⟨coded_cons.2 ⟨trivial, h.coded⟩, coded_cons.2 ⟨trivial, .nil⟩⟩
  | .call function h => coded_append.2
    ⟨coded_cons.2 ⟨trivial, coded_cons.2 ⟨trivial, h.coded⟩⟩, coded_cons.2 ⟨trivial, .nil⟩⟩
  | .name name => coded_cons.2 ⟨trivial, .nil⟩
  | .parens h => coded_append.2 ⟨coded_cons.2 ⟨trivial, h.coded⟩, coded_cons.2 ⟨trivial, .nil⟩⟩

theorem Expressions.coded {ts : List Token} {items : List Term} : Expressions ts items → Coded ts
  | .none => .nil
  | .last h => h.coded
  | .comma h hrest => coded_append.2 ⟨h.coded, coded_cons.2 ⟨trivial, hrest.coded⟩⟩

theorem Entries.coded {ts : List Token} {entries : List (String × Term)} :
    Entries ts entries → Coded ts
  | .none => .nil
  | .last hkey h => coded_cons.2 ⟨hkey.isCode, coded_cons.2 ⟨trivial, h.coded⟩⟩
  | .comma hkey h hrest => coded_append.2
    ⟨coded_cons.2 ⟨hkey.isCode, coded_cons.2 ⟨trivial, h.coded⟩⟩,
      coded_cons.2 ⟨trivial, hrest.coded⟩⟩

end

theorem Words.coded {words ts : List Token} {given : Bool} (h : Words words ts given)
    (hwords : Coded words) : Coded ts := by
  cases h with
  | absent => exact .nil
  | present => exact hwords

theorem Clauses.coded {ts : List Token} {options : Options} (h : Clauses ts options) :
    Coded ts := by
  obtain ⟨hmissing, hgiven, honly⟩ := h
  refine coded_append.2 ⟨coded_append.2 ⟨?_, ?_⟩, ?_⟩
  · exact hmissing.coded (coded_cons.2 ⟨trivial, coded_cons.2 ⟨trivial, .nil⟩⟩)
  · revert hgiven
    generalize options.bindings = bindings
    intro hgiven
    cases hgiven with
    | absent => exact .nil
    | present h => exact coded_cons.2 ⟨trivial, h.coded⟩
  · exact honly.coded (coded_cons.2 ⟨trivial, .nil⟩)

theorem Ending.coded {name : String} {ts : List Token} (h : Ending name ts) : Coded ts := by
  cases h with
  | absent => exact .nil
  | present => exact coded_cons.2 ⟨trivial, .nil⟩

/-! ## Texts and tags -/

/-- A piece of text or one tag with its code. -/
inductive Piece where
  | text (content : String)
  | print (code : List Token)
  | tag (code : List Token)

namespace Piece

/-- The tokens of a piece. -/
def tokens : Piece → List Token
  | .text content => [.text content]
  | .print code => .printOpen :: code ++ [.printClose]
  | .tag code => Grammar.tag code

/-- A piece with tokens between its delimiters that may stand there. -/
def Fit : Piece → Prop
  | .text _ => True
  | .print code => Coded code
  | .tag code => Coded code

end Piece

/-- The tokens of some pieces. -/
def flat (ps : List Piece) : List Token := ps.flatMap Piece.tokens

theorem flat_nil : flat [] = [] := rfl

theorem flat_cons (p : Piece) (ps : List Piece) : flat (p :: ps) = p.tokens ++ flat ps := rfl

theorem flat_append (ps qs : List Piece) : flat (ps ++ qs) = flat ps ++ flat qs :=
  List.flatMap_append

/-- Texts and complete tags in a row. -/
theorem exists_pieces {ts : List Token} (h : Bracketed ts) :
    ∃ ps : List Piece, (∀ p ∈ ps, p.Fit) ∧ flat ps = ts := by
  induction h with
  | nil => exact ⟨[], nofun, rfl⟩
  | text content _ ih =>
    obtain ⟨ps, hfit, rfl⟩ := ih
    exact ⟨.text content :: ps, List.forall_mem_cons.2 ⟨trivial, hfit⟩, rfl⟩
  | @tag code rest isPrint hcode _ ih =>
    obtain ⟨ps, hfit, rfl⟩ := ih
    cases isPrint with
    | true =>
      refine ⟨.print code :: ps, List.forall_mem_cons.2 ⟨hcode, hfit⟩, ?_⟩
      simp [flat_cons, Piece.tokens, openingToken, closingToken]
    | false =>
      refine ⟨.tag code :: ps, List.forall_mem_cons.2 ⟨hcode, hfit⟩, ?_⟩
      simp [flat_cons, Piece.tokens, Grammar.tag, openingToken, closingToken]

/-- Code ends at the first token that may not stand in a tag. -/
theorem code_unique {code code' rest rest' : List Token} {t : Token} (ht : ¬ t.IsCode)
    (hcode : Coded code) (hcode' : Coded code') (h : code ++ t :: rest = code' ++ t :: rest') :
    code = code' ∧ rest = rest' := by
  induction code generalizing code' with
  | nil =>
    cases code' with
    | nil => exact ⟨rfl, (List.cons.inj h).2⟩
    | cons u code' =>
      obtain rfl : t = u := (List.cons.inj h).1
      exact absurd (hcode' t List.mem_cons_self) ht
  | cons u code ih =>
    cases code' with
    | nil =>
      obtain rfl : u = t := (List.cons.inj h).1
      exact absurd (hcode u List.mem_cons_self) ht
    | cons u' code' =>
      obtain ⟨rfl, htail⟩ := List.cons.inj h
      obtain ⟨rfl, hrest⟩ := ih (coded_cons.1 hcode).2 (coded_cons.1 hcode').2 htail
      exact ⟨rfl, hrest⟩

theorem Piece.unique {p q : Piece} (hp : p.Fit) (hq : q.Fit) {ts us : List Token}
    (h : p.tokens ++ ts = q.tokens ++ us) : p = q ∧ ts = us := by
  cases p with
  | text content =>
    cases q with
    | text content' =>
      cases h
      exact ⟨rfl, rfl⟩
    | print code' => cases h
    | tag code' => cases h
  | print code =>
    cases q with
    | text content' => cases h
    | print code' =>
      simp only [tokens, List.cons_append, List.append_assoc, List.nil_append] at h
      have hclose : ¬ Token.printClose.IsCode := not_false
      obtain ⟨rfl, hrest⟩ := code_unique hclose hp hq (List.cons.inj h).2
      exact ⟨rfl, hrest⟩
    | tag code' => cases h
  | tag code =>
    cases q with
    | text content' => cases h
    | print code' => cases h
    | tag code' =>
      simp only [tokens, Grammar.tag, List.cons_append, List.append_assoc, List.nil_append] at h
      have hclose : ¬ Token.tagClose.IsCode := not_false
      obtain ⟨rfl, hrest⟩ := code_unique hclose hp hq (List.cons.inj h).2
      exact ⟨rfl, hrest⟩

/-- The pieces of some tokens are determined by them. -/
theorem pieces_unique {ps qs : List Piece} (hps : ∀ p ∈ ps, p.Fit) (hqs : ∀ q ∈ qs, q.Fit)
    (h : flat ps = flat qs) : ps = qs := by
  have hne : ∀ p : Piece, p.tokens ≠ [] := by
    intro p
    cases p <;> exact List.cons_ne_nil _ _
  induction ps generalizing qs with
  | nil =>
    cases qs with
    | nil => rfl
    | cons q qs => exact absurd (List.append_eq_nil_iff.1 h.symm).1 (hne q)
  | cons p ps ih =>
    cases qs with
    | nil => exact absurd (List.append_eq_nil_iff.1 h).1 (hne p)
    | cons q qs =>
      rw [List.forall_mem_cons] at hps hqs
      rw [flat_cons, flat_cons] at h
      obtain ⟨hpiece, hrest⟩ := Piece.unique hps.1 hqs.1 h
      rw [hpiece, ih hps.2 hqs.2 hrest]

/-! ## Reading -/

/-- What a tag opens. -/
inductive Opened where
  | block (name : String)
  | embed (target : Term) (options : Options)

/-- What was opened, with its body. -/
def Opened.form (body : List Form) : Opened → Form
  | .block name => .block name body
  | .embed target options => .embed target options body

/-- A tag that opens something. -/
inductive Opens : Opened → Piece → Prop
  | block (name : String) : Opens (.block name) (.tag [.keyword .block, .ident name])
  | embed {ts us : List Token} {t : Term} {options : Options} : Expression ts t →
      Clauses us options → Opens (.embed t options) (.tag (.keyword .embed :: ts ++ us))

/-- A tag that closes what was opened. -/
inductive Shuts : Opened → Piece → Prop
  | block {name : String} {ending : List Token} : Ending name ending →
      Shuts (.block name) (.tag (.keyword .endBlock :: ending))
  | embed (t : Term) (options : Options) : Shuts (.embed t options) (.tag [.keyword .endEmbed])

/-- A piece that stands for itself. -/
inductive Leaf : Piece → Form → Prop
  | text (content : String) : Leaf (.text content) (.text content)
  | print {ts : List Token} {t : Term} : Expression ts t → Leaf (.print ts) (.print t)
  | «include» {ts us : List Token} {t : Term} {options : Options} : Expression ts t →
      Clauses us options → Leaf (.tag (.keyword .«include» :: ts ++ us)) (.«include» t options)
  | «extends» {ts : List Token} {t : Term} : Expression ts t →
      Leaf (.tag (.keyword .«extends» :: ts)) (.«extends» t)

/-- What has been read: the forms of the body that is read, and what was opened around it with the
    forms before, the innermost first. -/
structure Config where
  outer : List (Opened × List Form)
  here : List Form

/-- Reading one piece. -/
inductive Step : Piece → Config → Config → Prop
  | leaf {p : Piece} {form : Form} {outer : List (Opened × List Form)} {here : List Form} :
      Leaf p form → Step p ⟨outer, here⟩ ⟨outer, here ++ [form]⟩
  | opens {p : Piece} {o : Opened} {outer : List (Opened × List Form)} {here : List Form} :
      Opens o p → Step p ⟨outer, here⟩ ⟨(o, here) :: outer, []⟩
  | shuts {p : Piece} {o : Opened} {outer : List (Opened × List Form)} {before here : List Form} :
      Shuts o p → Step p ⟨(o, before) :: outer, here⟩ ⟨outer, before ++ [o.form here]⟩

/-- Reading some pieces. -/
inductive Steps : List Piece → Config → Config → Prop
  | nil (c : Config) : Steps [] c c
  | cons {p : Piece} {ps : List Piece} {c d e : Config} : Step p c d → Steps ps d e →
      Steps (p :: ps) c e

theorem Steps.append {ps qs : List Piece} {c d e : Config} (h : Steps ps c d) (h' : Steps qs d e) :
    Steps (ps ++ qs) c e := by
  induction h with
  | nil => exact h'
  | cons hstep _ ih => exact .cons hstep (ih h')

theorem Steps.of_append {ps qs : List Piece} {c e : Config} (h : Steps (ps ++ qs) c e) :
    ∃ d, Steps ps c d ∧ Steps qs d e := by
  induction ps generalizing c with
  | nil => exact ⟨c, .nil c, h⟩
  | cons p ps ih =>
    cases h with
    | cons hstep hrest =>
      obtain ⟨d, hps, hqs⟩ := ih hrest
      exact ⟨d, .cons hstep hps, hqs⟩

theorem Steps.single {p : Piece} {c d : Config} (h : Step p c d) : Steps [p] c d :=
  .cons h (.nil d)

/-! ### What is derived is read -/

theorem Leaf.fit {p : Piece} {form : Form} (h : Leaf p form) : p.Fit := by
  cases h with
  | text => trivial
  | print h => exact h.coded
  | «include» h hclauses => exact coded_append.2 ⟨coded_cons.2 ⟨trivial, h.coded⟩, hclauses.coded⟩
  | «extends» h => exact coded_cons.2 ⟨trivial, h.coded⟩

theorem Opens.fit {o : Opened} {p : Piece} (h : Opens o p) : p.Fit := by
  cases h with
  | block name => exact coded_cons.2 ⟨trivial, coded_cons.2 ⟨trivial, .nil⟩⟩
  | embed h hclauses => exact coded_append.2 ⟨coded_cons.2 ⟨trivial, h.coded⟩, hclauses.coded⟩

theorem Shuts.fit {o : Opened} {p : Piece} (h : Shuts o p) : p.Fit := by
  cases h with
  | block hending => exact coded_cons.2 ⟨trivial, hending.coded⟩
  | embed => exact coded_cons.2 ⟨trivial, .nil⟩

theorem Leaf.entry {p : Piece} {form : Form} (h : Leaf p form) : Entry p.tokens form := by
  cases h with
  | text content => exact .text content
  | print h => exact .print h
  | «include» h hclauses => exact .«include» h hclauses
  | «extends» h => exact .«extends» h

/-- A body between the tags that open and close it. -/
theorem Opens.entry {o : Opened} {p q : Piece} (hopens : Opens o p) (hshuts : Shuts o q)
    {ts : List Token} {body : List Form} (h : Body ts body) :
    Entry (p.tokens ++ ts ++ q.tokens) (o.form body) := by
  cases hopens with
  | block name =>
    cases hshuts with
    | block hending => exact .block name h hending
  | embed htarget hclauses =>
    cases hshuts with
    | embed => exact .embed htarget hclauses h

/-- Tokens as pieces, which are read to give some more forms. -/
def Readable (ts : List Token) (forms : List Form) : Prop :=
  ∃ ps : List Piece, (∀ p ∈ ps, p.Fit) ∧ flat ps = ts ∧
    ∀ outer here, Steps ps ⟨outer, here⟩ ⟨outer, here ++ forms⟩

theorem Leaf.readable {p : Piece} {form : Form} (h : Leaf p form) : Readable p.tokens [form] :=
  ⟨[p], List.forall_mem_singleton.2 h.fit, List.append_nil _, fun _ _ => .single (.leaf h)⟩

theorem Opens.readable {o : Opened} {p q : Piece} (hopens : Opens o p) (hshuts : Shuts o q)
    {ts : List Token} {body : List Form} (h : Readable ts body) :
    Readable (p.tokens ++ ts ++ q.tokens) [o.form body] := by
  obtain ⟨ps, hfit, rfl, hsteps⟩ := h
  refine ⟨p :: ps ++ [q], ?_, ?_, fun outer here => ?_⟩
  · rw [List.forall_mem_append, List.forall_mem_cons]
    exact ⟨⟨hopens.fit, hfit⟩, List.forall_mem_singleton.2 hshuts.fit⟩
  · rw [flat_append, flat_cons, flat_cons, flat_nil, List.append_nil]
  · have hbody := hsteps ((o, here) :: outer) []
    exact (Steps.cons (.opens hopens) hbody).append (.single (.shuts hshuts))

mutual

theorem Entry.readable {ts : List Token} {form : Form} : Entry ts form → Readable ts [form]
  | .text content => (Leaf.text content).readable
  | .print h => (Leaf.print h).readable
  | .block name hbody hending => (Opens.block name).readable (.block hending) hbody.readable
  | .embed h hclauses hbody => (Opens.embed h hclauses).readable (.embed _ _) hbody.readable
  | .«include» h hclauses => (Leaf.«include» h hclauses).readable
  | .«extends» h => (Leaf.«extends» h).readable

theorem Body.readable {ts : List Token} {forms : List Form} : Body ts forms → Readable ts forms
  | .nil => ⟨[], nofun, rfl, fun outer here => by rw [List.append_nil]; exact .nil _⟩
  | .cons hentry hrest => by
    obtain ⟨ps, hps, rfl, hfirst⟩ := hentry.readable
    obtain ⟨qs, hqs, rfl, hothers⟩ := hrest.readable
    refine ⟨ps ++ qs, List.forall_mem_append.2 ⟨hps, hqs⟩, flat_append ps qs, fun outer here => ?_⟩
    have hboth := (hfirst outer here).append (hothers outer _)
    rwa [List.append_assoc] at hboth

end

/-- A derived template is read, whatever was read before. -/
theorem Body.steps {ps : List Piece} (hps : ∀ p ∈ ps, p.Fit) {forms : List Form}
    (h : Body (flat ps) forms) (outer : List (Opened × List Form)) (here : List Form) :
    Steps ps ⟨outer, here⟩ ⟨outer, here ++ forms⟩ := by
  obtain ⟨qs, hqs, hflat, hsteps⟩ := h.readable
  rw [← pieces_unique hqs hps hflat]
  exact hsteps outer here

/-! ### What is read is derived -/

/-- How many tags are open behind some tokens if so many were open before. There is no such number if
    a tag closes something that was not opened. -/
def depthAfter : Nat → List Token → Option Nat
  | depth, [] => some depth
  | depth, .tagOpen :: .keyword k :: rest =>
    if k = .block ∨ k = .embed then depthAfter (depth + 1) rest
    else if k = .endBlock ∨ k = .endEmbed then
      match depth with
      | 0 => none
      | depth + 1 => depthAfter depth rest
    else depthAfter depth rest
  | depth, _ :: rest => depthAfter depth rest

theorem depthAfter_coded {code : List Token} (h : Coded code) (depth : Nat) (rest : List Token) :
    depthAfter depth (code ++ rest) = depthAfter depth rest := by
  induction code with
  | nil => rfl
  | cons t code ih =>
    obtain ⟨ht, hcode⟩ := coded_cons.1 h
    cases t with
    | text | printOpen | printClose | tagOpen | tagClose => exact ht.elim
    | _ => exact ih hcode

/-- A tag with a keyword at its front. -/
theorem depthAfter_tag {k : Keyword} {code : List Token} (h : Coded code) (depth : Nat)
    (rest : List Token) : depthAfter depth ((Piece.tag (.keyword k :: code)).tokens ++ rest) =
      depthAfter depth (.tagOpen :: .keyword k :: rest) := by
  have hrest : ∀ depth, depthAfter depth (code ++ .tagClose :: rest) = depthAfter depth rest :=
    fun depth => depthAfter_coded h depth _
  simp only [Piece.tokens, Grammar.tag, List.cons_append, List.append_assoc, List.nil_append,
    depthAfter, hrest]

theorem Opens.depthAfter {o : Opened} {p : Piece} (h : Opens o p) (depth : Nat)
    (rest : List Token) :
    depthAfter depth (p.tokens ++ rest) = depthAfter (depth + 1) rest := by
  have hfit := h.fit
  cases h <;> exact depthAfter_tag (coded_cons.1 hfit).2 depth rest

theorem Shuts.depthAfter {o : Opened} {p : Piece} (h : Shuts o p) (depth : Nat)
    (rest : List Token) :
    Grammar.depthAfter depth (p.tokens ++ rest) =
      match depth with
      | 0 => none
      | depth + 1 => Grammar.depthAfter depth rest := by
  have hfit := h.fit
  cases h <;> exact depthAfter_tag (coded_cons.1 hfit).2 depth rest

theorem Leaf.depthAfter {p : Piece} {form : Form} (h : Leaf p form) (depth : Nat)
    (rest : List Token) :
    Grammar.depthAfter depth (p.tokens ++ rest) = Grammar.depthAfter depth rest := by
  have hfit := h.fit
  cases h with
  | text content => rfl
  | print h =>
    rw [Piece.tokens, List.append_assoc]
    exact depthAfter_coded hfit depth _
  | «include» | «extends» => exact depthAfter_tag (coded_cons.1 hfit).2 depth rest

/-- What was read after some configuration: the tokens since then, and how many tags of theirs are
    open. -/
inductive Above (base : Config) : Nat → List Token → Config → Prop
  | here {ts : List Token} {body : List Form} : Body ts body →
      Above base 0 ts ⟨base.outer, base.here ++ body⟩
  | opened {depth : Nat} {front ts : List Token} {o : Opened} {p : Piece}
      {outer : List (Opened × List Form)} {before here : List Form} :
      Above base depth front ⟨outer, before⟩ → Opens o p → Body ts here →
      Above base (depth + 1) (front ++ p.tokens ++ ts) ⟨(o, before) :: outer, here⟩

namespace Above

variable {base : Config} {depth : Nat} {ts : List Token} {outer : List (Opened × List Form)}
  {before here : List Form}

theorem entry (h : Above base depth ts ⟨outer, here⟩) {us : List Token} {form : Form}
    (hentry : Entry us form) : Above base depth (ts ++ us) ⟨outer, here ++ [form]⟩ := by
  cases h with
  | here hbody =>
    rw [List.append_assoc]
    exact .here (hbody.append (.single hentry))
  | opened hbelow hopens hbody =>
    rw [List.append_assoc]
    exact .opened hbelow hopens (hbody.append (.single hentry))

theorem opens (h : Above base depth ts ⟨outer, here⟩) {o : Opened} {p : Piece}
    (hopens : Opens o p) : Above base (depth + 1) (ts ++ p.tokens) ⟨(o, here) :: outer, []⟩ := by
  have habove := opened h hopens .nil
  rwa [List.append_nil] at habove

theorem shuts {o : Opened} (h : Above base (depth + 1) ts ⟨(o, before) :: outer, here⟩) {p : Piece}
    (hshuts : Shuts o p) :
    Above base depth (ts ++ p.tokens) ⟨outer, before ++ [o.form here]⟩ := by
  cases h with
  | opened hbelow hopens hbody =>
    have habove := hbelow.entry (hopens.entry hshuts hbody)
    simpa only [List.append_assoc] using habove

end Above

/-- Reading goes on above a configuration as long as no tag is closed that was opened before. -/
theorem Steps.above {base c d : Config} {ps : List Piece} (h : Steps ps c d) {depth depth' : Nat}
    {ts : List Token} (habove : Above base depth ts c)
    (hdepth : depthAfter depth (flat ps) = some depth') :
    Above base depth' (ts ++ flat ps) d := by
  induction h generalizing depth ts with
  | nil c =>
    cases hdepth
    rwa [flat_nil, List.append_nil]
  | cons hstep _ ih =>
    rw [flat_cons] at hdepth ⊢
    rw [← List.append_assoc]
    cases hstep with
    | leaf hleaf =>
      rw [hleaf.depthAfter] at hdepth
      exact ih (habove.entry hleaf.entry) hdepth
    | opens hopens =>
      rw [hopens.depthAfter] at hdepth
      exact ih (habove.opens hopens) hdepth
    | shuts hshuts =>
      rw [hshuts.depthAfter] at hdepth
      cases depth with
      | zero => cases hdepth
      | succ depth => exact ih (habove.shuts hshuts) hdepth

/-- Pieces that close what they open are a body, whatever was read before. -/
theorem Steps.body {ps : List Piece} {outer : List (Opened × List Form)} {here : List Form}
    {d : Config} (h : Steps ps ⟨outer, here⟩ d) (hdepth : depthAfter 0 (flat ps) = some 0) :
    ∃ body, Body (flat ps) body ∧ d = ⟨outer, here ++ body⟩ := by
  have hnothing : Above ⟨outer, here⟩ 0 [] ⟨outer, here⟩ := by
    have hnil : Above ⟨outer, here⟩ 0 [] ⟨outer, here ++ []⟩ := .here .nil
    rwa [List.append_nil] at hnil
  cases h.above hnothing hdepth with
  | here hbody => exact ⟨_, hbody, rfl⟩

theorem Steps.depthAfter {ps : List Piece} {c d : Config} (h : Steps ps c d) :
    Grammar.depthAfter c.outer.length (flat ps) = some d.outer.length := by
  induction h with
  | nil => rfl
  | cons hstep _ ih =>
    rw [flat_cons]
    cases hstep with
    | leaf hleaf => rw [hleaf.depthAfter, ih]
    | opens hopens => rw [hopens.depthAfter]; exact ih
    | shuts hshuts => rw [hshuts.depthAfter]; exact ih

/-- What is read to the end is a template. -/
theorem Steps.derived {ps : List Piece} {forms : List Form} (h : Steps ps ⟨[], []⟩ ⟨[], forms⟩) :
    Body (flat ps) forms := by
  obtain ⟨body, hbody, hforms⟩ := h.body h.depthAfter
  cases hforms
  exact hbody

end Grammar

end Stencil
