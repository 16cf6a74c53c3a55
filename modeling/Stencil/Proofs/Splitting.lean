import Stencil.Proofs.Extraction

/-!
# Texts that are split

A comment has no tokens, so all that it does to a source is to keep the text before it apart from
the text behind it: where the source without the comment has one text, the source with it has two. A
template with such a text and a template with its halves have the same tags, nested in the same way,
and one of them is accepted exactly if the other one is.

Specification: `Form.Split` for forms that differ in where their texts are split.

Results:
* `Syntax.tokensOf_joined`, `Syntax.tokensOf_commented`: the tokens of a source without a comment
  and with it.
* `Grammar.Steps.split`, `Grammar.Body.exchange`: reading a text, and reading its halves.
* `Grammar.Body.of_joined`: templates of tokens that are joined.
* `Form.Split.accepted`: acceptance.
* `Syntax.resplit_commented`, `Syntax.Resplit.accepts`: sources with a comment and without it.
-/

namespace Stencil

open Grammar (Opened Body Piece flat)

/-! ## Tokens -/

namespace Syntax

/-- The tokens of a source whose two parts have these tokens: they stand one behind the other, but a
    text that ends the first part and a text that begins the second one are joined. -/
inductive Joined : List Token → List Token → List Token → Prop
  | apart (ts us : List Token) : Joined ts us (ts ++ us)
  | text (ts : List Token) (front back : String) (us : List Token) :
      Joined (ts ++ [.text front]) (.text back :: us) (ts ++ .text (front ++ back) :: us)

theorem Joined.append_left {ts us joined : List Token} (before : List Token)
    (h : Joined ts us joined) : Joined (before ++ ts) us (before ++ joined) := by
  cases h with
  | apart => rw [← List.append_assoc]; exact .apart _ us
  | text ts front back us =>
    rw [← List.append_assoc, ← List.append_assoc]
    exact .text _ front back us

theorem Joined.textTokens (front back : List Char) (us : List Token) :
    Joined (textTokens front) (textTokens back ++ us) (textTokens (front ++ back) ++ us) := by
  cases front with
  | nil => exact .apart [] _
  | cons c front =>
    cases back with
    | nil => rw [List.append_nil]; exact .apart _ us
    | cons d back =>
      have hjoined : Joined ([] ++ [.text (String.ofList (c :: front))])
          (.text (String.ofList (d :: back)) :: us) _ := .text [] _ _ us
      rw [← String.ofList_append] at hjoined
      exact hjoined

theorem tokensOf_unclosed {cs text body : List Char} {kind : Delimiter}
    (h : openingIn cs = (text, some (kind, body))) (hbody : kind.contentIn body = none) :
    tokensOf cs = none := by
  rw [← lexemesFrom_tokens 0, lexemesFrom_unclosed h hbody]
  rfl

/-- The tokens of a source that goes on with another one. By induction on the first source, part by
    part: none of its delimiters is lost, and none appears where the second one begins. -/
theorem tokensOf_joined {front : List Char} (hfront : Complete front) {ts : List Token}
    (hts : tokensOf front = some ts) (rest : List Char) :
    Option.Rel (Joined ts) (tokensOf rest) (tokensOf (front ++ rest)) := by
  induction hfront using Complete.parts_induction generalizing ts with
  | text front hfront hplain hopening =>
    -- The first source is one text. Only here can anything be joined, to a text that the second
    -- source begins with, whatever stands behind that.
    obtain rfl : textTokens front = ts := Option.some.inj ((tokensOf_text hopening).symm.trans hts)
    have hboth := openingIn_append_plain hplain hfront.noBrace rest
    rcases hrest : openingIn rest with ⟨back, _ | ⟨kind, body⟩⟩
    · rw [hrest] at hboth
      rw [tokensOf_text hrest, tokensOf_text hboth]
      have hjoined := Joined.textTokens front rest []
      rw [List.append_nil, List.append_nil] at hjoined
      exact .some hjoined
    · rw [hrest] at hboth
      cases hbody : kind.contentIn body with
      | none =>
        rw [tokensOf_unclosed hrest hbody, tokensOf_unclosed hboth hbody]
        exact .none
      | some found =>
        rw [tokensOf_part hrest hbody, tokensOf_part hboth hbody]
        cases kind.tokens found.1 with
        | none => exact .none
        | some part =>
          cases tokensOf found.2 with
          | none => exact .none
          | some others =>
            have hjoined := Joined.textTokens front back (part ++ others)
            simp only [← List.append_assoc] at hjoined
            exact .some hjoined
  | part front text kind body content rest' _ _ hopening hfound ih =>
    rw [tokensOf_part hopening hfound] at hts
    obtain ⟨part, hpart, hmap⟩ := Option.bind_eq_some_iff.1 hts
    obtain ⟨others, hothers, rfl⟩ := Option.map_eq_some_iff.1 hmap
    have hrest := ih hothers
    rw [tokensOf_part (openingIn_more hopening rest) (Delimiter.contentIn_more hfound rest), hpart,
      Option.bind_some]
    revert hrest
    generalize tokensOf rest = us
    generalize tokensOf (rest' ++ rest) = joined
    intro hrest
    cases hrest with
    | none => exact .none
    | some hjoined => exact .some (hjoined.append_left _)

/-- The tokens of a source with a comment in it. -/
theorem tokensOf_commented {front : List Char} (hfront : Complete front) {ts : List Token}
    (hts : tokensOf front = some ts) {content : List Char} (hcontent : ¬ ['#', '\x7d'] <:+: content)
    (rest : List Char) :
    tokensOf (front ++ (Delimiter.comment.enclose content ++ rest)) =
      (tokensOf rest).map (ts ++ ·) := by
  have hencloses : Delimiter.comment.Encloses content := commentEnd_content hcontent []
  rw [tokensOf_append hfront hencloses, hts, Option.bind_some, Delimiter.tokens, Option.bind_some,
    List.append_nil]

theorem closed_of_lexemesOf {parts : List Part} {ls : List Lexeme} (h : lexemesOf parts = .ok ls) :
    ∀ part ∈ parts, part.isClosed = true := by
  induction parts generalizing ls with
  | nil => nofun
  | cons part rest ih =>
    rw [lexemesOf] at h
    cases hpart : part.lexemes with
    | error fault => rw [hpart] at h; cases h
    | ok first =>
      cases hrest : lexemesOf rest with
      | error fault => rw [hpart, hrest] at h; cases h
      | ok others =>
        refine List.forall_mem_cons.2 ⟨?_, ih hrest⟩
        cases part with
        | unclosed => cases hpart
        | _ => rfl

/-- A source that has tokens leaves nothing open. -/
theorem Complete.of_lexemes {source : List Char} {ls : List Lexeme} (h : lexemes source = .ok ls)
    (hbrace : source.getLast? ≠ some '\x7b') : Complete source :=
  ⟨closed_of_lexemesOf h, hbrace⟩

end Syntax

/-! ## Forms -/

/-- Forms that differ in nothing but where their texts are split, at any depth. -/
inductive Form.Split : List Form → List Form → Prop
  | nil : Form.Split [] []
  | text (content : String) {rest rest' : List Form} : Form.Split rest rest' →
      Form.Split (.text content :: rest) (.text content :: rest')
  | print (expr : Term) {rest rest' : List Form} : Form.Split rest rest' →
      Form.Split (.print expr :: rest) (.print expr :: rest')
  | «include» (target : Term) (options : Options) {rest rest' : List Form} :
      Form.Split rest rest' →
      Form.Split (.«include» target options :: rest) (.«include» target options :: rest')
  | «extends» (parent : Term) {rest rest' : List Form} : Form.Split rest rest' →
      Form.Split (.«extends» parent :: rest) (.«extends» parent :: rest')
  | inside (o : Opened) {body body' rest rest' : List Form} : Form.Split body body' →
      Form.Split rest rest' → Form.Split (o.form body :: rest) (o.form body' :: rest')
  | split (front back : String) {rest rest' : List Form} : Form.Split rest rest' →
      Form.Split (.text (front ++ back) :: rest) (.text front :: .text back :: rest')
  | join (front back : String) {rest rest' : List Form} : Form.Split rest rest' →
      Form.Split (.text front :: .text back :: rest) (.text (front ++ back) :: rest')

namespace Form.Split

variable {forms forms' : List Form}

theorem refl : ∀ forms : List Form, Split forms forms
  | [] => .nil
  | .text content :: rest => .text content (refl rest)
  | .print expr :: rest => .print expr (refl rest)
  | .block name body :: rest => .inside (.block name) (refl body) (refl rest)
  | .«include» target options :: rest => .«include» target options (refl rest)
  | .embed target options body :: rest => .inside (.embed target options) (refl body) (refl rest)
  | .«extends» parent :: rest => .«extends» parent (refl rest)

theorem append {more more' : List Form} (h : Split forms forms') (hmore : Split more more') :
    Split (forms ++ more) (forms' ++ more') := by
  induction h with
  | nil => exact hmore
  | text content _ ih => exact .text content ih
  | print expr _ ih => exact .print expr ih
  | «include» target options _ ih => exact .«include» target options ih
  | «extends» parent _ ih => exact .«extends» parent ih
  | inside o hbody _ _ ih => exact .inside o hbody ih
  | split front back _ ih => exact .split front back ih
  | join front back _ ih => exact .join front back ih

end Form.Split

/-! ## Reading -/

namespace Grammar

open Form (Split)

/-- Configurations that differ in nothing but where the texts read so far are split. -/
structure Config.Split (c c' : Config) : Prop where
  outer : List.Forall₂ (fun p p' => p.1 = p'.1 ∧ Form.Split p.2 p'.2) c.outer c'.outer
  here : Form.Split c.here c'.here

theorem Config.Split.refl (c : Config) : c.Split c :=
  ⟨List.forall₂_same.2 fun p _ => ⟨rfl, .refl p.2⟩, .refl c.here⟩

/-- The next piece is read alike. -/
theorem Step.split {p : Piece} {c d c' : Config} (hstep : Step p c d) (h : c.Split c') :
    ∃ d', Step p c' d' ∧ d.Split d' := by
  obtain ⟨outer', here'⟩ := c'
  obtain ⟨houter, hhere⟩ := h
  cases hstep with
  | leaf hleaf => exact ⟨_, .leaf hleaf, houter, hhere.append (.refl _)⟩
  | opens hopens => exact ⟨_, .opens hopens, .cons ⟨rfl, hhere⟩ houter, .nil⟩
  | @shuts o outer before here hshuts =>
    cases houter with
    | @cons _ p' _ outer' hp houter =>
    obtain ⟨o', before'⟩ := p'
    obtain ⟨rfl, hbefore⟩ := hp
    exact ⟨_, .shuts hshuts, houter, hbefore.append (.inside o hhere .nil)⟩

theorem Steps.split {ps : List Piece} {c d c' : Config} (hsteps : Steps ps c d)
    (h : c.Split c') : ∃ d', Steps ps c' d' ∧ d.Split d' := by
  induction hsteps generalizing c' with
  | nil => exact ⟨c', .nil c', h⟩
  | cons hstep _ ih =>
    obtain ⟨mid, hstep', hmid⟩ := hstep.split h
    obtain ⟨d', hsteps', hd⟩ := ih hmid
    exact ⟨d', .cons hstep' hsteps', hd⟩

/-! ### Texts -/

section Texts

variable {front back : String} {c d : Config}

/-- A text may be split where it is read. -/
theorem Steps.split_text (h : Steps [.text (front ++ back)] c d) :
    ∃ d', Steps [.text front, .text back] c d' ∧ d.Split d' := by
  cases h with
  | cons hstep hrest =>
  cases (Leaf.text (front ++ back)).step hstep
  cases hrest
  refine ⟨_, .cons (.leaf (.text front)) (.single (.leaf (.text back))), ?_⟩
  refine ⟨(Config.Split.refl c).outer, ?_⟩
  rw [List.append_assoc]
  exact (Split.refl c.here).append (.split front back .nil)

/-- Two texts may be joined where they are read one after the other. -/
theorem Steps.join_text (h : Steps [.text front, .text back] c d) :
    ∃ d', Steps [.text (front ++ back)] c d' ∧ d.Split d' := by
  cases h with
  | cons hstep hrest =>
  cases (Leaf.text front).step hstep
  cases hrest with
  | cons hstep hrest =>
  cases (Leaf.text back).step hstep
  cases hrest
  refine ⟨_, .single (.leaf (.text (front ++ back))), ?_⟩
  refine ⟨(Config.Split.refl c).outer, ?_⟩
  rw [List.append_assoc]
  exact (Split.refl c.here).append (.join front back .nil)

end Texts

/-- Pieces in the place of others that are read to the same but for split texts. -/
theorem Body.exchange {before behind ps qs : List Piece}
    (hfit : ∀ p ∈ before ++ (ps ++ behind), p.Fit)
    (hread : ∀ {c d : Config}, Steps ps c d → ∃ d', Steps qs c d' ∧ d.Split d')
    {forms : List Form} (h : Body (flat (before ++ (ps ++ behind))) forms) :
    ∃ forms', Body (flat (before ++ (qs ++ behind))) forms' ∧ Split forms forms' := by
  obtain ⟨c, hbefore, hrest⟩ := (h.steps hfit [] []).of_append
  obtain ⟨d, hps, hbehind⟩ := hrest.of_append
  obtain ⟨d', hqs, hd⟩ := hread hps
  obtain ⟨⟨outer', forms'⟩, hbehind', houter, hforms⟩ := hbehind.split hd
  -- Nothing is open at the end of the one reading, so nothing is at the end of the other one.
  cases houter
  exact ⟨forms', (hbefore.append (hqs.append hbehind')).derived, hforms⟩

/-- Pieces that end with the token of a text end with that text. -/
theorem eq_append_text {ps : List Piece} {ts : List Token} {content : String}
    (h : flat ps = ts ++ [.text content]) :
    ∃ before, ps = before ++ [.text content] ∧ flat before = ts := by
  rcases List.eq_nil_or_concat ps with rfl | ⟨before, p, rfl⟩
  · exact absurd (congrArg List.length h) (by simp [flat_nil])
  rw [List.concat_eq_append] at h ⊢
  rw [flat_append, flat_cons, flat_nil, List.append_nil] at h
  cases p with
  | text other =>
    obtain ⟨hbefore, hlast⟩ := List.append_inj' h rfl
    cases hlast
    exact ⟨before, rfl, hbefore⟩
  | print code =>
    rw [Piece.tokens, ← List.append_assoc] at h
    cases (List.append_inj' h rfl).2
  | tag code =>
    rw [Piece.tokens, tag, ← List.append_assoc] at h
    cases (List.append_inj' h rfl).2

/-- Pieces that begin with the token of a text begin with that text. -/
theorem eq_cons_text {ps : List Piece} {ts : List Token} {content : String}
    (h : flat ps = .text content :: ts) :
    ∃ behind, ps = .text content :: behind ∧ flat behind = ts := by
  cases ps with
  | nil => cases h
  | cons p behind =>
    cases p with
    | text other =>
      cases h
      exact ⟨behind, rfl, rfl⟩
    | print code => cases h
    | tag code => cases h

/-- Tokens that are joined stand for the same as the tokens one behind the other, but for a text
    that is split. -/
theorem Body.of_joined {ts us joined : List Token} (h : Syntax.Joined ts us joined)
    (hts : Syntax.Bracketed ts) (hus : Syntax.Bracketed us) :
    (∀ forms, Body joined forms → ∃ forms', Body (ts ++ us) forms' ∧ Split forms forms') ∧
      ∀ forms, Body (ts ++ us) forms → ∃ forms', Body joined forms' ∧ Split forms forms' := by
  cases h with
  | apart => exact ⟨fun forms h => ⟨forms, h, .refl forms⟩, fun forms h => ⟨forms, h, .refl forms⟩⟩
  | text ts front back us =>
    obtain ⟨ps, hps, hflat⟩ := exists_pieces hts
    obtain ⟨before, rfl, rfl⟩ := eq_append_text hflat
    obtain ⟨qs, hqs, hflat'⟩ := exists_pieces hus
    obtain ⟨behind, rfl, rfl⟩ := eq_cons_text hflat'
    have hbefore := (List.forall_mem_append.1 hps).1
    have hbehind := (List.forall_mem_cons.1 hqs).2
    have hone : flat (before ++ ([.text (front ++ back)] ++ behind)) =
        flat before ++ .text (front ++ back) :: flat behind := flat_append _ _
    have htwo : flat (before ++ ([.text front, .text back] ++ behind)) =
        flat before ++ [.text front] ++ .text back :: flat behind := by
      rw [flat_append, List.append_assoc]
      rfl
    rw [← hone, ← htwo]
    constructor
    · intro forms hforms
      refine hforms.exchange ?_ Steps.split_text
      simp only [List.forall_mem_append, List.forall_mem_singleton]
      exact ⟨hbefore, trivial, hbehind⟩
    · intro forms hforms
      refine hforms.exchange ?_ Steps.join_text
      simp only [List.forall_mem_append, List.forall_mem_cons]
      exact ⟨hbefore, ⟨trivial, trivial, List.forall_mem_nil _⟩, hbehind⟩

end Grammar

/-! ## Acceptance -/

namespace Form.Split

variable {forms forms' : List Form}

theorem allowedOutside_text (front back : String) :
    (Form.text (front ++ back)).allowedOutside =
      ((Form.text front).allowedOutside && (Form.text back).allowedOutside) := by
  simp [allowedOutside, Text.allBlank]

theorem onlyBlocks (h : Split forms forms') : OnlyBlocks forms ↔ OnlyBlocks forms' := by
  induction h with
  | nil => rfl
  | text content _ ih => rw [onlyBlocks_cons, onlyBlocks_cons, ih]
  | print expr _ ih => rw [onlyBlocks_cons, onlyBlocks_cons, ih]
  | «include» target options _ ih => rw [onlyBlocks_cons, onlyBlocks_cons, ih]
  | «extends» parent _ ih => rw [onlyBlocks_cons, onlyBlocks_cons, ih]
  | @inside o body body' _ _ _ _ _ ih =>
    rw [onlyBlocks_cons, onlyBlocks_cons, Swap.allowedOutside_form o body body', ih]
  | split front back _ ih =>
    rw [onlyBlocks_cons, onlyBlocks_cons, onlyBlocks_cons, allowedOutside_text,
      Bool.and_eq_true, ih, and_assoc]
  | join front back _ ih =>
    rw [onlyBlocks_cons, onlyBlocks_cons, onlyBlocks_cons, allowedOutside_text,
      Bool.and_eq_true, ih, and_assoc]

theorem allPlaced (h : Split forms forms') : AllPlaced forms ↔ AllPlaced forms' := by
  induction h with
  | nil => rfl
  | text content _ ih => rw [allPlaced_cons, allPlaced_cons, ih]
  | print expr _ ih => rw [allPlaced_cons, allPlaced_cons, ih]
  | «include» target options _ ih => rw [allPlaced_cons, allPlaced_cons, ih]
  | «extends» parent _ ih => rw [allPlaced_cons, allPlaced_cons, ih]
  | inside o hbody _ ihBody ih =>
    rw [allPlaced_cons, allPlaced_cons, ih]
    cases o with
    | block name => simp only [Opened.form, Placed, ihBody]
    | embed target options => simp only [Opened.form, Placed, ihBody, hbody.onlyBlocks]
  | split front back _ ih => simp only [allPlaced_cons, Placed, true_and, ih]
  | join front back _ ih => simp only [allPlaced_cons, Placed, true_and, ih]

theorem content (h : Split forms forms') : Split (Form.content forms) (Form.content forms') := by
  induction h with
  | nil => exact .nil
  | text content _ ih => exact .text content ih
  | print expr _ ih => exact .print expr ih
  | «include» target options _ ih => exact .«include» target options ih
  | «extends» _ _ ih => exact ih
  | inside o hbody _ _ ih => cases o <;> exact .inside _ hbody ih
  | split front back _ ih => exact .split front back ih
  | join front back _ ih => exact .join front back ih

theorem extensions (h : Split forms forms') : Form.extensions forms = Form.extensions forms' := by
  induction h with
  | «extends» parent _ ih => exact congrArg (parent :: ·) ih
  | inside o _ _ _ ih => cases o <;> exact ih
  | nil => rfl
  | _ => assumption

/-- Splitting texts makes no template out of what is none. -/
theorem accepted (h : Split forms forms') (haccepted : Accepted forms) : Accepted forms' where
  placed := h.content.allPlaced.1 haccepted.placed
  single := h.extensions ▸ haccepted.single
  outside hextends := h.content.onlyBlocks.1 (haccepted.outside (h.extensions ▸ hextends))

end Form.Split

/-! ## Sources -/

namespace Syntax

/-- The second source stands for all that the first one does, but for where texts are split. -/
def Resplit (source source' : List Char) : Prop :=
  ∀ forms, StandsFor source forms → ∃ forms', StandsFor source' forms' ∧ Form.Split forms forms'

variable {front : List Char} {ls : List Lexeme} (hls : lexemes front = .ok ls)
  (hbrace : front.getLast? ≠ some '\x7b') {content : List Char}
  (hcontent : ¬ ['#', '\x7d'] <:+: content) (rest : List Char)

include hls hbrace hcontent

/-- A comment changes nothing in a source but for where texts are split. -/
theorem resplit_commented :
    Resplit (front ++ rest) (front ++ (Delimiter.comment.enclose content ++ rest)) ∧
      Resplit (front ++ (Delimiter.comment.enclose content ++ rest)) (front ++ rest) := by
  have hfront : Complete front := .of_lexemes hls hbrace
  have hts : tokensOf front = some (ls.map (·.token)) := by rw [tokensOf, hls, tokensIn_ok]
  have hcommented := tokensOf_commented hfront hts hcontent rest
  have hjoined := tokensOf_joined hfront hts rest
  constructor
  · rintro forms ⟨joined, htokens, hforms⟩
    rw [htokens] at hjoined
    cases hus : tokensOf rest with
    | none => rw [hus] at hjoined; cases hjoined
    | some us =>
      rw [hus] at hjoined hcommented
      cases hjoined with
      | some hjoined =>
      obtain ⟨forms', hforms', hsplit⟩ :=
        (Body.of_joined hjoined (bracketed_tokensOf hts) (bracketed_tokensOf hus)).1 forms hforms
      exact ⟨forms', ⟨_, hcommented, hforms'⟩, hsplit⟩
  · rintro forms ⟨both, htokens, hforms⟩
    rw [hcommented] at htokens
    obtain ⟨us, hus, rfl⟩ := Option.map_eq_some_iff.1 htokens
    rw [hus] at hjoined
    cases htokens' : tokensOf (front ++ rest) with
    | none => rw [htokens'] at hjoined; cases hjoined
    | some joined =>
      rw [htokens'] at hjoined
      cases hjoined with
      | some hjoined =>
      obtain ⟨forms', hforms', hsplit⟩ :=
        (Body.of_joined hjoined (bracketed_tokensOf hts) (bracketed_tokensOf hus)).2 forms hforms
      exact ⟨forms', ⟨joined, htokens', hforms'⟩, hsplit⟩

end Syntax

/-- A source whose texts are split elsewhere is accepted too. -/
theorem Syntax.Resplit.accepts {source source' : List Char} (h : Syntax.Resplit source source')
    {name : String} (htree : ∃ tree, Tree.parse name source = .ok tree) :
    ∃ tree, Tree.parse name source' = .ok tree := by
  obtain ⟨forms, hforms, haccepted⟩ := Tree.parse_ok_iff_standsFor.1 htree
  obtain ⟨forms', hforms', hsplit⟩ := h forms hforms
  exact Tree.parse_ok_iff_standsFor.2 ⟨forms', hforms', hsplit.accepted haccepted⟩

end Stencil
