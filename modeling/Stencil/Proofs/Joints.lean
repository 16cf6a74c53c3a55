import Stencil.Proofs.Derivations
import Stencil.Proofs.Layout
import Stencil.Proofs.Writing

/-!
# Sources put together

The tokens of a source, without their places, are those of its parts one after the other. So a
source can be cut before any of its tags and after it: what stands before, in the tag and behind it
are read on their own. What stands before must not end in a brace, which would belong to the tag, and
must not leave a comment or a tag open.

Results:
* `lexemesFrom_tokens`: the tokens do not depend on where a source starts.
* `tokensOf_part`: the tokens of a source, part by part.
* `Complete.parts_induction`: the induction on the parts of a text without faults.
* `tokensOf_append`: the tokens of a source that is cut at a comment or a tag.
* `bracketed_tokensOf`: texts and complete tags.
-/

namespace Stencil.Syntax

/-- The tokens of some lexemes, if there are no faults. -/
def tokensIn (ls : Except Fault (List Lexeme)) : Option (List Token) :=
  ls.toOption.map (·.map (·.token))

/-- The tokens of a source without their places. -/
def tokensOf (source : List Char) : Option (List Token) := tokensIn (lexemes source)

/-- The tokens in a tag without their places. -/
def codeTokens (code : List Char) : Option (List Token) := tokensIn (codeLexemes 0 code)

/-- The token of the text before a delimiter. -/
def textTokens (text : List Char) : List Token :=
  if text.isEmpty then [] else [.text (String.ofList text)]

/-- The tokens of a comment or of a tag with its delimiters. -/
def Delimiter.tokens (kind : Delimiter) (content : List Char) : Option (List Token) :=
  match kind with
  | .comment => some []
  | .print => (codeTokens content).map fun code => .printOpen :: code ++ [.printClose]
  | .tag => (codeTokens content).map Grammar.tag

theorem tokensIn_ok (ls : List Lexeme) : tokensIn (.ok ls) = some (ls.map (·.token)) := rfl

theorem tokensIn_error (fault : Fault) : tokensIn (.error fault) = none := rfl

theorem tokensIn_map {f : List Lexeme → List Lexeme} {g : List Token → List Token}
    (hf : ∀ ls, (f ls).map (·.token) = g (ls.map (·.token))) (ls : Except Fault (List Lexeme)) :
    tokensIn (ls.map f) = (tokensIn ls).map g := by
  cases ls with
  | error fault => rfl
  | ok ls => exact congrArg some (hf ls)

/-! ## Places do not matter -/

theorem codeLexemes_tokens (start : Nat) (code : List Char) :
    tokensIn (codeLexemes start code) = codeTokens code := by
  unfold codeTokens
  generalize 0 = start'
  fun_induction codeLexemes start code generalizing start' with
  | case1 => rw [codeLexemes.eq_1]
  | case2 start c rest hc ih => rw [codeLexemes, if_pos hc, ih]
  | case3 start c rest hc consumed hnext =>
    rw [codeLexemes, if_neg hc]
    split
    · rfl
    · next htoken => rw [hnext] at htoken; cases htoken
  | case4 start c rest hc t consumed after hnext stop ih =>
    rw [codeLexemes.eq_2 start', if_neg hc]
    split
    · next hrefused => rw [hnext] at hrefused; cases hrefused
    · next htoken =>
      rw [hnext] at htoken
      cases htoken
      rw [tokensIn_map (g := (t :: ·)) fun _ => rfl, tokensIn_map (g := (t :: ·)) fun _ => rfl, ih]

theorem textLexemes_tokens (start : Nat) (text : List Char) :
    (textLexemes start text).map (·.token) = textTokens text := by
  unfold textLexemes textTokens
  split <;> rfl

theorem part_tokens (kind : Delimiter) (start : Nat) (content : List Char) :
    tokensIn (kind.part start content).lexemes = kind.tokens content := by
  cases kind with
  | comment => rfl
  | print =>
    simp only [Delimiter.part, Delimiter.tokens, lexemes_code,
      ← codeLexemes_tokens (start + 2) content]
    exact tokensIn_map (fun ls => by simp [openingToken, closingToken]) _
  | tag =>
    simp only [Delimiter.part, Delimiter.tokens, lexemes_code,
      ← codeLexemes_tokens (start + 2) content]
    exact tokensIn_map (fun ls => by simp [openingToken, closingToken, Grammar.tag]) _

/-- Tokens of a text, of the part after it and of what follows. -/
theorem lexemesFrom_part_tokens {start : Nat} {cs text body content rest : List Char}
    {kind : Delimiter} (h : openingIn cs = (text, some (kind, body)))
    (hbody : kind.contentIn body = some (content, rest)) :
    tokensIn (lexemesFrom start cs) = (kind.tokens content).bind fun part =>
      (tokensIn (lexemesFrom
        (start + Text.utf8Length text + 2 + Text.utf8Length content + 2) rest)).map fun others =>
          textTokens text ++ part ++ others := by
  rw [lexemesFrom_part h hbody, ← part_tokens kind (start + Text.utf8Length text)]
  generalize lexemesFrom _ rest = others
  cases (kind.part (start + Text.utf8Length text) content).lexemes with
  | error fault => rfl
  | ok part =>
    cases others with
    | error fault => rfl
    | ok others =>
      change some ((textLexemes start text ++ part ++ others).map (·.token)) = _
      rw [List.map_append, List.map_append, textLexemes_tokens]
      rfl

/-- The tokens do not depend on where a source starts. -/
theorem lexemesFrom_tokens (start : Nat) (cs : List Char) :
    tokensIn (lexemesFrom start cs) = tokensOf cs := by
  change _ = tokensIn (lexemesFrom 0 cs)
  generalize 0 = start'
  induction cs using parts_induction generalizing start start' with
  | text cs text hopening =>
    rw [lexemesFrom_text hopening, lexemesFrom_text hopening, tokensIn_ok, tokensIn_ok,
      textLexemes_tokens, textLexemes_tokens]
  | unclosed cs text kind body hopening hcontent =>
    rw [lexemesFrom_unclosed hopening hcontent, lexemesFrom_unclosed hopening hcontent,
      tokensIn_error, tokensIn_error]
  | part cs text kind body content rest hopening hcontent ih =>
    rw [lexemesFrom_part_tokens hopening hcontent, lexemesFrom_part_tokens hopening hcontent]
    rw [ih]

section Parts

variable {cs text body content rest : List Char} {kind : Delimiter}

theorem tokensOf_text (h : openingIn cs = (text, none)) : tokensOf cs = some (textTokens cs) := by
  rw [← lexemesFrom_tokens 0, lexemesFrom_text h, tokensIn_ok, textLexemes_tokens]

/-- The tokens of a source: those of the text before its first part, of this part, and of what
    follows. -/
theorem tokensOf_part (h : openingIn cs = (text, some (kind, body)))
    (hbody : kind.contentIn body = some (content, rest)) :
    tokensOf cs = (kind.tokens content).bind fun part =>
      (tokensOf rest).map fun others => textTokens text ++ part ++ others := by
  rw [← lexemesFrom_tokens 0, lexemesFrom_part_tokens h hbody, lexemesFrom_tokens]

end Parts

/-! ## Cutting a source -/

/-- A part that is not left open. -/
def Part.isClosed : Part → Bool
  | .unclosed .. => false
  | _ => true

/-- A source that can be followed by a comment or a tag. -/
structure Complete (source : List Char) : Prop where
  closed : ∀ part ∈ scan source, part.isClosed = true
  noBrace : source.getLast? ≠ some '\x7b'

instance (source : List Char) : Decidable (Complete source) :=
  decidable_of_iff ((∀ part ∈ scan source, part.isClosed = true) ∧ source.getLast? ≠ some '\x7b')
    ⟨fun h => ⟨h.1, h.2⟩, fun h => ⟨h.closed, h.noBrace⟩⟩

theorem Complete.nil : Complete [] where
  closed part hpart := by
    rw [scan, scanFrom_text rfl] at hpart
    cases hpart
  noBrace := nofun

/-- The content of a comment or a tag that ends where its delimiter does. -/
def Delimiter.Encloses (kind : Delimiter) (content : List Char) : Prop :=
  kind.contentIn (content ++ [kind.closing, '\x7d']) = some (content, [])

instance (kind : Delimiter) (content : List Char) : Decidable (kind.Encloses content) :=
  inferInstanceAs (Decidable (_ = _))

theorem commentEnd_more {cs content rest : List Char} (h : commentEnd cs = some (content, rest))
    (more : List Char) : commentEnd (cs ++ more) = some (content, rest ++ more) := by
  rw [commentEnd_append h, List.append_assoc]
  exact commentEnd_content (commentEnd_noEnd h) (rest ++ more)

theorem closingIn_more {close : Char} {quote : Option Char} {depth : Nat}
    {cs content rest : List Char} (h : closingIn close quote depth cs = some (content, rest))
    (more : List Char) :
    closingIn close quote depth (cs ++ more) = some (content, rest ++ more) := by
  fun_induction closingIn close quote depth cs generalizing content with
  | case1 => cases h
  | case2 => cases h
  | case3 depth q d tail ih =>
    obtain ⟨⟨inner, after⟩, hfound, heq⟩ := Option.map_eq_some_iff.1 h
    cases heq
    rw [List.cons_append, List.cons_append, closingIn_quotedPair, ih hfound, Option.map_some]
  | case4 depth c tail q hc ih =>
    obtain ⟨inner, rfl, hfound⟩ := of_map_cons h
    rw [List.cons_append, closingIn_quotedChar close q depth hc, ih hfound, Option.map_some]
  | case5 depth c tail hquote ih =>
    obtain ⟨inner, rfl, hfound⟩ := of_map_cons h
    rw [List.cons_append, closingIn_code, if_pos hquote, ih hfound, Option.map_some]
  | case6 depth tail hquote ih =>
    obtain ⟨inner, rfl, hfound⟩ := of_map_cons h
    rw [List.cons_append, closingIn_code, if_neg hquote, if_pos rfl, ih hfound, Option.map_some]
  | case7 depth c tail hquote hopen hshut ih =>
    obtain ⟨inner, rfl, hfound⟩ := of_map_cons h
    rw [List.cons_append, closingIn_code, if_neg hquote, if_neg hopen, if_pos hshut, ih hfound,
      Option.map_some]
  | case8 depth c tail hquote hopen hshut hend =>
    obtain ⟨rfl, rfl, hhead⟩ := hend
    cases h
    obtain ⟨after, rfl⟩ := List.head?_eq_some_iff.1 hhead
    rw [List.cons_append, closingIn_code, if_neg hquote, if_neg hopen, if_neg hshut,
      if_pos ⟨rfl, rfl, rfl⟩]
    rfl
  | case9 depth c tail hquote hopen hshut hend ih =>
    obtain ⟨inner, rfl, hfound⟩ := of_map_cons h
    have hhead : (tail ++ more).head? = tail.head? := by
      rw [closingIn_append hfound]
      cases inner <;> rfl
    rw [List.cons_append, closingIn_code, if_neg hquote, if_neg hopen, if_neg hshut, hhead,
      if_neg hend, ih hfound, Option.map_some]

theorem Delimiter.contentIn_more {kind : Delimiter} {cs content rest : List Char}
    (h : kind.contentIn cs = some (content, rest)) (more : List Char) :
    kind.contentIn (cs ++ more) = some (content, rest ++ more) := by
  cases kind with
  | comment => exact commentEnd_more h more
  | print => exact closingIn_more h more
  | tag => exact closingIn_more h more

theorem Delimiter.Encloses.contentIn {kind : Delimiter} {content : List Char}
    (h : kind.Encloses content) (rest : List Char) :
    kind.contentIn (content ++ kind.closing :: '\x7d' :: rest) = some (content, rest) := by
  have hmore := contentIn_more h rest
  rwa [List.append_assoc, List.nil_append] at hmore

/-- More characters behind a delimiter do not change where a part opens. -/
theorem openingIn_more {cs text body : List Char} {kind : Delimiter}
    (h : openingIn cs = (text, some (kind, body))) (more : List Char) :
    openingIn (cs ++ more) = (text, some (kind, body ++ more)) := by
  induction cs using openingIn.induct generalizing text with
  | case1 | case2 | case3 =>
    cases h
    rfl
  | case4 c tail hprint htag hcomment ih =>
    rw [openingIn.eq_4 _ _ hprint htag hcomment] at h
    obtain ⟨rfl, hsome⟩ := Prod.mk.inj h
    have htail : openingIn tail = ((openingIn tail).1, some (kind, body)) := Prod.ext rfl hsome
    have hnext : ∀ other : Delimiter, ¬ (c = '\x7b' ∧ (tail ++ more).head? = some other.inner) := by
      rintro other ⟨rfl, hhead⟩
      cases tail with
      | nil => cases htail
      | cons d tail =>
        obtain rfl : d = other.inner := Option.some.inj hhead
        cases other with
        | print => exact hprint tail rfl rfl
        | tag => exact htag tail rfl rfl
        | comment => exact hcomment tail rfl rfl
    rw [List.cons_append, openingIn_cons hnext, ih htail]
  | case5 => cases h

/-- Whether all parts are closed does not depend on where a source starts. -/
theorem closed_scanFrom {start : Nat} {cs : List Char}
    (h : ∀ part ∈ scanFrom start cs, part.isClosed = true) (start' : Nat) :
    ∀ part ∈ scanFrom start' cs, part.isClosed = true := by
  have htext : ∀ start text, ∀ part ∈ textPart start text, part.isClosed = true := by
    intro start text part hpart
    unfold textPart at hpart
    split at hpart
    · cases hpart
    · rw [List.mem_singleton.1 hpart]
      rfl
  induction cs using parts_induction generalizing start start' with
  | text cs text hopening =>
    rw [scanFrom_text hopening]
    exact htext start' cs
  | unclosed cs text kind body hopening hcontent =>
    rw [scanFrom_unclosed hopening hcontent] at h
    cases h _ (List.mem_append_right _ List.mem_cons_self)
  | part cs text kind body content rest hopening hcontent ih =>
    rw [scanFrom_part hopening hcontent] at h ⊢
    rw [List.forall_mem_append, List.forall_mem_cons] at h ⊢
    refine ⟨htext start' text, ?_, ih h.2.2 _⟩
    cases kind <;> rfl

namespace Complete

variable {front text body content rest : List Char} {kind : Delimiter}

/-- The first part of a complete source has an end. -/
theorem contentIn_ne_none (h : Complete front)
    (hopening : openingIn front = (text, some (kind, body))) : kind.contentIn body ≠ none := by
  intro hnone
  have hclosed := h.closed
  rw [scan, scanFrom_unclosed hopening hnone] at hclosed
  cases hclosed _ (List.mem_append_right _ List.mem_cons_self)

/-- What follows the first part of a complete source is complete. -/
theorem of_part (h : Complete front) (hopening : openingIn front = (text, some (kind, body)))
    (hcontent : kind.contentIn body = some (content, rest)) : Complete rest where
  closed := by
    have hclosed := h.closed
    rw [scan, scanFrom_part hopening hcontent, List.forall_mem_append,
      List.forall_mem_cons] at hclosed
    exact closed_scanFrom hclosed.2.2 0
  noBrace hbrace := by
    obtain ⟨initial, rfl⟩ := List.getLast?_eq_some_iff.1 hbrace
    refine h.noBrace (List.getLast?_eq_some_iff.2 ⟨text ++ (kind.enclose content ++ initial), ?_⟩)
    rw [eq_of_part hopening hcontent]
    simp only [List.append_assoc]

/-- Induction on a complete source, part by part: it is one text, or it goes on after its first
    part. -/
@[elab_as_elim]
theorem parts_induction {motive : ∀ front, Complete front → Prop}
    (text : ∀ front (h : Complete front), Plain front → openingIn front = (front, none) →
      motive front h)
    (part : ∀ front text kind body content rest (h : Complete front) (hrest : Complete rest),
      openingIn front = (text, some (kind, body)) → kind.contentIn body = some (content, rest) →
      motive rest hrest → motive front h)
    {front : List Char} (h : Complete front) : motive front h := by
  induction front using Syntax.parts_induction with
  | text front found hopening =>
    have hplain := openingIn_plain front
    obtain rfl := openingIn_none hopening
    rw [hopening] at hplain
    exact text _ h hplain hopening
  | unclosed front found kind body hopening hnone =>
    exact absurd hnone (h.contentIn_ne_none hopening)
  | part front found kind body content rest hopening hcontent ih =>
    have hrest := h.of_part hopening hcontent
    exact part front found kind body content rest h hrest hopening hcontent (ih hrest)

end Complete

/-- The tokens of a source that is cut at a comment or a tag. By induction on what stands before. -/
theorem tokensOf_append {front : List Char} (hfront : Complete front) {kind : Delimiter}
    {content : List Char} (hcontent : kind.Encloses content) (rest : List Char) :
    tokensOf (front ++ (kind.enclose content ++ rest)) = (tokensOf front).bind fun before =>
      (kind.tokens content).bind fun part =>
        (tokensOf rest).map fun others => before ++ part ++ others := by
  rw [Delimiter.enclose_append]
  induction hfront using Complete.parts_induction with
  | text front hfront hplain hopening =>
    rw [tokensOf_part (openingIn_text hplain hfront.noBrace kind _) (hcontent.contentIn rest),
      tokensOf_text hopening]
    rfl
  | part front text kind' body content' rest' _ _ hopening hfound ih =>
    rw [tokensOf_part (openingIn_more hopening _) (Delimiter.contentIn_more hfound _),
      tokensOf_part hopening hfound, ih]
    cases kind'.tokens content' with
    | none => rfl
    | some part' =>
      cases tokensOf rest' with
      | none => rfl
      | some others' =>
        cases kind.tokens content with
        | none => rfl
        | some part =>
          cases tokensOf rest with
          | none => rfl
          | some others => simp

/-- The tokens of a source are texts and complete tags. -/
theorem bracketed_tokensOf {source : List Char} {ts : List Token} (h : tokensOf source = some ts) :
    Bracketed ts := by
  unfold tokensOf tokensIn at h
  cases hls : lexemes source with
  | error fault =>
    rw [hls] at h
    cases h
  | ok ls =>
    rw [hls] at h
    cases h
    have hlaid : Laid [] source ls := laid_of_lexemesFrom hls
    exact hlaid.bracketed

end Stencil.Syntax
