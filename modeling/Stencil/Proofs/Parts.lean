import Stencil.Syntax.Lexeme

/-!
# The parts of a source one at a time

`lexemes` scans all of a source before it reads the code of its tags. Here both are done for one
part after the other: the tokens from an offset on are those of the text before the next delimiter,
those of the part that it opens, and those of what follows.

Results:
* `openingIn_plain`, `commentEnd_noEnd`: what texts and comments do not contain.
* `scanFrom_text`, `scanFrom_unclosed`, `scanFrom_part`: the parts from an offset on.
* `lexemesFrom_text`, `lexemesFrom_unclosed`, `lexemesFrom_part`: the tokens from an offset on.
* `parts_induction`: the induction on the parts of a text that these equations follow.
-/

namespace Stencil.Syntax

/-! ## Delimiters -/

namespace Delimiter

/-- A part with its delimiters. -/
def enclose (kind : Delimiter) (content : List Char) : List Char :=
  '\x7b' :: kind.inner :: (content ++ [kind.closing, '\x7d'])

theorem utf8Size_inner (kind : Delimiter) : kind.inner.utf8Size = 1 := by cases kind <;> rfl

theorem utf8Size_closing (kind : Delimiter) : kind.closing.utf8Size = 1 := by cases kind <;> rfl

theorem utf8Length_enclose (kind : Delimiter) (content : List Char) :
    Text.utf8Length (kind.enclose content) = 2 + Text.utf8Length content + 2 := by
  have hopen : ('\x7b').utf8Size = 1 := rfl
  have hclose : ('\x7d').utf8Size = 1 := rfl
  simp only [enclose, Text.utf8Length_cons, Text.utf8Length_append, Text.utf8Length_nil,
    utf8Size_inner, utf8Size_closing]
  omega

theorem enclose_append (kind : Delimiter) (content rest : List Char) :
    kind.enclose content ++ rest =
      '\x7b' :: kind.inner :: (content ++ kind.closing :: '\x7d' :: rest) := by
  rw [enclose, List.cons_append, List.cons_append, List.append_assoc]
  rfl

end Delimiter

/-- The delimiter of a tag. -/
def tagDelimiter (isPrint : Bool) : Delimiter := if isPrint then .print else .tag

/-- The token that opens a tag. -/
def openingToken (isPrint : Bool) : Token := if isPrint then .printOpen else .tagOpen

/-- The token that closes a tag. -/
def closingToken (isPrint : Bool) : Token := if isPrint then .printClose else .tagClose

theorem isSpace_iff {c : Char} :
    isSpace c = true ↔ c = ' ' ∨ c = '\t' ∨ c = '\n' ∨ c = '\r' := by
  simp [isSpace, or_assoc]

/-! ## Text before a delimiter -/

theorem openingIn_cons {c : Char} {rest : List Char} (h : ∀ kind : Delimiter,
    ¬ (c = '\x7b' ∧ rest.head? = some kind.inner)) :
    openingIn (c :: rest) = (c :: (openingIn rest).1, (openingIn rest).2) := by
  rw [openingIn]
  · rintro tail rfl rfl
    exact h .print ⟨rfl, rfl⟩
  · rintro tail rfl rfl
    exact h .tag ⟨rfl, rfl⟩
  · rintro tail rfl rfl
    exact h .comment ⟨rfl, rfl⟩

theorem openingIn_delimiter (kind : Delimiter) (rest : List Char) :
    openingIn ('\x7b' :: kind.inner :: rest) = ([], some (kind, rest)) := by
  cases kind <;> rfl

/-- Without a delimiter the text is all there is. -/
theorem openingIn_none {cs text : List Char} (h : openingIn cs = (text, none)) : cs = text := by
  induction cs using openingIn.induct generalizing text with
  | case1 => cases h
  | case2 => cases h
  | case3 => cases h
  | case4 c rest h1 h2 h3 ih =>
    rw [openingIn.eq_4 _ _ h1 h2 h3, Prod.mk.injEq] at h
    have hrest : rest = (openingIn rest).1 := ih (Prod.ext rfl h.2)
    rw [← h.1, ← hrest]
  | case5 =>
    cases h
    rfl

/-- The text before a delimiter is at the front. -/
theorem openingIn_prefix (cs : List Char) : (openingIn cs).1 <+: cs := by
  rcases hopening : openingIn cs with ⟨text, _ | ⟨kind, body⟩⟩
  · exact ⟨[], by rw [List.append_nil, openingIn_none hopening]⟩
  · exact ⟨_, (openingIn_append hopening).symm⟩

/-- A text without a delimiter that opens a part. -/
def Plain (text : List Char) : Prop := ∀ kind : Delimiter, ¬ ['\x7b', kind.inner] <:+: text

theorem Plain.nil : Plain [] := fun _ h => List.cons_ne_nil _ _ (List.eq_nil_of_infix_nil h)

theorem plain_cons {c : Char} {text : List Char} :
    Plain (c :: text) ↔
      (∀ kind : Delimiter, ¬ (c = '\x7b' ∧ text.head? = some kind.inner)) ∧ Plain text := by
  have hprefix (kind : Delimiter) :
      ['\x7b', kind.inner] <+: c :: text ↔ c = '\x7b' ∧ text.head? = some kind.inner := by
    rw [List.cons_prefix_cons, eq_comm]
    refine and_congr_right fun _ => ?_
    cases text with
    | nil => simp
    | cons d text => simp [List.cons_prefix_cons, eq_comm]
  simp only [Plain, List.infix_cons_iff, hprefix, not_or, forall_and]

/-- The text before a delimiter has none in it. -/
theorem openingIn_plain (cs : List Char) : Plain (openingIn cs).1 := by
  induction cs using openingIn.induct with
  | case1 => exact .nil
  | case2 => exact .nil
  | case3 => exact .nil
  | case4 c rest h1 h2 h3 ih =>
    rw [openingIn.eq_4 _ _ h1 h2 h3]
    refine plain_cons.mpr ⟨?_, ih⟩
    rintro kind ⟨rfl, hhead⟩
    obtain ⟨tail, htail⟩ := List.head?_eq_some_iff.mp hhead
    obtain ⟨after, hafter⟩ := openingIn_prefix rest
    rw [htail] at hafter
    cases kind with
    | print => exact h1 _ rfl hafter.symm
    | tag => exact h2 _ rfl hafter.symm
    | comment => exact h3 _ rfl hafter.symm
  | case5 => exact .nil

/-- The content of a comment has no delimiter that closes it. -/
theorem commentEnd_noEnd {cs content rest : List Char} (h : commentEnd cs = some (content, rest)) :
    ¬ ['#', '\x7d'] <:+: content := by
  induction cs using commentEnd.induct generalizing content with
  | case1 =>
    cases h
    exact fun h => List.cons_ne_nil _ _ (List.eq_nil_of_infix_nil h)
  | case2 c tail hne ih =>
    rw [commentEnd.eq_2 _ _ hne] at h
    obtain ⟨inner, rfl, hinner⟩ := of_map_cons h
    intro hend
    obtain hend | hend := List.infix_cons_iff.mp hend
    · obtain ⟨hc, hhead⟩ := List.cons_prefix_cons.mp hend
      obtain ⟨after, rfl⟩ := hhead
      exact hne _ hc.symm (commentEnd_append hinner)
    · exact ih hinner hend
  | case3 => cases h

/-! ## The tokens from an offset on -/

/-- The tokens of a tag. -/
theorem lexemes_code (start : Nat) (isPrint : Bool) (content : List Char) :
    (Part.code start isPrint content).lexemes =
      (codeLexemes (start + 2) content).map fun inner =>
        ⟨openingToken isPrint, ⟨start, start + 2⟩⟩ :: inner ++
          [⟨closingToken isPrint, ⟨start + 2 + Text.utf8Length content,
            start + 2 + Text.utf8Length content + 2⟩⟩] := by
  rw [Part.lexemes]
  cases isPrint <;> cases codeLexemes (start + 2) content <;> rfl

/-- The tokens of the text before a delimiter. -/
def textLexemes (start : Nat) (text : List Char) : List Lexeme :=
  if text.isEmpty then []
  else [⟨.text (String.ofList text), ⟨start, start + Text.utf8Length text⟩⟩]

/-- The tokens of a source whose first character has the given byte offset. -/
def lexemesFrom (start : Nat) (cs : List Char) : Except Fault (List Lexeme) :=
  lexemesOf (scanFrom start cs)

theorem lexemesOf_textPart (start : Nat) (text : List Char) (parts : List Part) :
    lexemesOf (textPart start text ++ parts) =
      (lexemesOf parts).map fun rest => textLexemes start text ++ rest := by
  rw [textPart, textLexemes]
  split
  · rw [List.nil_append]
    cases lexemesOf parts <;> rfl
  · rw [List.singleton_append, lexemesOf]
    cases lexemesOf parts <;> rfl

theorem scanFrom_text {start : Nat} {cs text : List Char} (h : openingIn cs = (text, none)) :
    scanFrom start cs = textPart start cs := by
  rw [scanFrom]
  split
  · rename_i hopening
    rw [openingIn_none hopening]
  · rename_i hopening
    rw [h] at hopening
    cases hopening

theorem scanFrom_unclosed {start : Nat} {cs text body : List Char} {kind : Delimiter}
    (h : openingIn cs = (text, some (kind, body))) (hbody : kind.contentIn body = none) :
    scanFrom start cs = textPart start text ++
      [.unclosed (start + Text.utf8Length text) (start + Text.utf8Length cs) kind] := by
  rw [scanFrom]
  split
  · rename_i hopening
    rw [h] at hopening
    cases hopening
  · rename_i hopening
    rw [h] at hopening
    cases hopening
    split
    · rfl
    · rename_i hfound
      rw [hbody] at hfound
      cases hfound

theorem scanFrom_part {start : Nat} {cs text body content rest : List Char} {kind : Delimiter}
    (h : openingIn cs = (text, some (kind, body)))
    (hbody : kind.contentIn body = some (content, rest)) :
    scanFrom start cs = textPart start text ++
      kind.part (start + Text.utf8Length text) content ::
        scanFrom (start + Text.utf8Length text + 2 + Text.utf8Length content + 2) rest := by
  rw [scanFrom]
  split
  · rename_i hopening
    rw [h] at hopening
    cases hopening
  · rename_i hopening
    rw [h] at hopening
    cases hopening
    split
    · rename_i hfound
      rw [hbody] at hfound
      cases hfound
    · rename_i hfound
      rw [hbody] at hfound
      cases hfound
      rfl

theorem lexemesFrom_text {start : Nat} {cs text : List Char} (h : openingIn cs = (text, none)) :
    lexemesFrom start cs = .ok (textLexemes start cs) := by
  rw [lexemesFrom, scanFrom_text h, ← List.append_nil (textPart start cs), lexemesOf_textPart]
  exact congrArg Except.ok (List.append_nil _)

theorem lexemesFrom_nil (start : Nat) : lexemesFrom start [] = .ok [] := lexemesFrom_text rfl

theorem lexemesFrom_unclosed {start : Nat} {cs text body : List Char} {kind : Delimiter}
    (h : openingIn cs = (text, some (kind, body))) (hbody : kind.contentIn body = none) :
    lexemesFrom start cs = .error ⟨⟨start + Text.utf8Length text, start + Text.utf8Length cs⟩,
      .unclosed kind, []⟩ := by
  rw [lexemesFrom, scanFrom_unclosed h hbody, lexemesOf_textPart]
  rfl

theorem lexemesFrom_part {start : Nat} {cs text body content rest : List Char} {kind : Delimiter}
    (h : openingIn cs = (text, some (kind, body)))
    (hbody : kind.contentIn body = some (content, rest)) :
    lexemesFrom start cs = (do
      let part ← (kind.part (start + Text.utf8Length text) content).lexemes
      let others ← lexemesFrom (start + Text.utf8Length text + 2 + Text.utf8Length content + 2) rest
      pure (textLexemes start text ++ part ++ others)) := by
  rw [lexemesFrom, scanFrom_part h hbody, lexemesOf_textPart, lexemesOf]
  cases (kind.part (start + Text.utf8Length text) content).lexemes with
  | error fault => rfl
  | ok part =>
    show (lexemesFrom _ rest >>= fun others => _).map _ = lexemesFrom _ rest >>= _
    cases lexemesFrom (start + Text.utf8Length text + 2 + Text.utf8Length content + 2) rest with
    | error fault => rfl
    | ok others => exact congrArg Except.ok (List.append_assoc _ _ _).symm

/-- What precedes the rest of a source, up to the end of its first part, in bytes. -/
theorem utf8Length_part (front text : List Char) (kind : Delimiter) (content : List Char) :
    Text.utf8Length (front ++ text ++ kind.enclose content) =
      Text.utf8Length front + Text.utf8Length text + 2 + Text.utf8Length content + 2 := by
  rw [Text.utf8Length_append, Text.utf8Length_append, Delimiter.utf8Length_enclose]
  omega

section Part

variable {cs text body content rest : List Char} {kind : Delimiter}
  (h : openingIn cs = (text, some (kind, body)))
  (hbody : kind.contentIn body = some (content, rest))

include h hbody

/-- A source is its first text, its first part, and the rest. -/
theorem eq_of_part : cs = text ++ (kind.enclose content ++ rest) := by
  rw [openingIn_append h, Delimiter.contentIn_append hbody, Delimiter.enclose_append]

variable (front : List Char)

theorem lexemesFrom_part_ok {ls : List Lexeme} :
    lexemesFrom (Text.utf8Length front) cs = .ok ls ↔ ∃ part others,
      (kind.part (Text.utf8Length (front ++ text)) content).lexemes = .ok part ∧
      lexemesFrom (Text.utf8Length (front ++ text ++ kind.enclose content)) rest = .ok others ∧
      ls = textLexemes (Text.utf8Length front) text ++ part ++ others := by
  rw [lexemesFrom_part h hbody, utf8Length_part, Text.utf8Length_append]
  generalize lexemesFrom _ rest = after
  cases (kind.part (Text.utf8Length front + Text.utf8Length text) content).lexemes with
  | error fault => exact ⟨nofun, nofun⟩
  | ok part =>
    cases after with
    | error fault => exact ⟨nofun, nofun⟩
    | ok others =>
      constructor
      · rintro ⟨⟩
        exact ⟨part, others, rfl, rfl, rfl⟩
      · rintro ⟨_, _, ⟨⟩, ⟨⟩, rfl⟩
        rfl

theorem lexemesFrom_part_error {fault : Fault} :
    lexemesFrom (Text.utf8Length front) cs = .error fault ↔
      (kind.part (Text.utf8Length (front ++ text)) content).lexemes = .error fault ∨
      ∃ part, (kind.part (Text.utf8Length (front ++ text)) content).lexemes = .ok part ∧
        lexemesFrom (Text.utf8Length (front ++ text ++ kind.enclose content)) rest =
          .error fault := by
  rw [lexemesFrom_part h hbody, utf8Length_part, Text.utf8Length_append]
  generalize lexemesFrom _ rest = after
  cases (kind.part (Text.utf8Length front + Text.utf8Length text) content).lexemes with
  | error found =>
    constructor
    · rintro ⟨⟩
      exact .inl rfl
    · rintro (⟨⟨⟩⟩ | ⟨_, ⟨⟩, _⟩)
      rfl
  | ok part =>
    cases after with
    | error found =>
      constructor
      · rintro ⟨⟩
        exact .inr ⟨part, rfl, rfl⟩
      · rintro (⟨⟨⟩⟩ | ⟨_, ⟨⟩, ⟨⟩⟩)
        rfl
    | ok others => exact ⟨nofun, nofun⟩

end Part

/-- Induction on a source, part by part: it is one text, its first part has no end, or it goes on
    after that part. -/
@[elab_as_elim]
theorem parts_induction {motive : List Char → Prop}
    (text : ∀ cs text, openingIn cs = (text, none) → motive cs)
    (unclosed : ∀ cs text kind body, openingIn cs = (text, some (kind, body)) →
      kind.contentIn body = none → motive cs)
    (part : ∀ cs text kind body content rest, openingIn cs = (text, some (kind, body)) →
      kind.contentIn body = some (content, rest) → motive rest → motive cs)
    (cs : List Char) : motive cs := by
  induction hn : cs.length using Nat.strongRecOn generalizing cs with
  | ind n ih =>
  subst hn
  rcases hopening : openingIn cs with ⟨front, _ | ⟨kind, body⟩⟩
  · exact text cs front hopening
  cases hcontent : kind.contentIn body with
  | none => exact unclosed cs front kind body hopening hcontent
  | some found =>
    obtain ⟨content, rest⟩ := found
    refine part cs front kind body content rest hopening hcontent (ih _ ?_ rest rfl)
    rw [eq_of_part hopening hcontent, Delimiter.enclose_append]
    simp only [List.length_append, List.length_cons]
    omega

end Stencil.Syntax
