import Stencil.Syntax.Fault

/-!
# The parts of a source

`scan` cuts a source into plain text, comments and tags, without looking at what tags contain. Inside
a tag a quoted string hides the delimiters, and so does a pair of braces.

* `openingIn_append`, `closingIn_append`, `commentEnd_append`: a cut loses nothing.
-/

namespace Stencil.Syntax

/-- One part of a source, with the byte offset at which it starts. Delimiters belong to the part
    but not to its content. An unclosed part is the last one. -/
inductive Part where
  | text (start : Nat) (content : List Char)
  | comment (start : Nat) (content : List Char)
  | code (start : Nat) (isPrint : Bool) (content : List Char)
  | unclosed (start stop : Nat) (kind : Delimiter)
deriving DecidableEq, Repr

/-- The text before the next opening delimiter, and that delimiter with what follows it
    (`find_opening`). -/
def openingIn : List Char → List Char × Option (Delimiter × List Char)
  | '{' :: '{' :: rest => ([], some (.print, rest))
  | '{' :: '%' :: rest => ([], some (.tag, rest))
  | '{' :: '#' :: rest => ([], some (.comment, rest))
  | c :: rest =>
    let found := openingIn rest
    (c :: found.1, found.2)
  | [] => ([], none)

/-- The content of a comment and what follows it (`find_closing` of a comment). -/
def commentEnd : List Char → Option (List Char × List Char)
  | '#' :: '}' :: rest => some ([], rest)
  | c :: rest => (commentEnd rest).map fun found => (c :: found.1, found.2)
  | [] => none

/-- The content of a tag and what follows it (`find_closing` of a tag). `quote` is the quotation
    mark of the string the search is in, and `depth` the number of open braces. -/
def closingIn (close : Char) (quote : Option Char) (depth : Nat) :
    List Char → Option (List Char × List Char)
  | [] => none
  | c :: rest =>
    match quote with
    | some q =>
      if c = '\\' then
        match rest with
        | [] => none
        | d :: rest => (closingIn close quote depth rest).map fun found => (c :: d :: found.1, found.2)
      else
        (closingIn close (if c = q then none else quote) depth rest).map fun found =>
          (c :: found.1, found.2)
    | none =>
      if c = '"' ∨ c = '\'' then
        (closingIn close (some c) depth rest).map fun found => (c :: found.1, found.2)
      else if c = '{' then
        (closingIn close none (depth + 1) rest).map fun found => (c :: found.1, found.2)
      else if c = '}' ∧ 0 < depth then
        (closingIn close none (depth - 1) rest).map fun found => (c :: found.1, found.2)
      else if depth = 0 ∧ c = close ∧ rest.head? = some '}' then some ([], rest.tail)
      else (closingIn close none depth rest).map fun found => (c :: found.1, found.2)

/-- The content of a delimited part and what follows it (`find_closing`). -/
def Delimiter.contentIn (kind : Delimiter) (rest : List Char) : Option (List Char × List Char) :=
  match kind with
  | .comment => commentEnd rest
  | _ => closingIn kind.closing none 0 rest

/-! ## A cut loses nothing -/

theorem openingIn_append {cs text rest : List Char} {kind : Delimiter}
    (h : openingIn cs = (text, some (kind, rest))) : cs = text ++ '{' :: kind.inner :: rest := by
  induction cs using openingIn.induct generalizing text with
  | case1 r => simp [openingIn] at h; obtain ⟨rfl, rfl, rfl⟩ := h; rfl
  | case2 r => simp [openingIn] at h; obtain ⟨rfl, rfl, rfl⟩ := h; rfl
  | case3 r => simp [openingIn] at h; obtain ⟨rfl, rfl, rfl⟩ := h; rfl
  | case4 c r h1 h2 h3 ih =>
    rw [openingIn] at h
    · simp only [Prod.mk.injEq] at h
      obtain ⟨rfl, h⟩ := h
      rw [List.cons_append, ← ih (Prod.ext rfl h)]
    · exact h1
    · exact h2
    · exact h3
  | case5 => simp [openingIn] at h

/-- A cut that was moved past a character was found after that character. -/
theorem of_map_cons {c : Char} {found : Option (List Char × List Char)} {content rest : List Char}
    (h : (found.map fun f => (c :: f.1, f.2)) = some (content, rest)) :
    ∃ tail, content = c :: tail ∧ found = some (tail, rest) := by
  obtain ⟨⟨x, y⟩, hx, hy⟩ := Option.map_eq_some_iff.1 h
  simp only [Prod.mk.injEq] at hy
  obtain ⟨rfl, rfl⟩ := hy
  exact ⟨x, rfl, hx⟩

theorem commentEnd_append {cs content rest : List Char} (h : commentEnd cs = some (content, rest)) :
    cs = content ++ '#' :: '}' :: rest := by
  induction cs using commentEnd.induct generalizing content with
  | case1 r => simp [commentEnd] at h; obtain ⟨rfl, rfl⟩ := h; rfl
  | case2 c r hne ih =>
    rw [commentEnd] at h
    · obtain ⟨tail, rfl, hx⟩ := of_map_cons h
      rw [List.cons_append, ← ih hx]
    · exact hne
  | case3 => simp [commentEnd] at h

theorem closingIn_append {close : Char} {quote : Option Char} {depth : Nat}
    {cs content rest : List Char} (h : closingIn close quote depth cs = some (content, rest)) :
    cs = content ++ close :: '}' :: rest := by
  fun_induction closingIn close quote depth cs generalizing content with
  | case1 => simp at h
  | case2 => simp at h
  | case3 depth q d r ih =>
    obtain ⟨⟨x, y⟩, hx, hy⟩ := Option.map_eq_some_iff.1 h
    simp only [Prod.mk.injEq] at hy
    obtain ⟨rfl, rfl⟩ := hy
    rw [List.cons_append, List.cons_append, ← ih hx]
  | case8 depth c r _ _ _ hend =>
    obtain ⟨rfl, rfl, hhead⟩ := hend
    simp only [Option.some.injEq, Prod.mk.injEq] at h
    obtain ⟨rfl, rfl⟩ := h
    cases r with
    | nil => simp at hhead
    | cons d r => simp at hhead; simp [hhead]
  | _ =>
    rename_i ih
    obtain ⟨tail, rfl, hx⟩ := of_map_cons h
    rw [List.cons_append, ← ih hx]

theorem Delimiter.contentIn_append {kind : Delimiter} {cs content rest : List Char}
    (h : kind.contentIn cs = some (content, rest)) :
    cs = content ++ kind.closing :: '}' :: rest := by
  cases kind with
  | print => exact closingIn_append h
  | tag => exact closingIn_append h
  | comment => exact commentEnd_append h

/-! ## Scanning -/

/-- The text part of a run of characters, if there are any. -/
def textPart (start : Nat) (content : List Char) : List Part :=
  if content.isEmpty then [] else [.text start content]

/-- The delimited part with a content. -/
def Delimiter.part (kind : Delimiter) (start : Nat) (content : List Char) : Part :=
  match kind with
  | .print => .code start true content
  | .tag => .code start false content
  | .comment => .comment start content

/-- The parts of a source whose first character has the given byte offset (the loop of `lex`). -/
def scanFrom (start : Nat) (cs : List Char) : List Part :=
  match _h : openingIn cs with
  | (text, none) => textPart start text
  | (text, some (kind, body)) =>
    let opened := start + Text.utf8Length text
    textPart start text ++
      match _hb : kind.contentIn body with
      | none => [.unclosed opened (start + Text.utf8Length cs) kind]
      | some (content, rest) =>
        kind.part opened content :: scanFrom (opened + 2 + Text.utf8Length content + 2) rest
termination_by cs.length
decreasing_by
  rw [openingIn_append _h, Delimiter.contentIn_append _hb]
  simp only [List.length_append, List.length_cons]
  omega

/-- The parts of a source. -/
def scan (source : List Char) : List Part := scanFrom 0 source

end Stencil.Syntax
