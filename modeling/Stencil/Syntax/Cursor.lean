import Stencil.Syntax.Fault

/-!
# A cursor over tokens

The grammar decides by the next token alone. A cursor holds the tokens still to be read and what
has been looked for at the present one without success; that list is what a fault reports, and it
is dropped whenever a token is taken.
-/

namespace Stencil.Syntax

/-- The tokens still to be read. -/
structure Cursor where
  rest : List Lexeme
  /-- What the next token has been compared with in vain. -/
  tried : List Expectation := []
  /-- The length of the source in bytes. -/
  stop : Nat
deriving Repr

/-- A step that reads tokens. -/
abbrev Reading (α : Type) := StateT Cursor (Except Fault) α

namespace Cursor

/-- Remembers that the next token is none of these. -/
def note (c : Cursor) (e : Expectation) : Cursor :=
  if c.tried.contains e then c else { c with tried := c.tried ++ [e] }

/-- The fault of a source that cannot go on at the cursor. -/
def fault (c : Cursor) : Fault :=
  match c.rest with
  | [] => ⟨⟨c.stop, c.stop⟩, .unexpectedEnd, c.tried⟩
  | l :: _ => ⟨l.span, .unexpectedToken l.token, c.tried⟩

end Cursor

/-- Fails at the cursor. -/
def refuse {α : Type} : Reading α := fun c => .error c.fault

/-- Fails, with the end of the source among the alternatives. -/
def refuseUnlessEnd : Reading Unit := fun c =>
  if c.rest.isEmpty then .ok ((), c) else .error (c.note .endOfInput).fault

/-- The next token. -/
def next? : Reading (Option Lexeme) := fun c => .ok (c.rest.head?, c)

/-- Takes the next token. -/
def advance : Reading Unit := fun c => .ok ((), { c with rest := c.rest.tail, tried := [] })

/-- Takes the next token if it is the given one. -/
def accept? (t : Token) : Reading (Option Span) := fun c =>
  match c.rest with
  | l :: rest =>
    if l.token = t then .ok (some l.span, { c with rest := rest, tried := [] })
    else .ok (none, c.note (.token t))
  | [] => .ok (none, c.note (.token t))

/-- Takes the next token, which has to be the given one. -/
def expect (t : Token) : Reading Span := do
  match ← accept? t with
  | some span => pure span
  | none => refuse

/-- Takes the next token if it is an identifier. -/
def ident? : Reading (Option (String × Span)) := do
  match ← next? with
  | some ⟨.ident name, span⟩ =>
    advance
    pure (some (name, span))
  | _ => pure none

/-- Takes the next token, which has to be an identifier. -/
def ident : Reading (String × Span) := do
  match ← ident? with
  | some found => pure found
  | none => refuse

end Stencil.Syntax
