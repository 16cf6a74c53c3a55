import Stencil.Text.Span

/-!
# Reading a text

A text is read from its start by a cursor, which knows how many bytes it has passed. A step of
reading may fail; what with is up to the reader.
-/

namespace Stencil.Text

/-- The characters still to be read, and the byte offset of the first one. -/
structure Cursor where
  rest : List Char
  offset : Nat
deriving Repr

/-- A step that reads from a cursor. -/
abbrev Reading (ε α : Type) := StateT Cursor (Except ε) α

namespace Reading

variable {ε : Type}

/-- The next character. -/
def peek : Reading ε (Option Char) := fun c => .ok (c.rest.head?, c)

/-- Moves past one character. -/
def skip : Reading ε Unit := fun c =>
  match c.rest with
  | [] => .ok ((), c)
  | x :: xs => .ok ((), ⟨xs, c.offset + x.utf8Size⟩)

/-- Moves past the characters of a kind and answers them. -/
def takeWhile (p : Char → Bool) : Reading ε (List Char) := fun c =>
  let taken := c.rest.takeWhile p
  .ok (taken, ⟨c.rest.dropWhile p, c.offset + utf8Length taken⟩)

end Reading

end Stencil.Text
