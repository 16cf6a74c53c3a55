/-!
# Byte spans of a source text

Positions in a source text are byte offsets into its UTF-8 form. A text is handled as a list of
characters, and `utf8Length` gives the number of bytes a piece of it takes.

* `utf8Length_append`: lengths add up, so the spans of consecutive pieces meet.
-/

namespace Stencil

/-- The bytes from `start` up to, but not including, `stop`. -/
structure Span where
  start : Nat
  stop : Nat
deriving DecidableEq, Repr, Inhabited

namespace Span

/-- The written form of a span: `3..9`. -/
def text (s : Span) : String := s!"{s.start}..{s.stop}"

/-- From the start of the first span to the end of the second. -/
def upTo (first last : Span) : Span := ⟨first.start, last.stop⟩

end Span

namespace Text

/-- The number of bytes of a piece of text in UTF-8. -/
def utf8Length : List Char → Nat
  | [] => 0
  | c :: cs => c.utf8Size + utf8Length cs

@[simp] theorem utf8Length_nil : utf8Length [] = 0 := rfl

@[simp] theorem utf8Length_cons (c : Char) (cs : List Char) :
    utf8Length (c :: cs) = c.utf8Size + utf8Length cs := rfl

theorem utf8Length_append (xs ys : List Char) :
    utf8Length (xs ++ ys) = utf8Length xs + utf8Length ys := by
  induction xs with
  | nil => simp
  | cons c cs ih => rw [List.cons_append, utf8Length_cons, utf8Length_cons, ih, Nat.add_assoc]

end Text

end Stencil
