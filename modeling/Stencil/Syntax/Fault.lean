import Stencil.Syntax.Token

/-!
# Faults of a template source

A fault is what is wrong, where, and what could have stood there instead. `Cause.message` holds all
the wordings.
-/

namespace Stencil.Syntax

/-- The delimited parts of a source (`Delimiter`). -/
inductive Delimiter where
  | print
  | tag
  | comment
deriving DecidableEq, Repr, Inhabited

namespace Delimiter

/-- The character after the opening brace, or before the closing one. -/
def inner : Delimiter → Char
  | .print => '{'
  | .tag => '%'
  | .comment => '#'

/-- The first of the two closing characters (`closer`); the second one is a brace. -/
def closing : Delimiter → Char
  | .print => '}'
  | .tag => '%'
  | .comment => '#'

/-- The name of a part in messages. -/
def describe : Delimiter → String
  | .print => "print tag"
  | .tag => "block tag"
  | .comment => "comment"

end Delimiter

/-- What can be wrong with a source (what a `ParseError` tells). -/
inductive Cause where
  | unclosed (part : Delimiter)
  | unexpectedText (slice : String)
  | unexpectedToken (token : Token)
  | unexpectedEnd
  | repeatedExtends
  | nestedExtends
  | contentOutsideBlocks
deriving DecidableEq, Repr, Inhabited

/-- The wording of a cause. -/
def Cause.message : Cause → String
  | .unclosed part =>
    "Unclosed " ++ part.describe ++ ", expected '" ++ part.closing.toString ++ "\x7d'"
  | .unexpectedText slice => "Unexpected character '" ++ slice ++ "'"
  | .unexpectedToken token => "Unexpected " ++ token.describe
  | .unexpectedEnd => "Unexpected end of input"
  | .repeatedExtends => "Multiple extends tags are forbidden"
  | .nestedExtends => "Cannot use extends in a block or an embed"
  | .contentOutsideBlocks =>
    "A template that extends another one cannot include content outside blocks"

/-- What the grammar could have gone on with. -/
inductive Expectation where
  | token (token : Token)
  | endOfInput
deriving DecidableEq, Repr, Inhabited

/-- The name of an expectation in messages. -/
def Expectation.describe : Expectation → String
  | .token t => t.describe
  | .endOfInput => "end of input"

/-- A fault with its place and the alternatives, in the order in which they were considered
    (`ParseError`). -/
structure Fault where
  span : Span
  cause : Cause
  expected : List Expectation := []
deriving DecidableEq, Repr, Inhabited

namespace Fault

/-- The message without the place. -/
def message (f : Fault) : String := f.cause.message

/-- The message with the place. -/
def text (f : Fault) : String := s!"Parse error at {f.span.text}: {f.message}"

end Fault

end Stencil.Syntax
