import Stencil.Number
import Stencil.Text.Span

/-!
# Tokens

The tokens of a template source: pieces of plain text, the delimiters of tags, and what is written
inside a tag. `Token.describe` is how a token is named in messages.
-/

namespace Stencil

/-- The words with a meaning of their own in a tag. -/
inductive Keyword where
  | «include»
  | embed
  | endEmbed
  | «extends»
  | block
  | endBlock
  | «with»
  | only
  | ignore
  | missing
deriving DecidableEq, Repr, Inhabited

namespace Keyword

/-- The spelling of a keyword. -/
def spelling : Keyword → String
  | .«include» => "include"
  | .embed => "embed"
  | .endEmbed => "endembed"
  | .«extends» => "extends"
  | .block => "block"
  | .endBlock => "endblock"
  | .«with» => "with"
  | .only => "only"
  | .ignore => "ignore"
  | .missing => "missing"

/-- All keywords. -/
def all : List Keyword :=
  [.«include», .embed, .endEmbed, .«extends», .block, .endBlock, .«with», .only, .ignore, .missing]

/-- The keyword with a spelling. -/
def ofSpelling? (word : String) : Option Keyword := all.find? (·.spelling == word)

end Keyword

/-- The punctuation inside a tag. -/
inductive Mark where
  | braceOpen
  | braceClose
  | bracketOpen
  | bracketClose
  | parenOpen
  | parenClose
  | comma
  | colon
  | dot
  | tilde
deriving DecidableEq, Repr, Inhabited

namespace Mark

/-- The character of a mark. -/
def char : Mark → Char
  | .braceOpen => '{'
  | .braceClose => '}'
  | .bracketOpen => '['
  | .bracketClose => ']'
  | .parenOpen => '('
  | .parenClose => ')'
  | .comma => ','
  | .colon => ':'
  | .dot => '.'
  | .tilde => '~'

/-- All marks. -/
def all : List Mark :=
  [.braceOpen, .braceClose, .bracketOpen, .bracketClose, .parenOpen, .parenClose, .comma, .colon,
    .dot, .tilde]

/-- The mark written as a character. -/
def ofChar? (c : Char) : Option Mark := all.find? (·.char == c)

end Mark

/-- A token (`Token`). A number is the double nearest to its numeral, or nothing when that is too
    large. -/
inductive Token where
  | text (content : String)
  | printOpen
  | printClose
  | tagOpen
  | tagClose
  | keyword (word : Keyword)
  | bool (value : Bool)
  | null
  | mark (mark : Mark)
  | ident (name : String)
  | string (value : String)
  | number (value : Option Double)
deriving DecidableEq, Repr, Inhabited

namespace Token

/-- The token of a word: a literal, a keyword or an identifier. -/
def ofWord (word : String) : Token :=
  if word = "true" then .bool true
  else if word = "false" then .bool false
  else if word = "null" then .null
  else match Keyword.ofSpelling? word with
    | some k => .keyword k
    | none => .ident word

/-- The text of a numeral without exponent. -/
def numeralText (value : Option Double) : String :=
  match value with
  | some x => String.ofList x.plainText
  | none => "inf"

/-- The name of a token in messages (`format_token`). -/
def describe : Token → String
  | .text _ => "template text"
  | .printOpen => "'\x7b\x7b'"
  | .printClose => "'\x7d\x7d'"
  | .tagOpen => "'\x7b%'"
  | .tagClose => "'%\x7d'"
  | .keyword k => "keyword '" ++ k.spelling ++ "'"
  | .bool true => "'true'"
  | .bool false => "'false'"
  | .null => "'null'"
  | .mark m => "'" ++ m.char.toString ++ "'"
  | .ident name => "identifier '" ++ name ++ "'"
  | .string value => "string \"" ++ value ++ "\""
  | .number value => "number " ++ numeralText value

end Token

/-- A token at its place in the source. -/
structure Lexeme where
  token : Token
  span : Span
deriving DecidableEq, Repr, Inhabited

end Stencil
