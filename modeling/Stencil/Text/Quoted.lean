import Stencil.Text.Unprintable

/-!
# Quoted text

A text between double quotes, for listings. Whatever could not be read off the listing is written
as an escape: quotes and backslashes, line breaks, combining and unprintable characters.
-/

namespace Stencil.Text

/-- The escape of a character by its number. -/
def numberEscape (c : Char) : List Char :=
  '\\' :: 'u' :: '\x7b' :: (Nat.toDigits 16 c.toNat ++ ['\x7d'])

/-- A character of a quoted text. -/
def quotedChar (c : Char) : List Char :=
  if c = '"' then ['\\', '"']
  else if c = '\\' then ['\\', '\\']
  else if c = '\n' then ['\\', 'n']
  else if c = '\r' then ['\\', 'r']
  else if c = '\t' then ['\\', 't']
  else if c = '\x00' then ['\\', '0']
  else if isCombining c || isUnprintable c then numberEscape c
  else [c]

/-- The characters of a quoted text, without the quotes. -/
def quotedChars (cs : List Char) : List Char := cs.flatMap quotedChar

/-- A quoted text. -/
def quoted (s : String) : String := String.ofList ('"' :: (quotedChars s.toList ++ ['"']))

end Stencil.Text
