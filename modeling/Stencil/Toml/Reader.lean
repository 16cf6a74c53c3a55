import Stencil.Text.Cursor
import Stencil.Toml.Draft
import Stencil.Toml.Scalar

/-!
# Reading TOML

`read` reads a document, or says what is wrong and where. A document is a sequence of lines, each
blank, a header, or a key with a value; only strings in three quotes, arrays and what is inside them
go over the end of a line.

Arrays and tables in braces nest less than 80 deep, and so do the parts of a key.
-/

namespace Stencil.Toml

/-- A step that reads from a document. -/
abbrev Reading (α : Type) := Text.Reading Fault α

open Text.Reading (peek skip takeWhile)

/-- The nesting that is refused. -/
def maxDepth : Nat := 80

/-! ## Places and faults -/

/-- The byte offset of the cursor. -/
def offset : Reading Nat := fun c => .ok (c.offset, c)

/-- The number of the characters still to be read, and one. It bounds the steps of a loop that takes
    a character in each. -/
def steps : Reading Nat := fun c => .ok (c.rest.length + 1, c)

/-- Fails at a place. -/
def failAt {α : Type} (span : Span) (cause : Cause) : Reading α := fun _ => .error ⟨cause, span⟩

/-- Fails at the character under the cursor. -/
def fail {α : Type} (cause : Cause) : Reading α := fun c =>
  .error ⟨cause, c.offset, c.offset + ((c.rest.head?.map Char.utf8Size).getD 0)⟩

/-- Fails since the text is not what the grammar asks for. -/
def failExpecting {α : Type} (what : Option String) (expected : List String) : Reading α :=
  fail (.malformed what expected)

/-- Fails if there is a conflict, at a place. -/
def settle {α : Type} (span : Span) (what : Option String) :
    Except Conflict α → Reading α
  | .ok a => pure a
  | .error conflict => failAt span (.conflict what conflict)

/-! ## Blanks and lines -/

/-- Blanks within a line. -/
def isBlank (c : Char) : Bool := c == ' ' || c == '\t'

/-- Characters of a comment or of a string, apart from those that end it. -/
def isTextChar (c : Char) : Bool := c == '\t' || (0x20 ≤ c.toNat && c.toNat ≠ 0x7F)

/-- Moves past blanks. -/
def skipBlanks : Reading Unit := do
  let _ ← takeWhile isBlank
  pure ()

/-- Moves past a line break, if there is one. -/
def newline? : Reading Bool := fun c =>
  match c.rest with
  | '\n' :: rest => .ok (true, ⟨rest, c.offset + 1⟩)
  | '\r' :: '\n' :: rest => .ok (true, ⟨rest, c.offset + 2⟩)
  | _ => .ok (false, c)

/-- Moves past a comment, if there is one. -/
def skipComment : Reading Unit := do
  match ← peek with
  | some '#' =>
    let _ ← takeWhile isTextChar
    pure ()
  | _ => pure ()

/-- The end of a line. -/
def endLine : Reading Unit := do
  skipBlanks
  skipComment
  if ← newline? then pure ()
  else match ← peek with
    | none => pure ()
    | some _ => failExpecting none ["newline", "`#`"]

/-- Moves past blanks, comments and line breaks. -/
def skipLines : Nat → Reading Unit
  | 0 => pure ()
  | n + 1 => do
    skipBlanks
    skipComment
    if ← newline? then skipLines n else pure ()

/-- Moves past blanks and line breaks. -/
def skipSpace : Nat → Reading Unit
  | 0 => pure ()
  | n + 1 => do
    skipBlanks
    if ← newline? then skipSpace n else pure ()

/-! ## Strings -/

/-- The name of strings in double quotes. -/
def basicString : Option String := some "basic string"

/-- The name of strings in single quotes. -/
def literalString : Option String := some "literal string"

/-- So many hexadecimal digits. -/
def hexDigits : Nat → List Char → Reading (List Char)
  | 0, digits => pure digits.reverse
  | n + 1, digits => do
    match ← peek with
    | some c =>
      if Scalar.isHexDigit c then
        skip
        hexDigits n (c :: digits)
      else failExpecting (some "unicode escape sequence") []
    | none => failExpecting (some "unicode escape sequence") []

/-- A character by its number, which has so many hexadecimal digits. -/
def numbered (width : Nat) : Reading Char := do
  let start ← offset
  let digits ← hexDigits width []
  let n := Scalar.digitsValue 16 digits
  if n.isValidChar then pure (Char.ofNat n)
  else failAt ⟨start, start + 1⟩ (.conflict basicString .outOfRange)

/-- The character that a letter stands for after a backslash. -/
def escaped? (c : Char) : Option Char :=
  if c = 'b' then some '\x08'
  else if c = 'f' then some '\x0c'
  else if c = 'n' then some '\n'
  else if c = 'r' then some '\r'
  else if c = 't' then some '\t'
  else if c = '\\' ∨ c = '"' then some c
  else none

/-- What may follow a backslash. -/
def escapes : List String := ["`b`", "`f`", "`n`", "`r`", "`t`", "`u`", "`U`", "`\\`", "`\"`"]

/-- The character of an escape, after the backslash. -/
def escape : Reading Char := do
  match ← peek with
  | some 'u' =>
    skip
    numbered 4
  | some 'U' =>
    skip
    numbered 8
  | some c =>
    match escaped? c with
    | some x =>
      skip
      pure x
    | none => failExpecting (some "escape sequence") escapes
  | none => failExpecting (some "escape sequence") escapes

/-- The characters of a string in double quotes, after the first one. -/
def basicChars : Nat → List Char → Reading (List Char)
  | 0, _ => failExpecting basicString []
  | n + 1, done => do
    match ← peek with
    | some '"' =>
      skip
      pure done.reverse
    | some '\\' =>
      skip
      let c ← escape
      basicChars n (c :: done)
    | some c =>
      if isTextChar c then
        skip
        basicChars n (c :: done)
      else failExpecting basicString []
    | none => failExpecting basicString []

/-- The characters of a string in single quotes, after the first one. -/
def literalChars : Reading (List Char) := do
  let content ← takeWhile fun c => isTextChar c && c ≠ '\''
  match ← peek with
  | some '\'' =>
    skip
    pure content
  | _ => failExpecting literalString []

/-- How many quotes there are under the cursor. -/
def countQuotes (quote : Char) : Reading Nat := fun c =>
  .ok ((c.rest.takeWhile (· == quote)).length, c)

/-- Moves past so many characters. -/
def skipMany : Nat → Reading Unit
  | 0 => pure ()
  | n + 1 => do
    skip
    skipMany n

/-- Whether a backslash under the cursor ends its line, but for blanks. -/
def endsLine : Reading Bool := fun c =>
  match (c.rest.drop 1).dropWhile isBlank with
  | '\n' :: _ => .ok (true, c)
  | '\r' :: '\n' :: _ => .ok (true, c)
  | _ => .ok (false, c)

/-- The characters of a string in three quotes. A backslash at the end of a line takes away the line
    break and all blanks and line breaks that follow. -/
def longChars (quote : Char) (hasEscapes : Bool) (what : Option String) :
    Nat → List Char → Reading (List Char)
  | 0, _ => failExpecting what []
  | n + 1, done => do
    let quotes ← countQuotes quote
    if 3 ≤ quotes ∧ quotes ≤ 5 then
      skipMany quotes
      pure (done.reverse ++ List.replicate (quotes - 3) quote)
    else if 5 < quotes then failExpecting what []
    else if ← newline? then longChars quote hasEscapes what n ('\n' :: done)
    else match ← peek with
      | none => failExpecting what []
      | some c =>
        if c = '\\' ∧ hasEscapes then
          if ← endsLine then
            skip
            skipSpace (← steps)
            longChars quote hasEscapes what n done
          else
            skip
            let c ← escape
            longChars quote hasEscapes what n (c :: done)
        else if isTextChar c then
          skip
          longChars quote hasEscapes what n (c :: done)
        else failExpecting what []

/-- A string in three quotes, after the first three. A line break right there does not count. -/
def longString (quote : Char) (hasEscapes : Bool) (what : Option String) : Reading String := do
  let _ ← newline?
  let content ← longChars quote hasEscapes what (← steps) []
  pure (String.ofList content)

/-- A string in single or double quotes, after the first one. -/
def shortString (quote : Char) : Reading String := do
  if quote = '"' then
    let content ← basicChars (← steps) []
    pure (String.ofList content)
  else
    let content ← literalChars
    pure (String.ofList content)

/-- A string, from its first quote on. -/
def string (quote : Char) : Reading String := do
  let quotes ← countQuotes quote
  if 3 ≤ quotes then
    skipMany 3
    if quote = '"' then longString quote true (some "multiline basic string")
    else longString quote false (some "multiline literal string")
  else
    skip
    shortString quote

/-! ## Keys -/

/-- Characters of a key without quotes. -/
def isKeyChar (c : Char) : Bool := c.isAlphanum || c == '_' || c == '-'

/-- A part of a key. -/
def keyPart : Reading String := do
  match ← peek with
  | some '"' =>
    skip
    shortString '"'
  | some '\'' =>
    skip
    shortString '\''
  | _ =>
    let word ← takeWhile isKeyChar
    if word.isEmpty then failExpecting (some "key") [] else pure (String.ofList word)

/-- The parts of a key, which are separated by dots. -/
def keyParts : Nat → Reading (List String)
  | 0 => fail (.conflict none .tooDeep)
  | n + 1 => do
    skipBlanks
    let part ← keyPart
    skipBlanks
    match ← peek with
    | some '.' =>
      skip
      let rest ← keyParts n
      pure (part :: rest)
    | _ => pure [part]

/-- A key: the parts before its last one, and the last one. -/
def key : Reading (List String × String) := do
  let parts ← keyParts (maxDepth - 1)
  pure (parts.dropLast, parts.getLastD "")

/-- The mark between a key and its value. -/
def equals : Reading Unit := do
  match ← peek with
  | some '=' => skip
  | _ => failExpecting none ["`.`", "`=`"]

/-! ## Values -/

/-- What is asked for where nothing else can start. -/
def failValue {α : Type} : Reading α := failExpecting (some "string") ["`\"`", "`'`"]

/-- A scalar without quotes. -/
def scalar : Reading Value := do
  let start ← offset
  let run ← takeWhile Scalar.inRun
  if run.isEmpty then failValue
  else
    let clock ← (fun c =>
      match c.rest with
      | ' ' :: rest =>
        if Scalar.isDate run && (rest.take 2).all Char.isDigit && rest[2]? == some ':' then
          (do
            skip
            let clock ← takeWhile Scalar.inRun
            pure (' ' :: clock) : Reading (List Char)) c
        else .ok ([], c)
      | _ => .ok ([], c) : Reading (List Char))
    let span : Span := ⟨start, ← offset⟩
    match Scalar.ofRun (run ++ clock) with
    | some (.bool b) => pure (.bool span b)
    | some (.integer n) => pure (.integer span n)
    | some (.float x) => pure (.float span x)
    | some (.dateTime text) => pure (.dateTime span text)
    | none => failAt ⟨start, start + 1⟩ (.malformed (some "string") ["`\"`", "`'`"])

/-- The items of an array, after the bracket or a comma. -/
def items (item : Reading Value) : Nat → Reading (List Value)
  | 0 => failExpecting (some "array") ["`]`"]
  | n + 1 => do
    skipLines (← steps)
    match ← peek with
    | some ']' =>
      skip
      pure []
    | _ =>
      let v ← item
      skipLines (← steps)
      match ← peek with
      | some ',' =>
        skip
        let rest ← items item n
        pure (v :: rest)
      | some ']' =>
        skip
        pure [v]
      | _ => failExpecting (some "array") ["`]`"]

/-- The pairs of a table in braces, after the brace or a comma. -/
def pairs (item : Reading Value) : Nat → Entry → Reading Entry
  | 0, _ => failExpecting (some "inline table") ["`\x7d`"]
  | n + 1, table => do
    skipBlanks
    let start ← offset
    let (path, name) ← key
    equals
    skipBlanks
    let v ← item
    skipBlanks
    let table ← settle ⟨start, start + 1⟩ (some "inline table") (table.putPath [] path name v)
    match ← peek with
    | some ',' =>
      skip
      pairs item n table
    | some '}' =>
      skip
      pure table
    | _ => failExpecting (some "inline table") ["`\x7d`"]

/-- A table in braces, after the first one. -/
def inlineTable (item : Reading Value) : Reading Entry := do
  skipBlanks
  match ← peek with
  | some '}' =>
    skip
    pure (.table default .header [])
  | _ => pairs item (← steps) (.table default .header [])

/-- The fields of a table that is complete. -/
def fieldsOf : Entry → List (String × Value)
  | .table _ _ fields => Entry.toFields fields
  | _ => []

/-- One value; the argument is how deep arrays and tables may still nest. -/
def value : Nat → Reading Value
  | 0 => fail (.conflict none .tooDeep)
  | depth + 1 => do
    let start ← offset
    match ← peek with
    | some '"' =>
      let s ← string '"'
      pure (.string ⟨start, ← offset⟩ s)
    | some '\'' =>
      let s ← string '\''
      pure (.string ⟨start, ← offset⟩ s)
    | some '[' =>
      if depth = 0 then fail (.conflict none .tooDeep)
      else
        skip
        let found ← items (value depth) (← steps)
        pure (.array ⟨start, ← offset⟩ found)
    | some '{' =>
      if depth = 0 then fail (.conflict none .tooDeep)
      else
        skip
        let found ← inlineTable (value depth)
        pure (.table ⟨start, ← offset⟩ (fieldsOf found))
    | _ => scalar

/-! ## Documents -/

/-- A document so far. -/
structure Draft where
  root : Entry
  /-- The path of the header that is in force. -/
  header : List String

/-- A header, from its first bracket on. -/
def header (d : Draft) : Reading Draft := do
  let what := some "table header"
  let start ← offset
  skip
  let double := (← peek) == some '['
  if double then skip
  let (path, name) ← key
  let closing := if double then ["`.`", "`]]`"] else ["`.`", "`]`"]
  let close : Reading Unit := do
    match ← peek with
    | some ']' => skip
    | _ => failExpecting what closing
  close
  if double then close
  let place : Span := ⟨start, ← offset⟩
  endLine
  let root ← settle ⟨start, start + 1⟩ what
    (if double then d.root.beginElement path name place else d.root.beginTable path name place)
  pure ⟨root, path ++ [name]⟩

/-- A key with its value. -/
def pair (d : Draft) : Reading Draft := do
  let start ← offset
  let (path, name) ← key
  equals
  skipBlanks
  let v ← value maxDepth
  endLine
  let change (table : Entry) : Except Conflict Entry := do
    let table ← table.putPath d.header path name v
    .ok (table.extend v.span.stop)
  let root ← settle ⟨start, start + 1⟩ none
    (d.root.descend .implied default change [] d.header)
  pure { d with root := root }

/-- The lines of a document. -/
def lines : Nat → Draft → Reading Draft
  | 0, d => pure d
  | n + 1, d => do
    skipBlanks
    match ← peek with
    | none => pure d
    | some c =>
      if c = '#' ∨ c = '\n' ∨ c = '\r' then
        endLine
        lines n d
      else if c = '[' then
        let d ← header d
        lines n d
      else
        let d ← pair d
        lines n d

/-- The text without the mark of its encoding. -/
def withoutMark : List Char → Text.Cursor
  | '\uFEFF' :: rest => ⟨rest, 3⟩
  | source => ⟨source, 0⟩

/-- The table of a document. -/
def read (source : List Char) : Except Fault Value :=
  let start : Draft := ⟨.table ⟨0, Text.utf8Length source⟩ .header [], []⟩
  match lines (source.length + 1) start (withoutMark source) with
  | .ok (d, _) => .ok d.root.toValue
  | .error fault => .error fault

end Stencil.Toml
