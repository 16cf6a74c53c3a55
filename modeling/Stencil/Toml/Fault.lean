import Stencil.Text.Span

/-!
# Faults of a TOML document

What can be wrong with a document: it is no TOML, its keys conflict, or it does not have the shape
that its reader expects. `Fault.report` shows a fault under its line.
-/

namespace Stencil.Toml

/-- A conflict within a document. -/
inductive Conflict where
  | duplicateKey (key : String)
  /-- A key that is in the table of the given path already. -/
  | duplicateIn (key : String) (table : List String)
  | extendsValue (path : List String) (kind : String)
  | outOfRange
  | tooDeep
deriving DecidableEq, Repr, Inhabited

/-- The wording of a conflict. -/
def Conflict.message : Conflict → String
  | .duplicateKey key => s!"duplicate key `{key}`"
  | .duplicateIn key [] => s!"duplicate key `{key}` in document root"
  | .duplicateIn key table => s!"duplicate key `{key}` in table `" ++ ".".intercalate table ++ "`"
  | .extendsValue path kind =>
    "dotted key `" ++ ".".intercalate path ++ s!"` attempted to extend non-table type ({kind})"
  | .outOfRange => "value is out of range"
  | .tooDeep => "recursion limit exceeded"

/-- A part of a document that is not what its reader expects. -/
inductive Mismatch where
  | wrongType (found expected : String)
  | wrongValue (found expected : String)
  | missingField (name : String)
  | unknownField (name expected : String)
  | unknownVariant (name : String) (expected : List String)
  | wrongLength (length expected : Nat)
deriving DecidableEq, Repr, Inhabited

/-- A name in back quotes. -/
def ticked (name : String) : String := s!"`{name}`"

/-- The wording of a mismatch. -/
def Mismatch.message : Mismatch → String
  | .wrongType found expected => s!"invalid type: {found}, expected {expected}"
  | .wrongValue found expected => s!"invalid value: {found}, expected {expected}"
  | .missingField name => "missing field " ++ ticked name
  | .unknownField name expected => "unknown field " ++ ticked name ++ ", expected " ++ ticked expected
  | .unknownVariant name expected =>
    "unknown variant " ++ ticked name ++ ", expected " ++ " or ".intercalate (expected.map ticked)
  | .wrongLength length expected =>
    let unit := if expected = 1 then "element" else "elements"
    s!"invalid length {length}, expected {expected} {unit} in sequence"

/-- What can be wrong with a document. -/
inductive Cause where
  /-- The text is not what the grammar asks for here. -/
  | malformed (what : Option String) (expected : List String)
  | conflict (what : Option String) (conflict : Conflict)
  | mismatch (mismatch : Mismatch)
deriving DecidableEq, Repr, Inhabited

/-- The wording of a cause, which may take two lines. -/
def Cause.message : Cause → String
  | .malformed what expected =>
    let heading := (what.map ("invalid " ++ ·)).toList
    let alternatives := if expected.isEmpty then [] else ["expected " ++ ", ".intercalate expected]
    "\n".intercalate (heading ++ alternatives)
  | .conflict what c => "\n".intercalate ((what.map ("invalid " ++ ·)).toList ++ [c.message])
  | .mismatch m => m.message

/-- A cause with the place it concerns. -/
structure Fault where
  cause : Cause
  span : Span
deriving DecidableEq, Repr, Inhabited

/-- A line of a document and the column of a place in it, with the number of the line. The last
    argument is the byte offset of the place. The column counts the characters before the place, or
    their bytes if a character of several bytes stands at it. -/
def placeOf (source : List Char) (offset : Nat) : List Char × Nat × Nat :=
  go source [] 0 0
where
  /-- Walks to the place. The second argument holds the line so far, backwards. -/
  go : List Char → List Char → Nat → Nat → List Char × Nat × Nat
    | [], line, _, number => (line.reverse, line.length, number)
    | c :: rest, line, at_, number =>
      if offset ≤ at_ then
        (line.reverse ++ (c :: rest).takeWhile (· ≠ '\n'),
          if c.utf8Size = 1 then line.length else Text.utf8Length line, number)
      else if c = '\n' ∧ !(rest.isEmpty && at_ < offset) then go rest [] (at_ + 1) (number + 1)
      else if c = '\n' then (line.reverse, line.length + 1, number)
      else go rest (c :: line) (at_ + c.utf8Size) number

/-- The report of a fault. -/
def Fault.report (f : Fault) (source : List Char) : String :=
  let (line, column, number) := placeOf source f.span.start
  let shown := toString (number + 1)
  let margin := String.ofList (List.replicate (shown.length + 1) ' ') ++ "|"
  let marks := max 1 (min (f.span.stop - f.span.start) (Text.utf8Length line))
  s!"TOML parse error at line {shown}, column {column + 1}\n" ++ margin ++ "\n" ++
  shown ++ " | " ++ String.ofList line ++ "\n" ++
  margin ++ String.ofList (List.replicate (column + 1) ' ' ++ List.replicate marks '^') ++ "\n" ++
  f.cause.message ++ "\n"

end Stencil.Toml
