import Stencil.Syntax.Cursor
import Stencil.Syntax.Item
import Stencil.Syntax.Lexeme

/-!
# The grammar

Items and expressions are read by recursive descent. An expression is a row of operands joined by
`~`; an operand is an atom with attributes; an atom is a literal, a mapping, an array, a call, a
name or an expression in parentheses. Lists may end with a comma.

The recursion is bounded by a number that every step counts down. `bound` is large enough for all
sources with a given number of tokens.
-/

namespace Stencil.Syntax

/-! ## Expressions -/

/-- Attributes after an expression: `.name`, any number of times. -/
def attributes : Nat → Expr → Reading Expr
  | 0, _ => refuse
  | n + 1, object => do
    match ← accept? (.mark .dot) with
    | none => pure object
    | some _ =>
      let (name, span) ← ident
      attributes n (.attribute (object.span.upTo span) object name)

/-- The key of a mapping entry. -/
def key? : Reading (Option String) := do
  match ← next? with
  | some ⟨.ident name, _⟩ =>
    advance
    pure (some name)
  | some ⟨.string name, _⟩ =>
    advance
    pure (some name)
  | _ => pure none

/-- A literal. -/
def literal? : Reading (Option Expr) := do
  match ← next? with
  | some ⟨token, span⟩ =>
    match token with
    | .string s =>
      advance
      pure (some (.constant span (.string s)))
    | .number (some x) =>
      advance
      pure (some (.constant span (.number (.ofNumeral x))))
    | .number none =>
      advance
      pure (some (.constant span .null))
    | .bool b =>
      advance
      pure (some (.constant span (.bool b)))
    | .null =>
      advance
      pure (some (.constant span .null))
    | _ => pure none
  | none => pure none

mutual

/-- An expression, if one starts at the cursor. -/
def expr? : Nat → Reading (Option Expr)
  | 0 => refuse
  | n + 1 => do
    match ← operand? n with
    | none => pure none
    | some first =>
      let whole ← joined n first
      pure (some whole)

/-- The operands that are joined to an expression. -/
def joined : Nat → Expr → Reading Expr
  | 0, _ => refuse
  | n + 1, left => do
    match ← accept? (.mark .tilde) with
    | none => pure left
    | some _ =>
      match ← operand? n with
      | none => refuse
      | some right => joined n (.concat (left.span.upTo right.span) left right)

/-- An atom with its attributes, if one starts at the cursor. -/
def operand? : Nat → Reading (Option Expr)
  | 0 => refuse
  | n + 1 => do
    match ← atom? n with
    | none => pure none
    | some base =>
      let whole ← attributes n base
      pure (some whole)

/-- An atom, if one starts at the cursor. -/
def atom? : Nat → Reading (Option Expr)
  | 0 => refuse
  | n + 1 => do
    match ← literal? with
    | some e => pure (some e)
    | none =>
      match ← accept? (.mark .braceOpen) with
      | some first =>
        let found ← entries n
        let last ← expect (.mark .braceClose)
        pure (some (.mapping (first.upTo last) found))
      | none =>
        match ← accept? (.mark .bracketOpen) with
        | some first =>
          let found ← exprs n
          let last ← expect (.mark .bracketClose)
          pure (some (.array (first.upTo last) found))
        | none =>
          match ← ident? with
          | some (name, first) =>
            match ← accept? (.mark .parenOpen) with
            | none => pure (some (.name first name))
            | some _ =>
              let found ← exprs n
              let last ← expect (.mark .parenClose)
              pure (some (.call (first.upTo last) name found))
          | none =>
            match ← accept? (.mark .parenOpen) with
            | none => pure none
            | some _ =>
              match ← expr? n with
              | none => refuse
              | some e =>
                let _ ← expect (.mark .parenClose)
                pure (some e)

/-- Expressions separated by commas, up to what is neither. -/
def exprs : Nat → Reading (List Expr)
  | 0 => refuse
  | n + 1 => do
    match ← expr? n with
    | none => pure []
    | some e =>
      match ← accept? (.mark .comma) with
      | none => pure [e]
      | some _ =>
        let rest ← exprs n
        pure (e :: rest)

/-- Mapping entries separated by commas, up to what is neither. -/
def entries : Nat → Reading (List (String × Expr))
  | 0 => refuse
  | n + 1 => do
    match ← key? with
    | none => pure []
    | some key =>
      let _ ← expect (.mark .colon)
      match ← expr? n with
      | none => refuse
      | some e =>
        match ← accept? (.mark .comma) with
        | none => pure [(key, e)]
        | some _ =>
          let rest ← entries n
          pure ((key, e) :: rest)

end

/-- An expression. -/
def expr (n : Nat) : Reading Expr := do
  match ← expr? n with
  | some e => pure e
  | none => refuse

/-! ## Items -/

/-- The clauses of an include or an embed. -/
def clauses (n : Nat) : Reading Clauses := do
  let ignore ← accept? (.keyword .ignore)
  if ignore.isSome then
    let _ ← expect (.keyword .missing)
  let bindings ← (do
    match ← accept? (.keyword .«with») with
    | some _ =>
      let e ← expr n
      pure (some e)
    | none => pure none)
  let only ← accept? (.keyword .only)
  pure ⟨ignore.isSome, bindings, only.isSome⟩

/-- The keywords that start a tag. -/
def tagKeywords : List Keyword := [.block, .embed, .«include», .«extends»]

/-- A block that is closed under another name is not read as a block: the fault is at its keyword,
    which could have been another one. -/
def misnamedBlock (keyword : Span) (closing : Option Keyword) : Fault :=
  ⟨keyword, .unexpectedToken (.keyword .block),
    (tagKeywords.tail ++ closing.toList).map fun k => .token (.keyword k)⟩

/-- Items up to the keyword of the tag that closes them, which is taken too; without such a keyword,
    up to the end of the source (the `items` of `template_parser`). -/
def items (closing : Option Keyword) : Nat → Reading (List Item)
  | 0 => refuse
  | n + 1 => do
    match ← next? with
    | some ⟨.text content, span⟩ =>
      advance
      let rest ← items closing n
      pure (.text span content :: rest)
    | _ =>
    match ← accept? .printOpen with
    | some first =>
      let e ← expr n
      let last ← expect .printClose
      let rest ← items closing n
      pure (.print (first.upTo last) e :: rest)
    | none =>
    match ← accept? .tagOpen with
    | none =>
      match closing with
      | some _ => refuse
      | none =>
        refuseUnlessEnd
        pure []
    | some first =>
    match ← accept? (.keyword .block) with
    | some keyword =>
      let (name, _) ← ident
      let _ ← expect .tagClose
      let body ← items (some .endBlock) n
      let ending ← ident?
      let last ← expect .tagClose
      match ending with
      | some (other, _) => if other ≠ name then throw (misnamedBlock keyword closing)
      | none => pure ()
      let rest ← items closing n
      pure (.block (first.upTo last) name body :: rest)
    | none =>
    match ← accept? (.keyword .embed) with
    | some _ =>
      let target ← expr n
      let found ← clauses n
      let _ ← expect .tagClose
      let body ← items (some .endEmbed) n
      let last ← expect .tagClose
      let rest ← items closing n
      pure (.embed (first.upTo last) target found body :: rest)
    | none =>
    match ← accept? (.keyword .«include») with
    | some _ =>
      let target ← expr n
      let found ← clauses n
      let last ← expect .tagClose
      let rest ← items closing n
      pure (.«include» (first.upTo last) target found :: rest)
    | none =>
    match ← accept? (.keyword .«extends») with
    | some _ =>
      let parent ← expr n
      let last ← expect .tagClose
      let rest ← items closing n
      pure (.«extends» (first.upTo last) parent :: rest)
    | none =>
    match closing with
    | none => refuse
    | some k =>
      let _ ← expect (.keyword k)
      pure []

/-- Enough steps for a number of tokens. -/
def bound (tokens : List Lexeme) : Nat := 8 * tokens.length + 8

/-- The items of a token sequence from a source of `stop` bytes (`template_parser`). -/
def itemsOf (tokens : List Lexeme) (stop : Nat) : Except Fault (List Item) :=
  (items none (bound tokens) { rest := tokens, stop := stop }).map (·.1)

/-- The items of a source. -/
def parseItems (source : List Char) : Except Fault (List Item) := do
  let tokens ← lexemes source
  itemsOf tokens (Text.utf8Length source)

end Stencil.Syntax
