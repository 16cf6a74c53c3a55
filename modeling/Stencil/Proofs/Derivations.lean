import Stencil.Syntax.Item
import Stencil.Syntax.Token

/-!
# The grammar of templates

The rules by which tokens make up expressions, tags and templates, and the trees that stand for
them. These trees have no places, so a token sequence is all that they depend on.

Both chains grow to the left: the object of an attribute is all that stands before its point, and
the left side of a `~` is all that stands before it. An attribute belongs to the operand that it
follows, so it binds tighter than `~`; an expression in parentheses is an atom, and leaves no trace
in the tree.

* `Expr.term`, `Item.form`: the trees of what is read from a source, without their places.
* `Grammar.Expression`, `Grammar.Body`: the rules.
-/

namespace Stencil

/-! ## Trees without places -/

/-- An expression without its places. -/
inductive Term where
  | constant (value : Value)
  | name (name : String)
  | mapping (entries : List (String × Term))
  | array (items : List Term)
  | attribute (object : Term) (name : String)
  | concat (left right : Term)
  | call (function : String) (arguments : List Term)

mutual

/-- An expression without its places. -/
def Expr.term : Expr → Term
  | .constant _ value => .constant value
  | .name _ ident => .name ident
  | .mapping _ entries => .mapping (Expr.termEntries entries)
  | .array _ items => .array (Expr.terms items)
  | .attribute _ object field => .attribute object.term field
  | .concat _ left right => .concat left.term right.term
  | .call _ function arguments => .call function (Expr.terms arguments)

/-- Some expressions without their places. -/
def Expr.terms : List Expr → List Term
  | [] => []
  | e :: rest => e.term :: Expr.terms rest

/-- The entries of a mapping without their places. -/
def Expr.termEntries : List (String × Expr) → List (String × Term)
  | [] => []
  | (key, e) :: rest => (key, e.term) :: Expr.termEntries rest

end

/-- The clauses of a tag without their places. -/
structure Options where
  ignoreMissing : Bool
  bindings : Option Term
  only : Bool

/-- The clauses of a tag without their places. -/
def Clauses.options (c : Clauses) : Options := ⟨c.ignoreMissing, c.bindings.map Expr.term, c.only⟩

/-- A piece of text or a tag without its places. -/
inductive Form where
  | text (content : String)
  | print (expr : Term)
  | block (name : String) (body : List Form)
  | «include» (target : Term) (options : Options)
  | embed (target : Term) (options : Options) (body : List Form)
  | «extends» (parent : Term)

mutual

/-- An item without its places. -/
def Item.form : Item → Form
  | .text _ content => .text content
  | .print _ expr => .print expr.term
  | .block _ name body => .block name (Item.forms body)
  | .«include» _ target clauses => .«include» target.term clauses.options
  | .embed _ target clauses body => .embed target.term clauses.options (Item.forms body)
  | .«extends» _ parent => .«extends» parent.term

/-- Some items without their places. -/
def Item.forms : List Item → List Form
  | [] => []
  | item :: rest => item.form :: Item.forms rest

end

namespace Grammar

/-! ## Expressions -/

/-- A token that is a literal, with its value. A number that is too large for a double is null. -/
inductive Literal : Token → Value → Prop
  | string (value : String) : Literal (.string value) (.string value)
  | number (value : Double) : Literal (.number (some value)) (.number (.ofNumeral value))
  | tooLarge : Literal (.number none) .null
  | bool (value : Bool) : Literal (.bool value) (.bool value)
  | null : Literal .null .null

/-- A token that is the key of an entry: an identifier or a string. -/
inductive Key : Token → String → Prop
  | ident (name : String) : Key (.ident name) name
  | string (name : String) : Key (.string name) name

mutual

/-- Operands with a `~` between each two. -/
inductive Expression : List Token → Term → Prop
  | operand {ts : List Token} {t : Term} : Operand ts t → Expression ts t
  | concat {front back : List Token} {left right : Term} :
      Expression front left → Operand back right →
      Expression (front ++ .mark .tilde :: back) (.concat left right)

/-- An atom with attributes. -/
inductive Operand : List Token → Term → Prop
  | atom {ts : List Token} {t : Term} : Atom ts t → Operand ts t
  | attribute {ts : List Token} {object : Term} (name : String) : Operand ts object →
      Operand (ts ++ [.mark .dot, .ident name]) (.attribute object name)

/-- A literal, a mapping, an array, a call, a name or an expression in parentheses. -/
inductive Atom : List Token → Term → Prop
  | literal {token : Token} {value : Value} : Literal token value → Atom [token] (.constant value)
  | mapping {ts : List Token} {entries : List (String × Term)} : Entries ts entries →
      Atom (.mark .braceOpen :: ts ++ [.mark .braceClose]) (.mapping entries)
  | array {ts : List Token} {items : List Term} : Expressions ts items →
      Atom (.mark .bracketOpen :: ts ++ [.mark .bracketClose]) (.array items)
  | call {ts : List Token} {arguments : List Term} (function : String) : Expressions ts arguments →
      Atom (.ident function :: .mark .parenOpen :: ts ++ [.mark .parenClose])
        (.call function arguments)
  | name (name : String) : Atom [.ident name] (.name name)
  | parens {ts : List Token} {t : Term} : Expression ts t →
      Atom (.mark .parenOpen :: ts ++ [.mark .parenClose]) t

/-- Expressions with a comma between each two; the last one may have a comma too. -/
inductive Expressions : List Token → List Term → Prop
  | none : Expressions [] []
  | last {ts : List Token} {t : Term} : Expression ts t → Expressions ts [t]
  | comma {ts rest : List Token} {t : Term} {others : List Term} : Expression ts t →
      Expressions rest others → Expressions (ts ++ .mark .comma :: rest) (t :: others)

/-- Entries with a comma between each two; the last one may have a comma too. -/
inductive Entries : List Token → List (String × Term) → Prop
  | none : Entries [] []
  | last {token : Token} {key : String} {ts : List Token} {t : Term} : Key token key →
      Expression ts t → Entries (token :: .mark .colon :: ts) [(key, t)]
  | comma {token : Token} {key : String} {ts rest : List Token} {t : Term}
      {others : List (String × Term)} : Key token key → Expression ts t → Entries rest others →
      Entries (token :: .mark .colon :: ts ++ .mark .comma :: rest) ((key, t) :: others)

end

/-! ## Tags -/

/-- Words that may be left out. -/
inductive Words (words : List Token) : List Token → Bool → Prop
  | absent : Words words [] false
  | present : Words words words true

/-- The clause of the variables, which may be left out. -/
inductive Bindings : List Token → Option Term → Prop
  | absent : Bindings [] none
  | present {ts : List Token} {t : Term} : Expression ts t →
      Bindings (.keyword .«with» :: ts) (some t)

/-- The clauses of an include or an embed, in their order. -/
inductive Clauses : List Token → Options → Prop
  | intro {missing given final : List Token} {options : Options} :
      Words [.keyword .ignore, .keyword .missing] missing options.ignoreMissing →
      Bindings given options.bindings → Words [.keyword .only] final options.only →
      Clauses (missing ++ given ++ final) options

/-- The name at the end of a block, which may be left out. -/
inductive Ending (name : String) : List Token → Prop
  | absent : Ending name []
  | present : Ending name [.ident name]

/-- A tag with its delimiters. -/
def tag (ts : List Token) : List Token := .tagOpen :: ts ++ [.tagClose]

mutual

/-- A piece of text or a tag with all that it encloses. -/
inductive Entry : List Token → Form → Prop
  | text (content : String) : Entry [.text content] (.text content)
  | print {ts : List Token} {t : Term} : Expression ts t →
      Entry (.printOpen :: ts ++ [.printClose]) (.print t)
  | block {ts ending : List Token} {body : List Form} (name : String) : Body ts body →
      Ending name ending →
      Entry (tag [.keyword .block, .ident name] ++ ts ++ tag (.keyword .endBlock :: ending))
        (.block name body)
  | embed {ts us vs : List Token} {t : Term} {options : Options} {body : List Form} :
      Expression ts t → Clauses us options → Body vs body →
      Entry (tag (.keyword .embed :: ts ++ us) ++ vs ++ tag [.keyword .endEmbed])
        (.embed t options body)
  | «include» {ts us : List Token} {t : Term} {options : Options} : Expression ts t →
      Clauses us options → Entry (tag (.keyword .«include» :: ts ++ us)) (.«include» t options)
  | «extends» {ts : List Token} {t : Term} : Expression ts t →
      Entry (tag (.keyword .«extends» :: ts)) (.«extends» t)

/-- The body of a template, a block or an embed. -/
inductive Body : List Token → List Form → Prop
  | nil : Body [] []
  | cons {ts us : List Token} {form : Form} {rest : List Form} : Entry ts form → Body us rest →
      Body (ts ++ us) (form :: rest)

end

end Grammar

end Stencil
