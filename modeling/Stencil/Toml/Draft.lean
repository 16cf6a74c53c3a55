import Stencil.Toml.Fault
import Stencil.Toml.Value

/-!
# Tables in the making

A table of a document can be written in several places: under its own header, under headers of the
tables inside it, and by keys with dots. A draft remembers how each table came about, since a table
has one header at most, and what keys with dots have made can be extended by such keys only.
-/

namespace Stencil.Toml

/-- How a table came about. -/
inductive Origin where
  /-- It has a header, or braces, of its own. -/
  | header
  /-- A header of a table inside it names it. -/
  | implied
  /-- A key with dots names it. -/
  | dotted
deriving DecidableEq, Repr, Inhabited

/-- Something under a key. -/
inductive Entry where
  | value (value : Value)
  | table (span : Span) (origin : Origin) (fields : List (String × Entry))
  /-- Tables that share a key, each with a header of its own. -/
  | tables (elements : List Entry)
deriving Repr, Inhabited

namespace Entry

mutual

/-- The value that an entry ends up as. -/
def toValue : Entry → Value
  | .value v => v
  | .table span _ fields => .table span (toFields fields)
  | .tables elements =>
    let items := toValues elements
    let start := (items.head?.map (·.span.start)).getD 0
    let stop := (items.getLast?.map (·.span.stop)).getD start
    .array ⟨start, stop⟩ items

/-- The values of entries. -/
def toValues : List Entry → List Value
  | [] => []
  | e :: rest => e.toValue :: toValues rest

/-- The fields of a table. -/
def toFields : List (String × Entry) → List (String × Value)
  | [] => []
  | (k, e) :: rest => (k, e.toValue) :: toFields rest

end

/-- Changes what is under a key, or puts something there. -/
def update (key : String) (change : Option Entry → Except Conflict Entry) :
    List (String × Entry) → Except Conflict (List (String × Entry))
  | [] => do
    let e ← change none
    .ok [(key, e)]
  | (k, e) :: rest =>
    if k = key then do
      let e ← change (some e)
      .ok ((k, e) :: rest)
    else do
      let rest ← update key change rest
      .ok ((k, e) :: rest)

/-- Changes the last element. -/
def changeLast (change : Entry → Except Conflict Entry) :
    List Entry → Except Conflict (List Entry)
  | [] => .ok []
  | [e] => do
    let e ← change e
    .ok [e]
  | e :: f :: rest => do
    let rest ← changeLast change (f :: rest)
    .ok (e :: rest)

/-- Changes the table at the end of a path. Tables that the path names and that are not there yet
    are made, with the given origin and place. The second argument is the path so far. -/
def descend (made : Origin) (place : Span) (change : Entry → Except Conflict Entry) :
    List String → List String → Entry → Except Conflict Entry
  | _, [], e => change e
  | done, key :: rest, .table span origin fields => do
    let path := done ++ [key]
    let fields ← update key (fun
      | none => descend made place change path rest (.table place made [])
      | some (.value v) => .error (.extendsValue path v.kind)
      | some (.tables elements) => do
        let elements ← changeLast (descend made place change path rest) elements
        .ok (.tables elements)
      | some (.table s o fs) =>
        if made = .dotted ∧ o = .header then .error (.duplicateKey key)
        else descend made place change path rest (.table s o fs)) fields
    .ok (.table span origin fields)
  | _, _ :: _, e => .ok e

/-- Puts a value under a key of a table. A table that the key names with dots has to have been made
    by such keys. -/
def put (table : List String) (hasDots : Bool) (key : String) (value : Value) :
    Entry → Except Conflict Entry
  | .table span origin fields =>
    if hasDots ∧ origin ≠ .dotted then .error (.duplicateKey key)
    else do
      let fields ← update key (fun
        | none => .ok (.value value)
        | some _ => .error (.duplicateIn key table)) fields
      .ok (.table span origin fields)
  | e => .ok e

/-- Puts a value under a key with the tables that its dots name. -/
def putPath (table : List String) (path : List String) (key : String) (value : Value) :
    Entry → Except Conflict Entry :=
  descend .dotted value.span (put table (!path.isEmpty) key value) [] path

/-- Begins a table with a header of its own. -/
def beginTable (path : List String) (key : String) (place : Span) :
    Entry → Except Conflict Entry :=
  descend .implied place (fun
    | .table span origin fields => do
      let fields ← update key (fun
        | none => .ok (.table place .header [])
        | some (.table _ .implied fs) => .ok (.table place .header fs)
        | some _ => .error (.duplicateIn key path)) fields
      .ok (.table span origin fields)
    | e => .ok e) [] path

/-- Begins another one of the tables that share a key. -/
def beginElement (path : List String) (key : String) (place : Span) :
    Entry → Except Conflict Entry :=
  descend .implied place (fun
    | .table span origin fields => do
      let fields ← update key (fun
        | none => .ok (.tables [.table place .header []])
        | some (.tables elements) => .ok (.tables (elements ++ [.table place .header []]))
        | some _ => .error (.duplicateIn key path)) fields
      .ok (.table span origin fields)
    | e => .ok e) [] path

/-- Makes a table reach up to the end of a value in it. -/
def extend (stop : Nat) : Entry → Entry
  | .table span origin fields => .table ⟨span.start, stop⟩ origin fields
  | e => e

end Entry

end Stencil.Toml
