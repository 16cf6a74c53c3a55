/-!
# Paths

A path is a text whose segments are separated by slashes. Empty segments and `.` stay where they
are; `..` goes up.

* `pieces_cons_slash`, `pieces_ne_nil`: how the segments are read off a path.
* `escapes_iff`: which names can lead out of a directory.
-/

namespace Stencil.Path

/-- The pieces of a path between its slashes. -/
def pieces : List Char → List (List Char)
  | [] => [[]]
  | c :: rest =>
    if c = '/' then [] :: pieces rest
    else match pieces rest with
      | [] => [[c]]
      | piece :: others => (c :: piece) :: others

/-- The segments of a path. -/
def segments (path : String) : List String := (pieces path.toList).map String.ofList

/-- Whether a path starts at the root of all files. -/
def isAbsolute (path : String) : Bool := path.toList.head? == some '/'

/-- Whether a name leads, or may lead, out of the directory it is looked up in. -/
def escapes (name : String) : Bool := isAbsolute name || (segments name).contains ".."

/-- The path of a name in a directory. -/
def join (directory name : String) : String :=
  match directory.toList.getLast? with
  | none => name
  | some c => if c = '/' then directory ++ name else directory ++ "/" ++ name

theorem pieces_cons_slash (rest : List Char) : pieces ('/' :: rest) = [] :: pieces rest := by
  simp [pieces]

theorem pieces_ne_nil (path : List Char) : pieces path ≠ [] := by
  cases path with
  | nil => simp [pieces]
  | cons c rest =>
    by_cases h : c = '/'
    · simp [pieces, h]
    · cases hp : pieces rest <;> simp [pieces, h, hp]

/-- A name leads out of its directory if it starts with a slash or has a segment `..`. -/
theorem escapes_iff (name : String) :
    escapes name = true ↔ name.toList.head? = some '/' ∨ ".." ∈ segments name := by
  simp [escapes, isAbsolute]

end Stencil.Path
