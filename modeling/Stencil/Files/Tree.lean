import Stencil.Dict
import Stencil.Files.Basic
import Stencil.Files.Path

/-!
# File trees

A directory with all that it holds, as a value. Nothing is outside of it: absolute paths and paths
that go up from its root name no file.
-/

namespace Stencil

/-- A file, or a directory with the names of its entries. -/
inductive FileTree where
  | file (bytes : ByteArray)
  | folder (entries : List (String × FileTree))
deriving Inhabited

namespace FileTree

/-- The directory that holds nothing. -/
def empty : FileTree := .folder []

/-- The number of bytes that a name may have. -/
def maxNameLength : Nat := 255

/-- Follows segments from a place in the tree. The list holds the directories above that place, the
    nearest one first. -/
def walk : List FileTree → FileTree → List String → Except FileFault FileTree
  | _, here, [] => .ok here
  | _, .file _, _ :: _ => .error .notDirectory
  | above, .folder entries, name :: rest =>
    if name = "" ∨ name = "." then walk above (.folder entries) rest
    else if name = ".." then
      match above with
      | [] => .error .missing
      | up :: above => walk above up rest
    else if maxNameLength < name.utf8ByteSize then .error .nameTooLong
    else match Dict.get? entries name with
      | none => .error .missing
      | some child => walk (.folder entries :: above) child rest

/-- What a path names. -/
def find (t : FileTree) (path : String) : Except FileFault FileTree :=
  if path.isEmpty || Path.isAbsolute path then .error .missing
  else walk [] t (Path.segments path)

/-- The bytes of a file. -/
def read (t : FileTree) (path : String) : Except FileFault ByteArray :=
  match t.find path with
  | .ok (.file bytes) => .ok bytes
  | .ok (.folder _) => .error .directory
  | .error fault => .error fault

/-- The tree as files to read. -/
def files {m : Type → Type} [Monad m] (t : FileTree) : Files m := ⟨fun path => pure (t.read path)⟩

/-- The entries of a directory; a file has none. -/
def entries : FileTree → Dict FileTree
  | .file _ => []
  | .folder entries => entries

/-- Puts something into the tree, with the directories that lead to it. A directory that is there
    already keeps its entries. -/
def put (what : FileTree) : List String → FileTree → FileTree
  | [], here =>
    match here, what with
    | .folder entries, .folder [] => .folder entries
    | _, _ => what
  | name :: rest, here =>
    let child := (Dict.get? here.entries name).getD empty
    .folder (Dict.insert here.entries name (put what rest child))

end FileTree

end Stencil
