import Stencil.Dict
import Stencil.Files.Basic
import Stencil.Files.Path

/-!
# Loaders

A loader gives the source of a template by its name. Names of templates in a directory are relative
paths that stay inside it.

* `Loader.memory_has`: a loader of given sources has exactly the names it answers.
-/

namespace Stencil

/-- Why a source cannot be given (`LoaderError`). -/
inductive LoadFault where
  | notFound (name : String)
  | invalidName (name : String)
  | unreadable (path reason : String)
deriving DecidableEq, Repr, Inhabited

/-- The wording of a fault. -/
def LoadFault.message : LoadFault → String
  | .notFound name => "template not found: " ++ name
  | .invalidName name => "invalid template name: " ++ name
  | .unreadable path reason => "error reading template file " ++ path ++ ": " ++ reason

/-- A loader of template sources (`Loader`). -/
structure Loader (m : Type → Type) where
  /-- The source of a template. -/
  source : String → m (Except LoadFault String)
  /-- Whether a template is there. -/
  has : String → m Bool

namespace Loader

variable {m : Type → Type} [Monad m]

/-- Whether an answer is a source. -/
def isSource : Except LoadFault String → Bool
  | .ok _ => true
  | .error _ => false

/-- A loader that finds out whether a template is there by asking for its source (the default body
    of `exists`). -/
def ofSource (source : String → m (Except LoadFault String)) : Loader m where
  source := source
  has name := isSource <$> source name

/-- The source of a template among given ones. -/
def lookUp (templates : Dict String) (name : String) : Except LoadFault String :=
  match Dict.get? templates name with
  | some source => .ok source
  | none => .error (.notFound name)

/-- A loader of given sources (`ArrayLoader`). -/
def memory (templates : Dict String) : Loader m where
  source name := pure (lookUp templates name)
  has name := pure (Dict.contains templates name)

/-- A loader whose answers never change, for use in any monad. -/
def lift (store : Loader Id) : Loader m where
  source name := pure (store.source name).run
  has name := pure (store.has name).run

/-- Whether a name may be looked up in a directory (the condition of `resolve`). -/
def isValidName (name : String) : Bool := !name.isEmpty && !Path.escapes name

/-- A source from the bytes of its file, or from the fault that kept them from being read. -/
def sourceOfBytes (name path : String) : Except FileFault ByteArray → Except LoadFault String
  | .ok bytes =>
    match decodeText bytes with
    | .ok text => .ok text
    | .error fault => .error (.unreadable path fault.message)
  | .error fault =>
    if fault.isAbsence then .error (.notFound name) else .error (.unreadable path fault.message)

/-- Whether there is a file, readable or not. -/
def isFile : Except FileFault ByteArray → Bool
  | .ok _ => true
  | .error fault => !fault.isAbsence

/-- A loader of the files in a directory (`FilesystemLoader`). -/
def directory (files : Files m) (base : String) : Loader m where
  source name := do
    if isValidName name then
      let path := Path.join base name
      let bytes ← files.read path
      pure (sourceOfBytes name path bytes)
    else pure (.error (.invalidName name))
  has name := do
    if isValidName name then
      let bytes ← files.read (Path.join base name)
      pure (isFile bytes)
    else pure false

theorem memory_has (templates : Dict String) (name : String) :
    Dict.contains templates name = isSource (lookUp templates name) := by
  unfold Dict.contains lookUp
  cases Dict.get? templates name <;> rfl

end Loader

end Stencil
