import Stencil.Files.Tree
import Stencil.Proofs.Likeness

/-!
# What is there and what can be read

Asking a loader whether a template is there does not load it. For given sources the answer is
whether the source is among them. In a directory it is whether there is a file with the path of the
name, which is not the same: a file that holds no text is there, but its source cannot be given. No
other name is answered differently, and a name whose source can be given is always there.

Specification: `Loader.isSource` for what can be given, `Loader.isUnreadable` for a file that is
there and cannot be read.

Results:
* `Loader.directory_has`, `Loader.directory_unreadable`: what is there in a directory, and which of
  it is unreadable.
* `Loader.has_eq_source_or_unreadable`: both loaders, and what is taken among several names.
* `Loader.garbled_has`: an unreadable file that is taken before one that could be read.
-/

namespace Stencil

namespace Loader

/-! ## Specification -/

/-- Whether an answer tells of a file that is there and cannot be read. -/
def isUnreadable : Except LoadFault String → Bool
  | .error (.unreadable _ _) => true
  | _ => false

/-! ## One name -/

/-- A file is there if it gives a source, or if something else than its absence keeps it from being
    read. -/
theorem isFile_eq (name path : String) (answer : Except FileFault ByteArray) :
    isFile answer =
      (isSource (sourceOfBytes name path answer) ||
        isUnreadable (sourceOfBytes name path answer)) := by
  cases answer with
  | ok bytes =>
    simp only [isFile, sourceOfBytes]
    cases decodeText bytes <;> rfl
  | error fault => cases fault <;> rfl

/-- In a directory a name is there if it gives a source or is the name of an unreadable file. -/
theorem directory_has (files : Files Id) (base name : String) :
    (directory files base).has name =
      (isSource ((directory files base).source name) ||
        isUnreadable ((directory files base).source name)) := by
  simp only [directory]
  cases isValidName name with
  | false => rfl
  | true => exact isFile_eq name _ (files.read (Path.join base name))

/-- A file is unreadable if its bytes are no text, or if it is something else than its absence that
    keeps them from being read. -/
theorem isUnreadable_sourceOfBytes {name path : String} {answer : Except FileFault ByteArray} :
    isUnreadable (sourceOfBytes name path answer) = true ↔
      (∃ bytes, answer = .ok bytes ∧ decodeText bytes = .error .notText) ∨
        ∃ fault, answer = .error fault ∧ fault.isAbsence = false := by
  cases answer with
  | ok bytes =>
    cases hdecode : decodeText bytes with
    | ok text => simp [sourceOfBytes, hdecode, isUnreadable]
    | error fault =>
      have hfault : fault = .notText := by
        unfold decodeText at hdecode
        split at hdecode <;> cases hdecode
        rfl
      simp [sourceOfBytes, hdecode, isUnreadable, hfault]
  | error fault =>
    cases habsence : fault.isAbsence <;> simp [sourceOfBytes, habsence, isUnreadable]

/-- A valid name is the name of an unreadable file if the file with its path is one. -/
theorem directory_unreadable {files : Files Id} {base name : String} :
    isUnreadable ((directory files base).source name) = true ↔
      isValidName name = true ∧
        ((∃ bytes, files.read (Path.join base name) = .ok bytes ∧
            decodeText bytes = .error .notText) ∨
          ∃ fault, files.read (Path.join base name) = .error fault ∧ fault.isAbsence = false) := by
  simp only [directory]
  cases isValidName name with
  | false =>
    change isUnreadable (.error (.invalidName name)) = true ↔ _
    simp [isUnreadable]
  | true => exact isUnreadable_sourceOfBytes.trans ⟨fun h => ⟨rfl, h⟩, fun h => h.2⟩

/-! ## The first name that is there -/

/-- Among several names the first one is taken that the loader has. -/
theorem firstOf_eq_find? {T : Type} (host : Host Id T) (loader : Loader Id) (names : List String) :
    { host with has := loader.has }.firstOf names = names.find? loader.has := by
  induction names with
  | nil => rfl
  | cons name rest ih =>
    rw [Host.firstOf_cons, ih, List.find?_cons]
    change (if Id.run (loader.has name) = true then some name else rest.find? loader.has) = _
    cases (loader.has name : Bool) <;> rfl

/-- What the loaders have and what they give. Given sources are there exactly if they can be given,
    and so is a name in a directory, unless it is the name of a file without a text. The first of
    several names that is there may be such a name. -/
theorem has_eq_source_or_unreadable {T : Type} (templates : Dict String) (files : Files Id)
    (base name : String) (host : Host Id T) (names : List String) :
    ((memory templates : Loader Id).has name =
        isSource ((memory templates : Loader Id).source name)) ∧
      ((directory files base).has name =
        (isSource ((directory files base).source name) ||
          isUnreadable ((directory files base).source name))) ∧
      (isUnreadable ((directory files base).source name) = true ↔
        isValidName name = true ∧
          ((∃ bytes, files.read (Path.join base name) = .ok bytes ∧
              decodeText bytes = .error .notText) ∨
            ∃ fault, files.read (Path.join base name) = .error fault ∧
              fault.isAbsence = false)) ∧
      { host with has := (directory files base).has }.firstOf names =
        names.find? fun candidate =>
          isSource ((directory files base).source candidate) ||
            isUnreadable ((directory files base).source candidate) := by
  have hhas : (directory files base).has = fun candidate =>
      isSource ((directory files base).source candidate) ||
        isUnreadable ((directory files base).source candidate) :=
    funext (directory_has files base)
  refine ⟨memory_has templates name, directory_has files base name, directory_unreadable, ?_⟩
  rw [firstOf_eq_find?, hhas]

/-- A file with a byte that is no text, beside an empty one. -/
def garbled : Loader Id :=
  directory (FileTree.folder [("bad", .file ⟨#[255]⟩), ("good", .file ⟨#[]⟩)]).files ""

/-- The file is there, and taken before the one that could be read. -/
theorem garbled_has :
    Id.run (garbled.has "bad") = true ∧
      Id.run (garbled.source "bad") =
        .error (.unreadable "bad" "stream did not contain valid UTF-8") ∧
      (["bad", "good"].find? fun name => Id.run (garbled.has name)) = some "bad" ∧
      Id.run (garbled.source "good") = .ok "" := by
  decide +kernel

end Loader

end Stencil
