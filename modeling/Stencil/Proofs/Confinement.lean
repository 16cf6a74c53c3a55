import Stencil.Engine.Loader
import Stencil.Files.Tree

/-!
# Names stay below their directory

A loader of a directory looks at the components of a name before it asks for a file: the name must
not start at the root, and must not go up. The components are those that a path has on Unix, where
slashes that follow each other count as one and a `.` counts at the very beginning only. The check
is shown to be about the segments of the name, and the file that is asked for to lie below the
directory, by way of a disk without links on which paths are followed segment by segment.

Specification: `Path.components` for the components of a path, `Loader.resolve` for the check on
them, `Path.steps` for a path without the segments that lead nowhere, `Disk` for files and the paths
that lead to them.

Results:
* `Path.components_inside`: which names have no component that leads out.
* `Path.steps_join`, `Path.isAbsolute_join`: the path of a name in a directory.
* `Place.descend_of_follow`: segments that never go up lead to what lies below.
* `Loader.directory_confined`: what a loader of a directory asks for, and what it answers.
-/

namespace Stencil

/-! ## Specification -/

namespace Path

/-- A component of a path (`Component`). -/
inductive Component where
  | root
  | here
  | up
  | entry (name : String)
deriving DecidableEq, Repr

/-- Whether a component stays in the directory that it is looked up in, or leads to something in
    it. -/
def Component.isInside : Component → Bool
  | .root | .up => false
  | .here | .entry _ => true

/-- The component of a segment: an empty segment is none, and neither is a `.`. -/
def Component.ofSegment? (segment : String) : Option Component :=
  if segment = "" ∨ segment = "." then none
  else if segment = ".." then some .up
  else some (.entry segment)

/-- The components of a path (what `components` gives). A `.` counts if the path starts with it. -/
def components (path : String) : List Component :=
  (if isAbsolute path then [.root] else if (segments path).head? = some "." then [.here] else []) ++
    (segments path).filterMap Component.ofSegment?

/-- Whether a segment leads nowhere. -/
def IsIdle (segment : String) : Prop := segment = "" ∨ segment = "."

instance (segment : String) : Decidable (IsIdle segment) :=
  inferInstanceAs (Decidable (segment = "" ∨ segment = "."))

/-- The segments of a path that lead somewhere. -/
def steps (path : String) : List String := (segments path).filter (¬ IsIdle ·)

end Path

/-- The path of a name in a directory, if no component of the name leads out of it (`resolve`). -/
def Loader.resolve (base name : String) : Except LoadFault String :=
  if name.isEmpty || (Path.components name).any (!·.isInside) then .error (.invalidName name)
  else .ok (Path.join base name)

/-- What is reached from a directory through the entries with the given names, without ever going
    up. -/
def FileTree.descend : FileTree → List String → Option FileTree
  | t, [] => some t
  | .file _, _ :: _ => none
  | .folder entries, name :: rest => (Dict.get? entries name).bind (descend · rest)

/-- A place on a disk, with the directories above it, the nearest one first. -/
structure Place where
  here : FileTree
  above : List FileTree

namespace Place

/-- Where a segment leads. Above the root there is the root again. -/
def step (p : Place) (segment : String) : Except FileFault Place :=
  match p.here with
  | .file _ => .error .notDirectory
  | .folder entries =>
    if Path.IsIdle segment then .ok p
    else if segment = ".." then
      match p.above with
      | [] => .ok p
      | up :: above => .ok ⟨up, above⟩
    else if FileTree.maxNameLength < segment.utf8ByteSize then .error .nameTooLong
    else match Dict.get? entries segment with
      | none => .error .missing
      | some child => .ok ⟨child, p.here :: p.above⟩

/-- Where several segments lead, one after the other. -/
def follow : List String → Place → Except FileFault Place
  | [], p => .ok p
  | segment :: rest, p => (p.step segment).bind (follow rest)

end Place

/-- All files there are, in the directory above all others, and the segments that lead from there to
    the directory in which relative paths start. Nothing is a link. -/
structure Disk where
  root : FileTree
  working : List String

namespace Disk

/-- The segments that a path stands for, from the root on. -/
def route (d : Disk) (path : String) : List String :=
  (if Path.isAbsolute path then [] else d.working) ++ Path.segments path

/-- Where a path leads; the empty one leads to where relative paths start. -/
def place (d : Disk) (path : String) : Except FileFault Place :=
  Place.follow (d.route path) ⟨d.root, []⟩

/-- The bytes of a file. The empty path names none. -/
def read (d : Disk) (path : String) : Except FileFault ByteArray :=
  if path = "" then .error .missing
  else match d.place path with
    | .ok ⟨.file bytes, _⟩ => .ok bytes
    | .ok ⟨.folder _, _⟩ => .error .directory
    | .error fault => .error fault

/-- The disk as files to read. -/
def files (d : Disk) : Files Id := ⟨fun path => pure (d.read path)⟩

end Disk

/-- What a loader of a directory makes of a name. -/
structure Loader.Confined (base name : String) : Prop where
  /-- It accepts the names that are not empty, do not start with a slash and never go up. -/
  accepts : ∀ path, resolve base name = .ok path ↔
    (name ≠ "" ∧ name.toList.head? ≠ some '/' ∧ ".." ∉ Path.segments name) ∧
      path = Path.join base name
  /-- The path of such a name goes where that of the directory does, and on from there. -/
  path : ∀ path, resolve base name = .ok path →
    Path.isAbsolute path = Path.isAbsolute base ∧
      Path.steps path = Path.steps base ++ Path.steps name ∧ ".." ∉ Path.steps name
  /-- The loader asks for the file with that path, and for no other one. -/
  source : ∀ {m : Type → Type} [Monad m] (files : Files m),
    (directory files base).source name =
      match resolve base name with
      | .error fault => pure (.error fault)
      | .ok path => do
        let bytes ← files.read path
        pure (sourceOfBytes name path bytes)
  /-- So does it to tell whether the template is there. -/
  has : ∀ {m : Type → Type} [Monad m] (files : Files m),
    (directory files base).has name =
      match resolve base name with
      | .error _ => pure false
      | .ok path => do
        let bytes ← files.read path
        pure (isFile bytes)
  /-- What it answers is the text of a file below the directory. -/
  below : ∀ (d : Disk) (text : String), (directory d.files base).source name = .ok text →
    ∃ place bytes, d.place base = .ok place ∧ Path.steps name ≠ [] ∧
      place.here.descend (Path.steps name) = some (.file bytes) ∧ decodeText bytes = .ok text

/-! ## Names -/

namespace Path

theorem any_ofSegment? (segments : List String) :
    (segments.filterMap Component.ofSegment?).any (!·.isInside) = segments.contains ".." := by
  induction segments with
  | nil => rfl
  | cons segment rest ih =>
    rw [List.filterMap_cons, List.contains_cons, ← ih]
    by_cases hidle : segment = "" ∨ segment = "."
    · have hnot : ("..": String) ≠ segment := by
        rintro rfl
        exact absurd hidle (by decide)
      simp [Component.ofSegment?, hidle, hnot]
    · by_cases hup : segment = ".."
      · subst hup
        simp [Component.ofSegment?, Component.isInside]
      · simp [Component.ofSegment?, hidle, hup, Component.isInside, Ne.symm hup]

/-- A component of a name leads out if the name starts at the root or goes up. -/
theorem components_inside (name : String) :
    (components name).any (!·.isInside) = escapes name := by
  rw [components, List.any_append, any_ofSegment?, escapes]
  congr 1
  by_cases habs : isAbsolute name = true
  · simp [habs, Component.isInside]
  · rw [Bool.not_eq_true] at habs
    by_cases hdot : (segments name).head? = some "."
    · simp [habs, hdot, Component.isInside]
    · simp [habs, hdot]

end Path

theorem Loader.resolve_eq (base name : String) :
    resolve base name =
      if isValidName name then .ok (Path.join base name) else .error (.invalidName name) := by
  rw [resolve, Path.components_inside, isValidName]
  cases name.isEmpty <;> cases Path.escapes name <;> rfl

theorem Loader.isValidName_iff (name : String) :
    isValidName name = true ↔
      name ≠ "" ∧ name.toList.head? ≠ some '/' ∧ ".." ∉ Path.segments name := by
  rw [isValidName, Bool.and_eq_true, Bool.not_eq_true', Bool.not_eq_true', ← Bool.not_eq_true,
    ← Bool.not_eq_true, Path.escapes_iff, String.isEmpty_iff, not_or]

/-! ## Paths -/

namespace Path

theorem pieces_append_slash (front back : List Char) :
    pieces (front ++ '/' :: back) = pieces front ++ pieces back := by
  induction front with
  | nil => rw [List.nil_append, pieces_cons_slash, pieces, List.singleton_append]
  | cons c rest ih =>
    by_cases hc : c = '/'
    · subst hc
      rw [List.cons_append, pieces_cons_slash, pieces_cons_slash, ih, List.cons_append]
    · rw [List.cons_append, pieces, pieces, ih, if_neg hc, if_neg hc]
      cases hpieces : pieces rest with
      | nil => exact absurd hpieces (pieces_ne_nil rest)
      | cons piece others => rfl

theorem segments_append_slash (front back : String) :
    segments (front ++ "/" ++ back) = segments front ++ segments back := by
  have hlist : (front ++ "/" ++ back).toList = front.toList ++ '/' :: back.toList := by
    simp
  rw [segments, hlist, pieces_append_slash, List.map_append]
  rfl

theorem segments_ne_nil (path : String) : segments path ≠ [] := by
  simpa [segments] using pieces_ne_nil path.toList

/-- The directory of a path is empty, or ends with a slash, or is separated by one. -/
theorem join_cases (base name : String) :
    base = "" ∧ join base name = name ∨
      (∃ front, base = front ++ "/" ∧ join base name = front ++ "/" ++ name) ∨
      base ≠ "" ∧ join base name = base ++ "/" ++ name := by
  unfold join
  cases hlast : base.toList.getLast? with
  | none =>
    rw [List.getLast?_eq_none_iff] at hlast
    exact .inl ⟨String.toList_eq_nil_iff.mp hlast, rfl⟩
  | some c =>
    by_cases hc : c = '/'
    · subst hc
      obtain ⟨front, hfront⟩ := List.getLast?_eq_some_iff.mp hlast
      have hbase : base = String.ofList front ++ "/" := by
        rw [← String.toList_inj, hfront]
        simp
      exact .inr (.inl ⟨String.ofList front, hbase, by simp [← hbase]⟩)
    · refine .inr (.inr ⟨?_, by simp [hc]⟩)
      rintro rfl
      cases hlast

/-- The path of a name in a directory goes where that of the directory does, and on from there. -/
theorem steps_join (base name : String) : steps (join base name) = steps base ++ steps name := by
  obtain ⟨rfl, hjoin⟩ | ⟨front, rfl, hjoin⟩ | ⟨-, hjoin⟩ := join_cases base name
  · rw [hjoin]
    rfl
  · have hfront := segments_append_slash front ""
    rw [String.append_empty] at hfront
    have hempty : (segments "").filter (¬ IsIdle ·) = [] := by decide
    rw [hjoin, steps, steps, hfront, segments_append_slash, List.filter_append, List.filter_append,
      hempty, List.append_nil, steps]
  · rw [hjoin, steps, segments_append_slash, List.filter_append, steps, steps]

theorem isAbsolute_append {front : String} (h : front ≠ "") (back : String) :
    isAbsolute (front ++ back) = isAbsolute front := by
  rw [isAbsolute, isAbsolute, String.toList_append]
  cases hfront : front.toList with
  | nil => exact absurd (String.toList_eq_nil_iff.mp hfront) h
  | cons c rest => rfl

/-- It starts where the path of the directory does, if the name does not start with a slash. -/
theorem isAbsolute_join {name : String} (h : name.toList.head? ≠ some '/') (base : String) :
    isAbsolute (join base name) = isAbsolute base := by
  obtain ⟨rfl, hjoin⟩ | ⟨front, rfl, hjoin⟩ | ⟨hbase, hjoin⟩ := join_cases base name
  · have hempty : isAbsolute "" = false := rfl
    rw [hjoin, hempty]
    simpa [isAbsolute] using h
  · rw [hjoin, isAbsolute_append (by simp)]
  · rw [hjoin, String.append_assoc, isAbsolute_append hbase]

end Path

/-! ## Following segments -/

namespace Place

theorem follow_append (front back : List String) (p : Place) :
    follow (front ++ back) p = (follow front p).bind (follow back) := by
  induction front generalizing p with
  | nil => rfl
  | cons segment rest ih =>
    rw [List.cons_append, follow, follow]
    cases p.step segment with
    | error fault => rfl
    | ok q => exact ih q

theorem step_idle {segment : String} (h : Path.IsIdle segment) {p : Place}
    {entries : List (String × FileTree)} (hp : p.here = .folder entries) :
    p.step segment = .ok p := by
  simp only [step, hp, if_pos h]

theorem step_file {p : Place} {bytes : ByteArray} (hp : p.here = .file bytes) (segment : String) :
    p.step segment = .error .notDirectory := by
  simp only [step, hp]

/-- A segment that leads nowhere does not matter before another one. -/
theorem follow_idle {segment next : String} (h : Path.IsIdle segment) (rest : List String)
    (p : Place) : follow (segment :: next :: rest) p = follow (next :: rest) p := by
  rw [follow]
  cases hhere : p.here with
  | file bytes => rw [follow, step_file hhere, step_file hhere]; rfl
  | folder entries => rw [step_idle h hhere]; rfl

/-- Segments that never go up lead to what lies below. By induction on the segments: each of them
    stays, or takes one entry of the directory it is in. -/
theorem descend_of_follow {segments : List String} {p q : Place} (hup : ".." ∉ segments)
    (h : follow segments p = .ok q) :
    p.here.descend (segments.filter (¬ Path.IsIdle ·)) = some q.here := by
  induction segments generalizing p with
  | nil =>
    cases h
    rfl
  | cons segment rest ih =>
    rw [List.mem_cons, not_or] at hup
    obtain ⟨hsegment, hrest⟩ := hup
    rw [follow, step] at h
    cases hhere : p.here with
    | file bytes =>
      rw [hhere] at h
      cases h
    | folder entries =>
      rw [hhere] at h
      simp only at h
      by_cases hidle : Path.IsIdle segment
      · rw [if_pos hidle] at h
        have hstay := ih hrest h
        rw [hhere] at hstay
        rwa [List.filter_cons_of_neg (by simpa using hidle)]
      · rw [if_neg hidle, if_neg (Ne.symm hsegment)] at h
        split at h
        · cases h
        · cases hchild : Dict.get? entries segment with
          | none =>
            rw [hchild] at h
            cases h
          | some child =>
            rw [hchild] at h
            have hdown := ih hrest h
            rw [List.filter_cons_of_pos (by simpa using hidle), FileTree.descend, hchild]
            exact hdown

/-- Only a directory can be looked into, be it by a segment that leads nowhere. -/
theorem folder_of_follow {segment : String} {rest : List String} {p q : Place}
    (h : follow (segment :: rest) p = .ok q) : ∃ entries, p.here = .folder entries := by
  rw [follow, step] at h
  cases hhere : p.here with
  | file bytes =>
    rw [hhere] at h
    cases h
  | folder entries => exact ⟨entries, rfl⟩

end Place

/-! ## Paths on a disk -/

namespace Disk

/-- The path of a directory is the way to it, perhaps with an empty segment at its end. -/
theorem route_join (d : Disk) {name : String} (h : name.toList.head? ≠ some '/') (base : String) :
    ∃ front, d.route (Path.join base name) = front ++ Path.segments name ∧
      (d.route base = front ∨ d.route base = front ++ [""]) := by
  have hstart := Path.isAbsolute_join h base
  unfold route
  rw [hstart]
  obtain ⟨rfl, hjoin⟩ | ⟨front, rfl, hjoin⟩ | ⟨-, hjoin⟩ := Path.join_cases base name
  · exact ⟨d.working, by rw [hjoin]; rfl, .inr rfl⟩
  · have hfront := Path.segments_append_slash front ""
    rw [String.append_empty] at hfront
    let start := if Path.isAbsolute (front ++ "/") then [] else d.working
    refine ⟨start ++ Path.segments front, ?_, .inr ?_⟩
    · rw [hjoin, Path.segments_append_slash, List.append_assoc]
    · rw [hfront, List.append_assoc]
      rfl
  · let start := if Path.isAbsolute base then [] else d.working
    refine ⟨start ++ Path.segments base, ?_, .inl rfl⟩
    rw [hjoin, Path.segments_append_slash, List.append_assoc]

/-- The path of a name leads to the place of the directory, and on from there. -/
theorem place_join (d : Disk) {name : String} (h : name.toList.head? ≠ some '/') (base : String) :
    d.place (Path.join base name) =
      (d.place base).bind (Place.follow (Path.segments name)) := by
  obtain ⟨front, hjoin, hbase⟩ := d.route_join h base
  rw [place, place, ← Place.follow_append, hjoin]
  obtain hbase | hbase := hbase
  · rw [hbase]
  · cases hname : Path.segments name with
    | nil => exact absurd hname (Path.segments_ne_nil name)
    | cons segment rest =>
      rw [hbase, List.append_assoc, Place.follow_append, Place.follow_append]
      cases Place.follow front ⟨d.root, []⟩ with
      | error fault => rfl
      | ok p => exact (Place.follow_idle (.inl rfl) rest p).symm

/-- A file that is read is at the place that its path leads to. -/
theorem place_of_read {d : Disk} {path : String} {bytes : ByteArray} (h : d.read path = .ok bytes) :
    ∃ place, d.place path = .ok place ∧ place.here = .file bytes := by
  unfold read at h
  split at h
  · cases h
  · split at h
    · next place =>
      cases h
      exact ⟨_, place, rfl⟩
    · cases h
    · cases h

/-- A file with the path of a name that never goes up lies below the directory. -/
theorem descend_of_read {d : Disk} {base name : String} {bytes : ByteArray}
    (hname : name.toList.head? ≠ some '/') (hup : ".." ∉ Path.segments name)
    (h : d.read (Path.join base name) = .ok bytes) :
    ∃ place, d.place base = .ok place ∧ Path.steps name ≠ [] ∧
      place.here.descend (Path.steps name) = some (.file bytes) := by
  obtain ⟨last, hlast, hfile⟩ := place_of_read h
  rw [d.place_join hname base] at hlast
  cases hplace : d.place base with
  | error fault =>
    rw [hplace] at hlast
    cases hlast
  | ok place =>
    rw [hplace] at hlast
    have hfollow : Place.follow (Path.segments name) place = .ok last := hlast
    have hdescend := Place.descend_of_follow hup hfollow
    rw [hfile] at hdescend
    refine ⟨place, rfl, ?_, hdescend⟩
    intro hnone
    cases hsegments : Path.segments name with
    | nil => exact Path.segments_ne_nil name hsegments
    | cons segment rest =>
      rw [hsegments] at hfollow
      obtain ⟨entries, hfolder⟩ := Place.folder_of_follow hfollow
      change place.here.descend (Path.steps name) = _ at hdescend
      rw [hnone, hfolder] at hdescend
      cases hdescend

end Disk

/-! ## The loader -/

namespace Loader

/-- A loader of a directory asks for the path that a name has in it. -/
theorem directory_source_of_resolve {m : Type → Type} [Monad m] (files : Files m)
    (base name : String) :
    (directory files base).source name =
      match resolve base name with
      | .error fault => pure (.error fault)
      | .ok path => files.read path >>= fun bytes => pure (sourceOfBytes name path bytes) := by
  rw [resolve_eq]
  cases hname : isValidName name <;> simp [directory, hname]

theorem directory_has_of_resolve {m : Type → Type} [Monad m] (files : Files m)
    (base name : String) :
    (directory files base).has name =
      match resolve base name with
      | .error _ => pure false
      | .ok path => files.read path >>= fun bytes => pure (isFile bytes) := by
  rw [resolve_eq]
  cases hname : isValidName name <;> simp [directory, hname]

theorem resolve_eq_ok {base name path : String} :
    resolve base name = .ok path ↔
      (name ≠ "" ∧ name.toList.head? ≠ some '/' ∧ ".." ∉ Path.segments name) ∧
        path = Path.join base name := by
  rw [resolve_eq, ← isValidName_iff]
  cases isValidName name <;> simp [eq_comm]

theorem sourceOfBytes_eq_ok {name path text : String} {answer : Except FileFault ByteArray}
    (h : sourceOfBytes name path answer = .ok text) :
    ∃ bytes, answer = .ok bytes ∧ decodeText bytes = .ok text := by
  unfold sourceOfBytes at h
  split at h
  · next bytes =>
    split at h
    · next hdecode =>
      cases h
      exact ⟨bytes, rfl, hdecode⟩
    · cases h
  · split at h <;> cases h

/-- Whatever its name is, a template of a directory is the text of a file below it. -/
theorem directory_confined (base name : String) : Confined base name where
  accepts path := resolve_eq_ok
  path path h := by
    obtain ⟨⟨-, hstart, hup⟩, rfl⟩ := resolve_eq_ok.mp h
    refine ⟨Path.isAbsolute_join hstart base, Path.steps_join base name, fun hmem => hup ?_⟩
    exact (List.mem_filter.mp hmem).1
  source := fun files => directory_source_of_resolve files base name
  has := fun files => directory_has_of_resolve files base name
  below d text h := by
    rw [directory_source_of_resolve] at h
    cases hresolve : resolve base name with
    | error fault =>
      rw [hresolve] at h
      cases h
    | ok path =>
      rw [hresolve] at h
      obtain ⟨⟨-, hstart, hup⟩, rfl⟩ := resolve_eq_ok.mp hresolve
      obtain ⟨bytes, hbytes, hdecode⟩ := sourceOfBytes_eq_ok h
      obtain ⟨place, hplace, hsteps, hdescend⟩ := Disk.descend_of_read hstart hup hbytes
      exact ⟨place, bytes, hplace, hsteps, hdescend, hdecode⟩

example :
    (Id.run ((directory (Disk.files ⟨.folder [("site", .folder [("pages", .folder
      [("a", .file ⟨#[104, 105]⟩)])])], ["site"]⟩) "./pages/").source ".//a")).toOption =
        some "hi" := by
  decide +kernel

end Loader

end Stencil
