import Mathlib.Data.List.Basic
import Stencil.Proofs.Spellings
import Stencil.Syntax.Report

/-!
# Where a report points

Under its heading a report names a line and a column. The span of a fault is in bytes, but a report
takes the numbers of a span as numbers of characters. The two are the same as long as every
character takes one byte. After a longer character the report points behind the place of the fault,
and when a number is past the last character it names no place at all.

Specification: `Line.place?` for the line and the column of a character, `Fault.Locates` for a
report that names a place.

Results:
* `Line.Tiles`, `Line.tiles_ofSource`: the lines of a source are the source, one after the other.
* `Line.Tiles.find`: the line that holds a position is the last one that starts before it.
* `Fault.locates_iff`, `Fault.Locates.unique`: the place that a report names.
* `Fault.report_points`: when that is the place of the fault.
-/

namespace Stencil

/-! ## Characters and bytes -/

namespace Text

theorem length_le_utf8Length (cs : List Char) : cs.length ≤ utf8Length cs := by
  induction cs with
  | nil => exact Nat.le_refl 0
  | cons c cs ih =>
    have hpos := c.utf8Size_pos
    rw [List.length_cons, utf8Length_cons]
    omega

/-- There are as many bytes as characters if every character takes one byte. -/
theorem utf8Length_eq_length {cs : List Char} :
    utf8Length cs = cs.length ↔ ∀ c ∈ cs, c.utf8Size = 1 := by
  induction cs with
  | nil => simp
  | cons c cs ih =>
    have hpos := c.utf8Size_pos
    have hle := length_le_utf8Length cs
    rw [List.forall_mem_cons, ← ih, utf8Length_cons, List.length_cons]
    omega

end Text

namespace Syntax

/-! ## Specification -/

/-- The number of the line that holds a character of a source, and the column of the character
    there. Both start at one, and the character is given by the number of characters before it. -/
def Line.place? (source : List Char) (index : Nat) : Option (Nat × Nat) :=
  ((Line.ofSource source).zipIdx.find? fun (l, _) => l.holds index).map fun (l, i) =>
    (i + 1, index - l.offset + 1)

/-- A place in a file as a report names it. -/
def location (width : Nat) (filename : String) (line column : Nat) : List Char :=
  spaces width ++ "╭─[".toList ++ filename.toList ++ s!":{line}:{column}]".toList

/-- The report of a fault names a place, in the row under its heading. -/
def Fault.Locates (f : Fault) (source : List Char) (filename : String) (line column : Nat) : Prop :=
  ∃ width rest, (f.report source filename).toList =
    row ("Error: ".toList ++ f.message.toList) ++
      (row (location width filename line column) ++ rest)

/-! ## The lines of a source -/

namespace Line

/-- Lines that make up some characters, one after the other from an offset on. -/
inductive Tiles : Nat → List Line → List Char → Prop
  | nil (offset : Nat) : Tiles offset [] []
  | cons {offset : Nat} {content rest : List Char} {lines : List Line} : content ≠ [] →
      Tiles (offset + content.length) lines rest →
      Tiles offset (⟨offset, content⟩ :: lines) (content ++ rest)

theorem split_append (cs : List Char) : (split cs).1 ++ (split cs).2 = cs := by
  fun_induction split cs with
  | case1 => rfl
  | case2 => rfl
  | case3 => rfl
  | case4 c rest _ _ line rest' hsplit ih => 
    rw [hsplit] at ih
    rw [List.cons_append, ih]

theorem split_ne_nil {cs : List Char} (h : cs ≠ []) : (split cs).1 ≠ [] := by
  fun_cases split cs with
  | case1 => exact absurd rfl h
  | case2 => exact List.cons_ne_nil _ _
  | case3 => exact List.cons_ne_nil _ _
  | case4 => exact List.cons_ne_nil _ _

theorem tiles_linesFrom {n : Nat} {cs : List Char} (h : cs.length ≤ n) (offset : Nat) :
    Tiles offset (linesFrom n offset cs) cs := by
  induction n generalizing offset cs with
  | zero =>
    rw [List.eq_nil_of_length_eq_zero (Nat.le_zero.mp h)]
    exact .nil offset
  | succ n ih =>
    cases cs with
    | nil => exact .nil offset
    | cons c cs =>
      have hsplit := split_append (c :: cs)
      have hne : (split (c :: cs)).1 ≠ [] := split_ne_nil (List.cons_ne_nil c cs)
      have hlength := congrArg List.length hsplit
      have hpos := List.length_pos_iff.mpr hne
      rw [List.length_append] at hlength
      have hrest : Tiles (offset + (split (c :: cs)).1.length)
          (linesFrom n (offset + (split (c :: cs)).1.length) (split (c :: cs)).2)
          (split (c :: cs)).2 := ih (by omega) _
      have htiles := Tiles.cons hne hrest
      rw [hsplit] at htiles
      exact htiles

/-- The lines of a source make it up. -/
theorem tiles_ofSource {source : List Char} (h : source ≠ []) :
    Tiles 0 (ofSource source) source := by
  rw [ofSource, if_neg (by simpa using h)]
  exact tiles_linesFrom (Nat.le_refl _) 0

theorem Tiles.offset_le {offset : Nat} {lines : List Line} {cs : List Char}
    (h : Tiles offset lines cs) : ∀ l ∈ lines, offset ≤ l.offset := by
  induction h with
  | nil => exact List.forall_mem_nil _
  | cons _ _ ih =>
    refine List.forall_mem_cons.mpr ⟨Nat.le_refl _, fun l hl => ?_⟩
    exact Nat.le_trans (Nat.le_add_right _ _) (ih l hl)

/-- The line that holds a position is the last one that starts at it or before it. By induction on
    the lines, of which the first one has any number. -/
theorem Tiles.find {offset : Nat} {lines : List Line} {cs : List Char} (h : Tiles offset lines cs)
    {k : Nat} (hk : offset ≤ k) (hlt : k < offset + cs.length) (n : Nat) :
    ∃ l i, (lines.zipIdx n).find? (fun (l, _) => l.holds k) = some (l, i) ∧
      ((lines.zipIdx n).filter fun (l, _) => l.offset ≤ k).getLast? = some (l, i) ∧
      l.offset ≤ k := by
  induction h generalizing n with
  | nil offset =>
    rw [List.length_nil] at hlt
    omega
  | @cons offset content rest lines hne htiles ih =>
    rw [List.length_append] at hlt
    rw [List.zipIdx_cons, List.filter_cons_of_pos (by simpa using hk)]
    by_cases hline : k < offset + content.length
    · refine ⟨⟨offset, content⟩, n, List.find?_cons_of_pos ?_, ?_, hk⟩
      · simpa [holds] using ⟨hk, hline⟩
      · have hlater : (lines.zipIdx (n + 1)).filter (fun (l, _) => l.offset ≤ k) = [] := by
          refine List.filter_eq_nil_iff.mpr fun found hfound => ?_
          have hle := htiles.offset_le found.1 (List.fst_mem_of_mem_zipIdx hfound)
          simp only [decide_eq_true_eq]
          omega
        rw [hlater]
        rfl
    · obtain ⟨l, i, hfind, hlast, hle⟩ := ih (by omega) (by omega) (n + 1)
      refine ⟨l, i, ?_, ?_, hle⟩
      · rw [List.find?_cons_of_neg (by simp [holds]; omega), hfind]
      · rw [List.getLast?_cons, hlast]
        rfl

end Line

/-- The line that is found for a position is a line of the source, and starts at it or before it. -/
theorem of_lineAt {lines : List Line} {length position : Nat} {found : Line × Nat}
    (h : lineAt lines length position = some found) :
    position ≤ length ∧ lines[found.2]? = some found.1 ∧ found.1.offset ≤ position := by
  rw [lineAt] at h
  split at h
  next hle =>
    have hmem := List.mem_of_getLast? h
    obtain ⟨hmem, hoffset⟩ := List.mem_filter.mp hmem
    exact ⟨hle, List.mk_mem_zipIdx_iff_getElem?.mp hmem, by simpa using hoffset⟩
  next => cases h

/-- A position up to the end of a source has a line. -/
theorem exists_lineAt {source : List Char} (hsource : source ≠ []) {position : Nat}
    (h : position ≤ source.length) :
    ∃ found, lineAt (Line.ofSource source) source.length position = some found := by
  rw [lineAt, if_pos h]
  have htiles := Line.tiles_ofSource hsource
  cases hlines : Line.ofSource source with
  | nil =>
    rw [hlines] at htiles
    cases htiles
    exact absurd rfl hsource
  | cons l lines =>
    rw [hlines] at htiles
    have hfirst : l.offset = 0 := by
      cases htiles
      rfl
    rw [List.zipIdx_cons, List.filter_cons_of_pos (by simp [hfirst]), List.getLast?_cons]
    exact ⟨_, rfl⟩

/-- The place of a character is that of its position among the lines. -/
theorem exists_place {source : List Char} {k : Nat} (h : k < source.length) :
    ∃ l i, Line.place? source k = some (i + 1, k - l.offset + 1) ∧
      lineAt (Line.ofSource source) source.length k = some (l, i) := by
  have hsource : source ≠ [] := List.ne_nil_of_length_pos (Nat.zero_lt_of_lt h)
  obtain ⟨l, i, hfind, hlast, -⟩ :=
    (Line.tiles_ofSource hsource).find (Nat.zero_le k) (by omega) 0
  refine ⟨l, i, ?_, ?_⟩
  · rw [Line.place?, hfind]
    rfl
  · rw [lineAt, if_pos (Nat.le_of_lt h), hlast]

/-! ## The place that a report names -/

/-- Characters of a kind are cut off a text in one way. -/
theorem append_stop_inj {p : Char → Bool} {xs ys xs' ys' : List Char}
    (hxs : ∀ c ∈ xs, p c = true) (hys : ∀ c ∈ ys, p c = true)
    (hxs' : ∀ c ∈ xs'.head?, p c = false) (hys' : ∀ c ∈ ys'.head?, p c = false)
    (h : xs ++ xs' = ys ++ ys') : xs = ys ∧ xs' = ys' := by
  obtain ⟨hfirst, hrest⟩ := takeWhile_append_stop hxs hxs'
  obtain ⟨hfirst', hrest'⟩ := takeWhile_append_stop hys hys'
  rw [h] at hfirst hrest
  exact ⟨hfirst.symm.trans hfirst', hrest.symm.trans hrest'⟩

theorem isDigit_toString (n : Nat) : ∀ c ∈ (toString n).toList, c.isDigit = true := by
  intro c hc
  rw [Nat.toString_eq_ofList_toDigits, String.toList_ofList] at hc
  exact Nat.isDigit_of_mem_toDigits (by decide) (Nat.le_refl 10) hc

/-- A number is read off a text up to a character that is no digit. -/
theorem toString_append_inj {m n : Nat} {c : Char} {xs ys : List Char} (hc : c.isDigit = false)
    (h : (toString m).toList ++ c :: xs = (toString n).toList ++ c :: ys) : m = n ∧ xs = ys := by
  have hstop (zs : List Char) : ∀ d ∈ (c :: zs).head?, d.isDigit = false := by
    rintro d ⟨⟩
    exact hc
  obtain ⟨hdigits, hrest⟩ :=
    append_stop_inj (isDigit_toString m) (isDigit_toString n) (hstop xs) (hstop ys) h
  rw [Nat.toString_eq_ofList_toDigits, Nat.toString_eq_ofList_toDigits, String.toList_ofList,
    String.toList_ofList] at hdigits
  have hnumber : m = n :=
    calc m = Nat.ofDigitChars 10 (Nat.toDigits 10 m) 0 := Nat.ofDigitChars_ten_toDigits.symm
      _ = Nat.ofDigitChars 10 (Nat.toDigits 10 n) 0 := by rw [hdigits]
      _ = n := Nat.ofDigitChars_ten_toDigits
  exact ⟨hnumber, (List.cons.inj hrest).2⟩

theorem location_eq (width : Nat) (filename : String) (line column : Nat) (rest : List Char) :
    row (location width filename line column) ++ rest =
      spaces width ++ ('╭' :: '─' :: '[' :: (filename.toList ++
        ':' :: ((toString line).toList ++
          ':' :: ((toString column).toList ++ ']' :: '\n' :: rest)))) := by
  have hplace : s!":{line}:{column}]".toList =
      ':' :: ((toString line).toList ++ ':' :: ((toString column).toList ++ [']'])) := by
    simp [String.toList_append]
    rfl
  rw [row, location, hplace]
  simp

/-- Two rows that name places in the same file name the same place if they are the same. -/
theorem location_inj {width width' line line' column column' : Nat} {filename : String}
    {rest rest' : List Char}
    (h : row (location width filename line column) ++ rest =
      row (location width' filename line' column') ++ rest') :
    line = line' ∧ column = column' := by
  have hspaces (n : Nat) : ∀ c ∈ spaces n, (c == ' ') = true := fun c hc =>
    beq_iff_eq.mpr (List.eq_of_mem_replicate hc)
  have hcorner (xs : List Char) : ∀ c ∈ ('╭' :: xs).head?, (c == ' ') = false := by
    rintro c ⟨⟩
    rfl
  rw [location_eq, location_eq] at h
  obtain ⟨-, h⟩ := append_stop_inj (hspaces width) (hspaces width') (hcorner _) (hcorner _) h
  have h := List.append_cancel_left (List.cons.inj (List.cons.inj (List.cons.inj h).2).2).2
  obtain ⟨hline, h⟩ := toString_append_inj (by decide) (List.cons.inj h).2
  obtain ⟨hcolumn, -⟩ := toString_append_inj (by decide) h
  exact ⟨hline, hcolumn⟩

namespace Fault

variable {f : Fault} {source : List Char} {filename : String} {line line' column column' : Nat}

/-- A report names one place at most. -/
theorem Locates.unique (h : f.Locates source filename line column)
    (h' : f.Locates source filename line' column') : line = line' ∧ column = column' := by
  obtain ⟨width, rest, hreport⟩ := h
  obtain ⟨width', rest', hreport'⟩ := h'
  exact location_inj (List.append_cancel_left (hreport.symm.trans hreport'))

/-- The report of a fault whose span is not empty, in a source with lines for both ends. -/
theorem locates_of_lineAt (hspan : f.span.start < f.span.stop) {first last : Line × Nat}
    (hfirst : lineAt (Line.ofSource source) source.length f.span.start = some first)
    (hlast : lineAt (Line.ofSource source) source.length (f.span.stop - 1) = some last)
    (filename : String) :
    f.Locates source filename (first.2 + 1) (f.span.start - first.1.offset + 1) := by
  refine ⟨(Nat.toDigits 10 (last.2 + 1)).length + 2, ?_⟩
  rw [report, if_neg (Nat.not_le_of_lt hspan)]
  simp only [hfirst, hlast, String.toList_ofList, location, row, List.append_assoc]
  exact ⟨_, rfl⟩

theorem report_of_lineAt_none (hspan : f.span.start < f.span.stop)
    (h : lineAt (Line.ofSource source) source.length f.span.start = none ∨
      lineAt (Line.ofSource source) source.length (f.span.stop - 1) = none) :
    (f.report source filename).toList = row ("Error: ".toList ++ f.message.toList) := by
  rw [report, if_neg (Nat.not_le_of_lt hspan)]
  cases hfirst : lineAt (Line.ofSource source) source.length f.span.start with
  | none => simp only [String.toList_ofList]
  | some first =>
    obtain h | h := h
    · rw [hfirst] at h
      cases h
    · simp only [h, String.toList_ofList]

/-- A report names a place if both ends of the span have a line, and then it is that of the first
    one. -/
theorem locates_iff (hspan : f.span.start < f.span.stop) :
    f.Locates source filename line column ↔ ∃ first last,
      lineAt (Line.ofSource source) source.length f.span.start = some first ∧
      lineAt (Line.ofSource source) source.length (f.span.stop - 1) = some last ∧
      line = first.2 + 1 ∧ column = f.span.start - first.1.offset + 1 := by
  have hnone (h : lineAt (Line.ofSource source) source.length f.span.start = none ∨
      lineAt (Line.ofSource source) source.length (f.span.stop - 1) = none) :
      ¬ f.Locates source filename line column := by
    rintro ⟨width, rest, hreport⟩
    rw [report_of_lineAt_none hspan h] at hreport
    have hlength := congrArg List.length hreport
    simp only [row, List.length_append, List.length_singleton] at hlength
    omega
  constructor
  · intro h
    cases hfirst : lineAt (Line.ofSource source) source.length f.span.start with
    | none => exact absurd h (hnone (.inl hfirst))
    | some first =>
      cases hlast : lineAt (Line.ofSource source) source.length (f.span.stop - 1) with
      | none => exact absurd h (hnone (.inr hlast))
      | some last =>
        have hplace := h.unique (locates_of_lineAt hspan hfirst hlast filename)
        exact ⟨first, last, rfl, rfl, hplace.1, hplace.2⟩
  · rintro ⟨first, last, hfirst, hlast, rfl, rfl⟩
    exact locates_of_lineAt hspan hfirst hlast filename

/-- A report names the place of the character that has the start of the span as its number, if the
    span does not end too far behind the last character. That is the first character of the fault
    exactly if every character before it takes one byte. -/
theorem report_points {before after : List Char} {c : Char}
    (hsource : source = before ++ c :: after) (hstart : f.span.start = Text.utf8Length before)
    (hspan : f.span.start < f.span.stop) (filename : String) :
    (f.span.start < source.length →
      ∃ line column, Line.place? source f.span.start = some (line, column) ∧
        (f.Locates source filename line column ↔ f.span.stop ≤ source.length + 1)) ∧
    ∃ line column, Line.place? source before.length = some (line, column) ∧
      (f.Locates source filename line column ↔
        (∀ d ∈ before, d.utf8Size = 1) ∧ f.span.stop ≤ source.length + 1) := by
  have hlength : before.length < source.length := by
    rw [hsource, List.length_append, List.length_cons]
    omega
  have hnonempty : source ≠ [] := List.ne_nil_of_length_pos (Nat.zero_lt_of_lt hlength)
  have hlocates {l : Line} {i : Nat} (hle : f.span.stop ≤ source.length + 1)
      (hline : lineAt (Line.ofSource source) source.length f.span.start = some (l, i)) :
      f.Locates source filename (i + 1) (f.span.start - l.offset + 1) := by
    obtain ⟨last, hlast⟩ := exists_lineAt hnonempty (show f.span.stop - 1 ≤ source.length by omega)
    exact locates_of_lineAt hspan hline hlast filename
  have hstop {line column : Nat} (h : f.Locates source filename line column) :
      f.span.stop ≤ source.length + 1 := by
    obtain ⟨first, last, -, hlast, -, -⟩ := (locates_iff hspan).mp h
    have hle := (of_lineAt hlast).1
    omega
  refine ⟨fun hnumber => ?named, ?pointed⟩
  case named =>
    obtain ⟨l, i, hplace, hline⟩ := exists_place hnumber
    exact ⟨i + 1, f.span.start - l.offset + 1, hplace, hstop, fun hle => hlocates hle hline⟩
  case pointed =>
    obtain ⟨l, i, hplace, hline⟩ := exists_place hlength
    refine ⟨i + 1, before.length - l.offset + 1, hplace, fun h => ⟨?_, hstop h⟩, ?_⟩
    · obtain ⟨⟨l', i'⟩, last, hfirst, -, hnumber, hcolumn⟩ := (locates_iff hspan).mp h
      obtain ⟨-, hline', hoffset'⟩ := of_lineAt hfirst
      obtain ⟨-, hline, hoffset⟩ := of_lineAt hline
      simp only at hnumber hcolumn hline hline' hoffset hoffset'
      rw [← Nat.succ.inj hnumber, hline] at hline'
      cases hline'
      refine Text.utf8Length_eq_length.mp ?_
      omega
    · rintro ⟨hbytes, hle⟩
      have hsame : f.span.start = before.length := by
        rw [hstart, Text.utf8Length_eq_length.mpr hbytes]
      have hlocated := hlocates hle (hsame ▸ hline)
      rwa [hsame] at hlocated

/-- The fault of `a{{ $ }}` and of `é{{ $ }}`, at its place in one of them. -/
def atDollar (span : Span) : Fault := ⟨span, .unexpectedText "$", []⟩

/-- In `a{{ $ }}` the report names the place of the fault. -/
theorem report_points_ascii :
    (atDollar ⟨4, 5⟩).Locates "a\x7b\x7b $ \x7d\x7d".toList "page" 1 5 := by
  have hsource : "a\x7b\x7b $ \x7d\x7d".toList =
      "a\x7b\x7b ".toList ++ '$' :: " \x7d\x7d".toList := by decide +kernel
  have hstart : (atDollar ⟨4, 5⟩).span.start = Text.utf8Length "a\x7b\x7b ".toList := by
    decide +kernel
  have hplace : Line.place? "a\x7b\x7b $ \x7d\x7d".toList 4 = some (1, 5) := by decide +kernel
  obtain ⟨-, line, column, hfirst, hlocates⟩ := report_points hsource hstart (by decide) "page"
  cases hplace.symm.trans hfirst
  have hbytes : Text.utf8Length "a\x7b\x7b ".toList = "a\x7b\x7b ".toList.length := by
    decide +kernel
  exact hlocates.mpr ⟨Text.utf8Length_eq_length.mp hbytes, by decide +kernel⟩

/-- In `é{{ $ }}` the fault is at the fifth character of the line, and the report names the
    sixth one. -/
theorem not_report_points_accented :
    let source := "é\x7b\x7b $ \x7d\x7d".toList
    let fault := atDollar ⟨5, 6⟩
    lexemes source = .error fault ∧ source = "é\x7b\x7b ".toList ++ '$' :: " \x7d\x7d".toList ∧
      Text.utf8Length "é\x7b\x7b ".toList = 5 ∧ Line.place? source 4 = some (1, 5) ∧
      fault.Locates source "page" 1 6 ∧ ¬ fault.Locates source "page" 1 5 := by
  intro source fault
  have hline : lineAt (Line.ofSource source) source.length 5 = some (⟨0, source⟩, 0) := by
    decide +kernel
  have hsixth : fault.Locates source "page" 1 6 :=
    locates_of_lineAt (show fault.span.start < fault.span.stop by decide) hline hline "page"
  refine ⟨by decide +kernel, by decide +kernel, by decide +kernel, by decide +kernel, hsixth,
    fun hfifth => ?_⟩
  exact absurd (hfifth.unique hsixth).2 (by decide)

end Fault

end Syntax

end Stencil
