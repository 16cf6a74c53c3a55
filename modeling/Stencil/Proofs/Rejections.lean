import Stencil.Proofs.Extents
import Stencil.Proofs.Violations

/-!
# The faults of a rejected source

A source is rejected at three stages. The lexer stops at a part without an end or at a slice that is
no token, the grammar at a token or at the end of the source, and the rules for tags report items.
All of these places come from cuts of the source, so whatever a source is made of, each of them can
be shown in it.

Specification: `Span.Shown` for a span that can be shown in a source.

Results:
* `Span.shown_iff_slice`: such a span has a slice of the source.
* `Syntax.lexemesFrom_blames`, `Syntax.items_blames`, `Tree.ofItems_blames`: the three stages.
* `Tree.parse_rejections`: the faults of a source that is rejected.
-/

namespace Stencil

/-! ## Specification -/

/-- An offset between two characters of a source, or at one of its ends. -/
def Text.Boundary (source : List Char) (p : Nat) : Prop :=
  ∃ before after, source = before ++ after ∧ Text.utf8Length before = p

/-- A span that can be shown in a source: it lies in the source and cuts no character in two. -/
structure Span.Shown (source : List Char) (span : Span) : Prop where
  ordered : span.start ≤ span.stop
  inside : span.stop ≤ Text.utf8Length source
  starts : Text.Boundary source span.start
  stops : Text.Boundary source span.stop

variable {source : List Char} {tokens : List Lexeme}

/-! ## Slices -/

/-- Of two cuts of a source, the one at the smaller offset comes first. -/
theorem Text.between_of_le {before after before' after' : List Char}
    (h : before ++ after = before' ++ after')
    (hle : utf8Length before ≤ utf8Length before') : ∃ piece, before' = before ++ piece := by
  obtain ⟨piece, hpiece, -⟩ | ⟨piece, hpiece, -⟩ := List.append_eq_append_iff.mp h
  · exact ⟨piece, hpiece⟩
  · rw [hpiece, utf8Length_append] at hle
    obtain rfl : piece = [] := utf8Length_eq_zero.mp (by omega)
    exact ⟨[], by rw [hpiece, List.append_nil, List.append_nil]⟩

namespace Span

/-- A span can be shown in a source exactly if it has a slice there. -/
theorem shown_iff_slice {span : Span} :
    span.Shown source ↔ ∃ piece, Text.slice? source span.start span.stop = some piece := by
  constructor
  · rintro ⟨hle, -, ⟨before, after, rfl, hstart⟩, ⟨before', after', hsource, hstop⟩⟩
    rw [← hstart, ← hstop] at hle
    obtain ⟨piece, rfl⟩ := Text.between_of_le hsource hle
    refine ⟨piece, Text.slice?_eq_some.mpr ⟨before, after', ?_, hstart, ?_⟩⟩
    · rw [hsource, List.append_assoc]
    · rw [← hstart, ← hstop, Text.utf8Length_append]
  · rintro ⟨piece, hpiece⟩
    obtain ⟨before, after, rfl, hstart, hstop⟩ := Text.slice?_eq_some.mp hpiece
    refine ⟨by omega, ?_, ⟨before, _, rfl, hstart⟩, ⟨before ++ piece, after, ?_, ?_⟩⟩
    · rw [Text.utf8Length_append, Text.utf8Length_append]
      omega
    · rw [List.append_assoc]
    · rw [Text.utf8Length_append, hstart, hstop]

/-- The place of a piece of a source. -/
theorem shown_spanAfter (before piece after : List Char) :
    (Syntax.spanAfter before piece).Shown (before ++ (piece ++ after)) := by
  refine shown_iff_slice.mpr ⟨piece, Text.slice?_eq_some.mpr ⟨before, after, rfl, rfl, ?_⟩⟩
  rw [Syntax.spanAfter, Text.utf8Length_append]

/-- The place right after a source. -/
theorem shown_end (source : List Char) :
    (⟨Text.utf8Length source, Text.utf8Length source⟩ : Span).Shown source := by
  have hshown := shown_spanAfter source [] []
  simpa [Syntax.spanAfter] using hshown

/-- What goes from a token to a token can be shown if all tokens can. -/
theorem Sound.shown {span : Span} (h : span.Sound source tokens)
    (htokens : ∀ l ∈ tokens, l.span.Shown source) : span.Shown source := by
  obtain ⟨first, hfirst, hstart⟩ := h.starts
  obtain ⟨last, hlast, hstop⟩ := h.stops
  refine ⟨Nat.le_of_lt h.nonempty, h.inside, ?_, ?_⟩
  · rw [← hstart]
    exact (htokens first hfirst).starts
  · rw [← hstop]
    exact (htokens last hlast).stops

end Span

/-! ## The lexer -/

namespace Syntax

/-- The tokens of a source can be shown in it. -/
theorem shown_of_lexemes {ls : List Lexeme} (h : lexemes source = .ok ls) :
    ∀ l ∈ ls, l.span.Shown source := by
  have hlaid : Laid [] source ls := laid_of_lexemesFrom h
  intro l hl
  obtain ⟨piece, hpiece⟩ := hlaid.lossless.sliced l hl
  exact Span.shown_iff_slice.mpr ⟨piece, hpiece⟩

/-- A fault in a tag is about a piece of its code. -/
theorem code_blames (isPrint : Bool) {front content rest : List Char} {fault : Fault}
    (h : (Part.code (Text.utf8Length front) isPrint content).lexemes = .error fault) :
    fault.span.Shown (front ++ ((tagDelimiter isPrint).enclose content ++ rest)) := by
  have hopened : Text.utf8Length (front ++ tagOpener isPrint) = Text.utf8Length front + 2 := by
    rw [Text.utf8Length_append]
    cases isPrint <;> rfl
  rw [lexemes_code] at h
  cases hcode : codeLexemes (Text.utf8Length front + 2) content with
  | ok inner =>
    rw [hcode] at h
    cases h
  | error found =>
    rw [hcode] at h
    cases h
    obtain ⟨before, piece, after, rfl, rfl⟩ := Bytewise.codeLexemes_error hcode
    have hshown := Span.shown_spanAfter (front ++ tagOpener isPrint ++ before) piece
      (after ++ (tagCloser isPrint ++ rest))
    simp only [spanAfter, Text.utf8Length_append _ before, Text.utf8Length_append _ piece,
      hopened] at hshown
    have hsource : front ++ ((tagDelimiter isPrint).enclose (before ++ (piece ++ after)) ++ rest) =
        front ++ tagOpener isPrint ++ before ++
          (piece ++ (after ++ (tagCloser isPrint ++ rest))) := by
      simp [Delimiter.enclose, tagOpener, tagCloser]
    rw [hsource]
    exact hshown

theorem part_blames {kind : Delimiter} {front content rest : List Char} {fault : Fault}
    (h : (kind.part (Text.utf8Length front) content).lexemes = .error fault) :
    fault.span.Shown (front ++ (kind.enclose content ++ rest)) := by
  cases kind with
  | comment => cases h
  | print => exact code_blames true h
  | tag => exact code_blames false h

/-- A fault of the lexer is at a part without an end, or at a piece of the code of a tag. By
    induction on the parts of the source. -/
theorem lexemesFrom_blames {front cs : List Char} {fault : Fault}
    (h : lexemesFrom (Text.utf8Length front) cs = .error fault) :
    fault.span.Shown (front ++ cs) := by
  induction cs using parts_induction generalizing front with
  | text cs text hopening =>
    rw [lexemesFrom_text hopening] at h
    cases h
  | unclosed cs text kind body hopening hcontent =>
    have hcs : cs = text ++ '\x7b' :: kind.inner :: body := openingIn_append hopening
    rw [lexemesFrom_unclosed hopening hcontent] at h
    cases h
    have hshown := Span.shown_spanAfter (front ++ text) ('\x7b' :: kind.inner :: body) []
    rw [List.append_nil, List.append_assoc, ← hcs, spanAfter, List.append_assoc, ← hcs,
      Text.utf8Length_append, Text.utf8Length_append] at hshown
    exact hshown
  | part cs text kind body content rest hopening hcontent ih =>
    rw [eq_of_part hopening hcontent, ← List.append_assoc]
    obtain hpart | ⟨part, -, hothers⟩ := (lexemesFrom_part_error hopening hcontent front).1 h
    · exact part_blames hpart
    · rw [← List.append_assoc]
      exact ih hothers

/-! ## The grammar

A fault of the grammar is at a token, or at the end of the source. -/

variable {α β : Type} {place : Span → Prop}

/-- A composed step fails if one of its parts does. -/
theorem bind_error {x : Reading α} {f : α → Reading β} {c : Cursor} {fault : Fault} :
    (x >>= f) c = .error fault ↔
      x c = .error fault ∨ ∃ a mid, x c = .ok (a, mid) ∧ f a mid = .error fault := by
  show (x c >>= fun r => f r.1 r.2) = _ ↔ _
  cases hx : x c with
  | error e =>
    constructor
    · intro h
      cases h
      exact .inl rfl
    · rintro (h | ⟨a, mid, h, -⟩)
      · cases h
        rfl
      · cases h
  | ok r =>
    constructor
    · intro h
      exact .inr ⟨r.1, r.2, rfl, h⟩
    · rintro (h | ⟨a, mid, h, hf⟩)
      · cases h
      · cases h
        exact hf

/-- All that a cursor can blame is at such a place: its tokens and the end of the source. -/
structure Cursor.On (place : Span → Prop) (c : Cursor) : Prop where
  tokens : ∀ l ∈ c.rest, place l.span
  stop : place ⟨c.stop, c.stop⟩

namespace Cursor.On

variable {c : Cursor}

theorem note (h : c.On place) (e : Expectation) : (c.note e).On place := by
  rw [Cursor.note]
  split
  · exact h
  · exact ⟨h.tokens, h.stop⟩

theorem tail (h : c.On place) : Cursor.On place { c with rest := c.rest.tail, tried := [] } :=
  ⟨fun l hl => h.tokens l (List.mem_of_mem_tail hl), h.stop⟩

theorem fault (h : c.On place) : place c.fault.span := by
  rw [Cursor.fault]
  cases hrest : c.rest with
  | nil => exact h.stop
  | cons l rest =>
    refine h.tokens l ?_
    rw [hrest]
    exact List.mem_cons_self

end Cursor.On

/-- The step gets from cursors at such places to cursors at such places, and blames nothing else. -/
structure Blames (place : Span → Prop) (x : Reading α) : Prop where
  on : ∀ c a c', c.On place → x c = .ok (a, c') → c'.On place
  fault : ∀ c fault, c.On place → x c = .error fault → place fault.span

namespace Blames

theorem pure {a : α} : Blames place (pure a) where
  on c b c' hc h := by
    cases h
    exact hc
  fault c e hc h := by cases h

theorem refuse : Blames place (refuse : Reading α) where
  on c b c' hc h := by cases h
  fault c e hc h := by
    cases h
    exact hc.fault

/-- A step that stops with a fault of its own. -/
theorem throw {e : Fault} (h : place e.span) : Blames place (throw e : Reading α) where
  on c b c' hc hb := by cases hb
  fault c e' hc he := by
    cases he
    exact h

theorem bind {x : Reading β} {f : β → Reading α} (hx : Blames place x)
    (hf : ∀ b, Blames place (f b)) : Blames place (x >>= f) where
  on c a c' hc h := by
    obtain ⟨b, mid, hb, ha⟩ := bind_ok.mp h
    exact (hf b).on mid a c' (hx.on c b mid hc hb) ha
  fault c e hc h := by
    obtain h | ⟨b, mid, hb, he⟩ := bind_error.mp h
    · exact hx.fault c e hc h
    · exact (hf b).fault mid e (hx.on c b mid hc hb) he

/-- A step that may find nothing. -/
theorem bindOption {x : Reading (Option β)} {f : Option β → Reading α} (hx : Blames place x)
    (hnone : Blames place (f none)) (hsome : ∀ b, Blames place (f (some b))) :
    Blames place (x >>= f) := by
  refine hx.bind fun found => ?_
  cases found with
  | none => exact hnone
  | some b => exact hsome b

theorem next? : Blames place next? where
  on c b c' hc h := by
    cases h
    exact hc
  fault c e hc h := by cases h

theorem advance : Blames place advance where
  on c b c' hc h := by
    cases h
    exact hc.tail
  fault c e hc h := by cases h

theorem ending : Blames place refuseUnlessEnd where
  on c b c' hc h := by
    rw [refuseUnlessEnd] at h
    split at h
    · cases h
      exact hc
    · cases h
  fault c e hc h := by
    rw [refuseUnlessEnd] at h
    split at h
    · cases h
    · cases h
      exact (hc.note _).fault

/-- A token that may be there is at such a place. -/
theorem accept {t : Token} {f : Option Span → Reading α} (hnone : Blames place (f none))
    (hsome : ∀ span, place span → Blames place (f (some span))) :
    Blames place (accept? t >>= f) := by
  -- What is found is at the front of the tokens, so the rule for composed steps says too little.
  have hfound (c : Cursor) (hc : c.On place) : ∃ found mid, accept? t c = .ok (found, mid) ∧
      mid.On place ∧ ∀ span ∈ found, place span := by
    cases hrest : c.rest with
    | nil => exact ⟨none, c.note (.token t), by simp only [accept?, hrest], hc.note _, nofun⟩
    | cons l rest =>
      by_cases ht : l.token = t
      · refine ⟨some l.span, _, by simp only [accept?, hrest, if_pos ht]; rfl, ?_, ?_⟩
        · have htail := hc.tail
          rwa [hrest] at htail
        · rintro span ⟨⟩
          exact hc.tokens l (hrest ▸ List.mem_cons_self)
      · exact ⟨none, c.note (.token t), by simp only [accept?, hrest, if_neg ht], hc.note _, nofun⟩
  have hstep (found : Option Span) (h : ∀ span ∈ found, place span) : Blames place (f found) := by
    cases found with
    | none => exact hnone
    | some span => exact hsome span (h span rfl)
  constructor
  · intro c a c' hc h
    obtain ⟨b, mid, hb, ha⟩ := bind_ok.mp h
    obtain ⟨found, mid', heq, hmid, hspan⟩ := hfound c hc
    cases heq.symm.trans hb
    exact (hstep b hspan).on mid a c' hmid ha
  · intro c e hc h
    obtain ⟨found, mid, heq, hmid, hspan⟩ := hfound c hc
    obtain h | ⟨b, mid', hb, he⟩ := bind_error.mp h
    · cases h.symm.trans heq
    · cases hb.symm.trans heq
      exact (hstep found hspan).fault mid e hmid he

/-- A token that has to be there. -/
theorem expect {t : Token} {f : Span → Reading α} (h : ∀ span, Blames place (f span)) :
    Blames place (expect t >>= f) :=
  bind (accept refuse fun _ _ => pure) h

theorem ident? : Blames place ident? := by
  refine next?.bind fun found => ?_
  split
  · exact advance.bind fun _ => pure
  · exact pure

theorem ident : Blames place ident := ident?.bindOption refuse fun _ => pure

end Blames

theorem literal?_blames : Blames place literal? := by
  refine .bind .next? fun found => ?_
  split
  · split
    all_goals first
      | exact .pure
      | exact .bind .advance fun _ => .pure
  · exact .pure

theorem key?_blames : Blames place key? := by
  refine .bind .next? fun found => ?_
  split
  · exact .bind .advance fun _ => .pure
  · exact .bind .advance fun _ => .pure
  · exact .pure

theorem attributes_blames (n : Nat) (object : Expr) : Blames place (attributes n object) := by
  induction n generalizing object with
  | zero => exact .refuse
  | succ n ih =>
    rw [attributes]
    refine .accept .pure fun _ _ => .bind .ident fun name => ?_
    exact ih _

/-- The functions for expressions blame nothing else, with some bound on the steps. -/
structure ExpressionsBlame (place : Span → Prop) (n : Nat) : Prop where
  expr : Blames place (expr? n)
  joined : ∀ left, Blames place (joined n left)
  operand : Blames place (operand? n)
  atom : Blames place (atom? n)
  exprs : Blames place (exprs n)
  entries : Blames place (entries n)

namespace ExpressionsBlame

variable {n : Nat} (ih : ExpressionsBlame place n)
include ih

theorem succ_expr : Blames place (expr? (n + 1)) := by
  rw [expr?]
  exact .bindOption ih.operand .pure fun first => (ih.joined first).bind fun _ => .pure

theorem succ_joined (left : Expr) : Blames place (Syntax.joined (n + 1) left) := by
  rw [Syntax.joined]
  exact .accept .pure fun _ _ => .bindOption ih.operand .refuse fun right => ih.joined _

theorem succ_operand : Blames place (operand? (n + 1)) := by
  rw [operand?]
  exact .bindOption ih.atom .pure fun base => (attributes_blames n base).bind fun _ => .pure

theorem succ_atom : Blames place (atom? (n + 1)) := by
  rw [atom?]
  refine .bindOption literal?_blames ?_ fun _ => .pure
  refine .accept ?_ fun first _ => ih.entries.bind fun _ => .expect fun _ => .pure
  refine .accept ?_ fun first _ => ih.exprs.bind fun _ => .expect fun _ => .pure
  refine .bindOption .ident? ?paren fun name => ?named
  case named =>
    exact .accept .pure fun _ _ => ih.exprs.bind fun _ => .expect fun _ => .pure
  case paren =>
    refine .accept .pure fun _ _ => .bindOption ih.expr .refuse fun e => ?_
    exact .expect fun _ => .pure

theorem succ_exprs : Blames place (Syntax.exprs (n + 1)) := by
  rw [Syntax.exprs]
  refine .bindOption ih.expr .pure fun e => .accept .pure fun _ _ => ?_
  exact ih.exprs.bind fun _ => .pure

theorem succ_entries : Blames place (Syntax.entries (n + 1)) := by
  rw [Syntax.entries]
  refine .bindOption key?_blames .pure fun key => .expect fun _ => ?_
  refine .bindOption ih.expr .refuse fun e => .accept .pure fun _ _ => ?_
  exact ih.entries.bind fun _ => .pure

end ExpressionsBlame

/-- By induction on the bound: every function calls the others with a smaller one. -/
theorem expressionsBlame (n : Nat) : ExpressionsBlame place n := by
  induction n with
  | zero => exact ⟨.refuse, fun _ => .refuse, .refuse, .refuse, .refuse, .refuse⟩
  | succ n ih =>
    exact ⟨ih.succ_expr, ih.succ_joined, ih.succ_operand, ih.succ_atom, ih.succ_exprs,
      ih.succ_entries⟩

theorem expr_blames (n : Nat) : Blames place (expr n) :=
  .bindOption (expressionsBlame n).expr .refuse fun _ => .pure

theorem clauses_blames (n : Nat) : Blames place (clauses n) := by
  have hbindings : Blames place (bindings? n) :=
    .accept .pure fun _ _ => (expr_blames n).bind fun _ => .pure
  have hafter (ignoreMissing : Bool) : Blames place (clausesAfter n ignoreMissing) :=
    hbindings.bind fun _ => .accept .pure fun _ _ => .pure
  rw [clauses_eq]
  exact .accept (hafter false) fun _ _ => .expect fun _ => hafter true

section Tags

variable {closing : Option Keyword} {n : Nat} (ih : ∀ closing, Blames place (items closing n))

include ih

theorem itemsAfter_blames (item : Item) : Blames place (itemsAfter closing n item) :=
  (ih closing).bind fun _ => .pure

theorem blockTag_blames (first : Span) {keyword : Span} (hkeyword : place keyword) :
    Blames place (blockTag closing n first keyword) := by
  rw [blockTag_eq]
  refine .bind .ident fun name => .expect fun _ => (ih _).bind fun body => ?_
  refine .bind .ident? fun ending => .expect fun last => ?_
  split
  · exact itemsAfter_blames ih _
  · exact .throw hkeyword

theorem embedTag_blames (first : Span) : Blames place (embedTag closing n first) := by
  refine (expr_blames n).bind fun target => (clauses_blames n).bind fun found => .expect fun _ => ?_
  exact (ih _).bind fun body => .expect fun last => itemsAfter_blames ih _

theorem includeTag_blames (first : Span) : Blames place (includeTag closing n first) := by
  refine (expr_blames n).bind fun target => (clauses_blames n).bind fun found => ?_
  exact .expect fun last => itemsAfter_blames ih _

end Tags

/-- By induction on the bound: what an item encloses, and the items after it, are read with a
    smaller one. -/
theorem items_blames (closing : Option Keyword) (n : Nat) : Blames place (items closing n) := by
  induction n generalizing closing with
  | zero => exact .refuse
  | succ n ih =>
    unfold items
    refine .bind .next? fun found => ?_
    split
    · exact .bind .advance fun _ => itemsAfter_blames ih _
    refine .accept ?_ fun first _ => (expr_blames n).bind fun _ => .expect fun _ =>
      itemsAfter_blames ih _
    refine .accept ?closed fun first _ => ?_
    case closed =>
      cases closing with
      | none => exact .bind .ending fun _ => .pure
      | some k => exact .refuse
    refine .accept ?_ fun keyword hkeyword => blockTag_blames ih first hkeyword
    refine .accept ?_ fun _ _ => embedTag_blames ih first
    refine .accept ?_ fun _ _ => includeTag_blames ih first
    refine .accept ?_ fun _ _ => (expr_blames n).bind fun _ => .expect fun _ =>
      itemsAfter_blames ih _
    cases closing with
    | none => exact .refuse
    | some k => exact .expect fun _ => .pure

/-- The fault of a source that has no items can be shown in it. -/
theorem parseItems_blames {fault : Fault} (h : parseItems source = .error fault) :
    fault.span.Shown source := by
  rw [parseItems] at h
  cases hls : lexemes source with
  | error found =>
    rw [hls] at h
    cases h
    have hlexer : lexemesFrom (Text.utf8Length []) source = .error fault := hls
    exact lexemesFrom_blames hlexer
  | ok ls =>
    rw [hls] at h
    have hon : Cursor.On (Span.Shown source) { rest := ls, stop := Text.utf8Length source } :=
      ⟨shown_of_lexemes hls, Span.shown_end source⟩
    have hitems : itemsOf ls (Text.utf8Length source) = .error fault := h
    rw [itemsOf] at hitems
    cases hrun : items none (bound ls) { rest := ls, stop := Text.utf8Length source } with
    | ok result =>
      rw [hrun] at hitems
      cases hitems
    | error found =>
      rw [hrun] at hitems
      cases hitems
      exact (items_blames none _).fault _ _ hon hrun

end Syntax

/-! ## The rules for tags

A fault of the rules is at an item. -/

namespace Item

mutual

theorem Faithful.inside : ∀ {item : Item}, item.Faithful source tokens →
    ∀ inner ∈ item.inside, inner.Faithful source tokens
  | .block _ _ body, ⟨_, _, hbody, _, _, _⟩ => faithful_within body hbody
  | .embed _ _ _ body, ⟨_, _, hbody, _, _, _⟩ => faithful_within body hbody
  | .text .., _ | .print .., _ | .«include» .., _ | .«extends» .., _ => by
    simp only [Item.inside]
    exact List.forall_mem_nil _

theorem faithful_within : ∀ (items : List Item),
    (∀ item ∈ items, item.Faithful source tokens) →
      ∀ inner ∈ within items, inner.Faithful source tokens
  | [], _ => by
    simp only [within]
    exact List.forall_mem_nil _
  | item :: rest, h => by
    obtain ⟨hitem, hrest⟩ := List.forall_mem_cons.mp h
    rw [within]
    refine List.forall_mem_cons.mpr ⟨hitem, List.forall_mem_append.mpr ⟨?_, ?_⟩⟩
    · exact hitem.inside
    · exact faithful_within rest hrest

end

/-- The body of an embed is made of faithful items. -/
theorem Faithful.embedBody {item : Item} (h : item.Faithful source tokens) :
    ∀ inner ∈ item.embedBody, inner.Faithful source tokens := by
  obtain ⟨-, -, hbody, -, -, -⟩ := h
  cases item with
  | embed place target clauses body => exact hbody
  | _ => exact List.forall_mem_nil _

/-- What breaks a rule is the place of an item. -/
theorem sound_of_violation {items : List Item} (h : ∀ item ∈ items, item.Faithful source tokens) :
    ∀ violation ∈ violations items, violation.1.Sound source tokens := by
  have hreported (message : String) {found : List Item}
      (hfound : ∀ item ∈ found, item.Faithful source tokens) :
      ∀ violation ∈ reported message found, violation.1.Sound source tokens := by
    refine List.forall_mem_map.mpr fun item hitem => ?_
    obtain ⟨hsound⟩ := hfound item hitem
    exact hsound
  have hforbidden {body : List Item} (hbody : ∀ item ∈ body, item.Faithful source tokens) :
      ∀ item ∈ forbidden body, item.Faithful source tokens :=
    fun item hitem => hbody item (List.mem_of_mem_filter hitem)
  refine List.forall_mem_append.mpr ⟨List.forall_mem_append.mpr ⟨?surplus, ?nested⟩, ?outside⟩
  case surplus =>
    refine hreported _ fun item hitem => h item ?_
    exact List.mem_of_mem_filter (List.mem_of_mem_drop hitem)
  case nested =>
    refine hreported _ fun item hitem => ?_
    obtain ⟨outer, houter, hinner⟩ := List.mem_flatMap.mp (List.mem_of_mem_filter hitem)
    exact (h outer houter).inside item hinner
  case outside =>
    refine hreported _ (List.forall_mem_append.mpr ⟨fun item hitem => ?_, fun item hitem => ?_⟩)
    · obtain ⟨outer, houter, hinner⟩ := List.mem_flatMap.mp hitem
      exact hforbidden (faithful_within items h outer houter).embedBody item hinner
    · rw [beside] at hitem
      split at hitem
      · exact hforbidden h item hitem
      · cases hitem

end Item

namespace Tree

/-- The faults of items that make no tree are at some of them. -/
theorem ofItems_blames {name : String} {items : List Item} {faults : List Syntax.Fault}
    (hitems : ∀ item ∈ items, item.Faithful source tokens)
    (h : Tree.ofItems name items = .error faults) :
    faults ≠ [] ∧ ∀ fault ∈ faults, fault.span.Sound source tokens := by
  have hreported := Item.checked_reported name items
  rw [ofItems_checked] at h
  split at h
  · cases h
  next hfaults =>
    cases h
    refine ⟨fun hnil => hfaults (List.isEmpty_iff.mpr hnil), fun fault hfault => ?_⟩
    refine Item.sound_of_violation hitems (fault.span, fault.message) ?_
    exact hreported.mem_iff.mp (List.mem_map_of_mem hfault)

/-- A source that is rejected is rejected for some fault, and all of its faults can be shown in
    it. -/
theorem parse_rejections {name : String} {faults : List Syntax.Fault}
    (h : Tree.parse name source = .error faults) :
    faults ≠ [] ∧ ∀ fault ∈ faults, fault.span.Shown source := by
  rw [Tree.parse] at h
  split at h
  next items hitems =>
    obtain ⟨ls, stop, hls, hstand⟩ := Syntax.parseItems_faithful hitems
    obtain ⟨hsome, hsound⟩ := ofItems_blames hstand.faithful h
    have hshown := Syntax.shown_of_lexemes hls
    exact ⟨hsome, fun fault hfault => (hsound fault hfault).shown hshown⟩
  next fault hfault =>
    cases h
    refine ⟨List.cons_ne_nil _ _, List.forall_mem_singleton.mpr ?_⟩
    exact Syntax.parseItems_blames hfault

/-- In `é{{ $ }}` the fault is the sixth byte, after a character of two. -/
theorem parse_rejections_accented :
    Tree.parse "page" "é\x7b\x7b $ \x7d\x7d".toList =
        .error [⟨⟨5, 6⟩, .unexpectedText "$", []⟩] ∧
      (⟨5, 6⟩ : Span).Shown "é\x7b\x7b $ \x7d\x7d".toList := by
  have hlexer : Syntax.lexemes "é\x7b\x7b $ \x7d\x7d".toList =
      .error ⟨⟨5, 6⟩, .unexpectedText "$", []⟩ := by decide +kernel
  have hparse : Tree.parse "page" "é\x7b\x7b $ \x7d\x7d".toList =
      .error [⟨⟨5, 6⟩, .unexpectedText "$", []⟩] := by
    rw [Tree.parse, Syntax.parseItems, hlexer]
    rfl
  exact ⟨hparse, (parse_rejections hparse).2 _ List.mem_cons_self⟩

end Tree

end Stencil
