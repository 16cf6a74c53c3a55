import Mathlib.Data.List.Chain
import Stencil.Proofs.Correspondences
import Stencil.Proofs.Pairings

/-!
# Trees in normal form

A body is in normal form if no text in it is empty and no text follows another. The built-in pass
brings every body of a tree into that form, the bodies of blocks and of embedded trees at any depth
included. It changes nothing but runs of texts: of such a run, one text is left, or none if all of
them are empty.

Results:
* `Node.normal_mergeText`, `Node.mergeText_of_normal`: merging a body brings it into normal form, and
  does nothing to one that is.
* `Node.mergeText_run`: what is left of a run of texts.
* `Tree.normal_merged`, `Tree.merged_of_normal`, `Tree.joins_merged`: the same for all of a tree.
* `Tree.textMerge_normalizes`: what the pass does.
-/

namespace Stencil

namespace Node

/-! ## Normal form -/

def IsText : Node → Prop
  | .text .. => True
  | _ => False

/-- No text of a body is empty, and none follows another one. -/
structure Normal (nodes : List Node) : Prop where
  full : ∀ span content, .text span content ∈ nodes → content ≠ ""
  apart : nodes.IsChain fun node next => ¬ (node.IsText ∧ next.IsText)

theorem Normal.nil : Normal [] := ⟨by simp, .nil⟩

theorem Normal.tail {node : Node} {rest : List Node} (h : Normal (node :: rest)) : Normal rest :=
  ⟨fun span content hmem => h.full span content (List.mem_cons_of_mem node hmem), h.apart.tail⟩

/-- A node that is no text can stand before any body. -/
theorem Normal.cons_of_not_text {node : Node} (hnode : ¬ node.IsText) {rest : List Node}
    (h : Normal rest) : Normal (node :: rest) where
  full span content hmem := by
    rcases List.mem_cons.1 hmem with rfl | hmem
    · exact (hnode trivial).elim
    · exact h.full span content hmem
  apart := List.isChain_cons.2 ⟨fun _ _ hboth => hnode hboth.1, h.apart⟩

/-- A text joins the first text of a body in normal form, and is left out if it is empty. -/
theorem Normal.joinText {nodes : List Node} (h : Normal nodes) (span : Span) (content : String) :
    Normal (joinText span content nodes) := by
  unfold Node.joinText
  split
  · exact h
  · next hcontent =>
    have hcontent : content ≠ "" := by simpa using hcontent
    split
    · next next more others =>
      constructor
      · intro place text hmem
        rcases List.mem_cons.1 hmem with heq | hmem
        · cases heq
          exact fun hempty => hcontent (String.append_eq_empty_iff.1 hempty).1
        · exact h.full place text (List.mem_cons_of_mem _ hmem)
      · exact List.isChain_cons.2 (List.isChain_cons.1 h.apart)
    · next others hothers =>
      constructor
      · intro place text hmem
        rcases List.mem_cons.1 hmem with heq | hmem
        · cases heq
          exact hcontent
        · exact h.full place text hmem
      · refine List.isChain_cons.2 ⟨fun next hnext hboth => ?_, h.apart⟩
        cases next with
        | text place more =>
          obtain ⟨rest, hrest⟩ := List.head?_eq_some_iff.1 hnext
          exact hothers place more rest hrest
        | _ => exact hboth.2

theorem normal_mergeText (nodes : List Node) : Normal (mergeText nodes) := by
  induction nodes with
  | nil => exact .nil
  | cons node rest ih =>
    cases node with
    | text span content =>
      rw [mergeText_text]
      exact ih.joinText span content
    | _ => exact .cons_of_not_text id ih

theorem mergeText_of_normal {nodes : List Node} (h : Normal nodes) : mergeText nodes = nodes := by
  induction nodes with
  | nil => rfl
  | cons node rest ih =>
    have hrest : mergeText rest = rest := ih h.tail
    cases node with
    | text place content =>
      have hcontent : ¬ content.isEmpty := by
        simpa using h.full place content List.mem_cons_self
      rw [mergeText_text, hrest]
      unfold joinText
      rw [if_neg hcontent]
      cases rest with
      | nil => rfl
      | cons next others =>
        cases next with
        | text => exact absurd ⟨trivial, trivial⟩ (List.isChain_cons_cons.1 h.apart).1
        | _ => rfl
    | _ => exact congrArg (List.cons _) hrest

/-! ## Runs of texts -/

/-- Texts that follow each other. -/
def texts (run : List (Span × String)) : List Node :=
  run.map fun piece => .text piece.1 piece.2

/-- What is left of texts that follow each other: nothing if all of them are empty, and else one
    text with the contents of all, from the start of the first that is not empty to the end of the
    last that is not. -/
def joined (run : List (Span × String)) : List Node :=
  match run.filter fun piece => piece.2 ≠ "" with
  | [] => []
  | first :: others =>
    [.text (first.1.upTo (others.getLastD first).1) (String.join (run.map (·.2)))]

/-- Texts that are all empty have no contents. -/
theorem join_of_empty {run : List (Span × String)}
    (h : (run.filter fun piece => piece.2 ≠ "") = []) : String.join (run.map (·.2)) = "" := by
  induction run with
  | nil => rfl
  | cons piece rest ih =>
    rw [List.filter_cons] at h
    split at h
    · cases h
    · next hpiece =>
      have hempty : piece.2 = "" := by simpa using hpiece
      rw [List.map_cons, String.join_cons, hempty, ih h]
      rfl

theorem joined_cons (place : Span) (content : String) (run : List (Span × String)) :
    joined ((place, content) :: run) = joinText place content (joined run) := by
  unfold joined joinText
  rw [List.filter_cons, List.map_cons, String.join_cons]
  by_cases hcontent : content = ""
  · subst hcontent
    rw [String.empty_append]
    rfl
  · have hfull : decide (content ≠ "") = true := decide_eq_true hcontent
    have hnot : ¬ content.isEmpty = true := by simpa using hcontent
    rw [if_pos hfull, if_neg hnot]
    cases hrun : run.filter fun piece => piece.2 ≠ "" with
    | nil => rw [join_of_empty hrun, String.append_empty]; rfl
    | cons first others => simp only [List.getLastD_cons, Span.upTo]

/-- A run of texts in front of a body that is merged and does not begin with a text. -/
theorem mergeText_run (run : List (Span × String)) {rest : List Node}
    (h : ∀ node ∈ (mergeText rest).head?, ¬ node.IsText) :
    mergeText (texts run ++ rest) = joined run ++ mergeText rest := by
  induction run with
  | nil => rfl
  | cons piece run ih =>
    obtain ⟨place, content⟩ := piece
    have hcons : texts ((place, content) :: run) ++ rest =
        .text place content :: (texts run ++ rest) := rfl
    rw [hcons, mergeText_text, ih, joined_cons]
    unfold joined joinText
    split
    · rfl
    · cases run.filter fun piece => piece.2 ≠ "" with
      | cons first others => rfl
      | nil =>
        cases hrest : mergeText rest with
        | nil => rfl
        | cons node others =>
          rw [hrest] at h
          cases node with
          | text => exact (h _ rfl trivial).elim
          | _ => rfl

example (first second third : Span) :
    mergeText [.text first "ab", .text second "", .text third "c"] =
      [.text (first.upTo third) "abc"] := rfl

/-- A run of texts ends at a node that is no text. -/
theorem mergeText_run_cons (run : List (Span × String)) {node : Node} (hnode : ¬ node.IsText)
    (rest : List Node) :
    mergeText (texts run ++ node :: rest) = joined run ++ node :: mergeText rest := by
  have hcons : mergeText (node :: rest) = node :: mergeText rest := by
    refine mergeText_of_ne_text ?_ rest
    rintro place content rfl
    exact hnode trivial
  rw [mergeText_run run, hcons]
  rw [hcons]
  rintro first hfirst
  cases hfirst
  exact hnode

/-! ## Bodies of blocks -/

/-- The bodies of all blocks are merged. -/
theorem normal_blocksIn (nodes : List Node) :
    ∀ block ∈ blocksIn (changeAll mergeNode nodes), Normal block.body := by
  induction nodes using body_induction with
  | nil => simp [changeAll]
  | leaf node rest hleaf ih =>
    rw [changeAll, change_mergeNode_leaf hleaf, blocksIn_leaf hleaf]
    exact ih
  | block place name body rest ihBody ihRest =>
    rw [changeAll, change_mergeNode_block, blocksIn_block, blocksIn_mergeText]
    intro block hblock
    rcases List.mem_cons.1 hblock with rfl | hblock
    · exact normal_mergeText _
    · exact (List.mem_append.1 hblock).elim (ihBody block) (ihRest block)

/-- Merging the bodies of blocks changes nothing where they are in normal form. -/
theorem changeAll_of_normal {nodes : List Node}
    (h : ∀ block ∈ blocksIn nodes, Normal block.body) : changeAll mergeNode nodes = nodes := by
  induction nodes using body_induction with
  | nil => rfl
  | leaf node rest hleaf ih =>
    rw [blocksIn_leaf hleaf] at h
    rw [changeAll, change_mergeNode_leaf hleaf, ih h]
  | block place name body rest ihBody ihRest =>
    rw [blocksIn_block] at h
    have hbody : Normal body := h _ List.mem_cons_self
    rw [changeAll, change_mergeNode_block,
      ihBody fun block hblock => h block (List.mem_cons_of_mem _ (List.mem_append_left _ hblock)),
      ihRest fun block hblock => h block (List.mem_cons_of_mem _ (List.mem_append_right _ hblock)),
      mergeText_of_normal hbody]

/-- A body and what is left of it when the texts in it and in its blocks are joined: between the
    other nodes, which are the same, each run of texts is replaced by what is left of it. -/
inductive Joins : List Node → List Node → Prop
  | last (run : List (Span × String)) : Joins (texts run) (joined run)
  | tag (run : List (Span × String)) {node : Node} {rest rest' : List Node} :
      node.IsLeaf → ¬ node.IsText → Joins rest rest' →
      Joins (texts run ++ node :: rest) (joined run ++ node :: rest')
  | block (run : List (Span × String)) {place : Span} {name : String}
      {body body' rest rest' : List Node} : Joins body body' → Joins rest rest' →
      Joins (texts run ++ .block place name body :: rest)
        (joined run ++ .block place name body' :: rest')

/-- The texts in front of a body are all but the last ones of a run. -/
theorem joins_run (run : List (Span × String)) (nodes : List Node) :
    Joins (texts run ++ nodes) (mergeText (texts run ++ changeAll mergeNode nodes)) := by
  induction nodes using body_induction generalizing run with
  | nil =>
    have hend : mergeText (texts run ++ []) = joined run ++ mergeText [] :=
      mergeText_run run nofun
    rw [changeAll, hend, mergeText_nil, List.append_nil, List.append_nil]
    exact .last run
  | leaf node rest hleaf ih =>
    rw [changeAll, change_mergeNode_leaf hleaf]
    by_cases htext : node.IsText
    · cases node with
      | text place content =>
        have hrun : ∀ nodes, texts run ++ .text place content :: nodes =
            texts (run ++ [(place, content)]) ++ nodes := by
          intro nodes
          simp [texts]
        rw [hrun, hrun]
        exact ih (run ++ [(place, content)])
      | _ => exact htext.elim
    · rw [mergeText_run_cons run htext]
      exact .tag run hleaf htext (ih [])
  | block place name body rest ihBody ihRest =>
    rw [changeAll, change_mergeNode_block, mergeText_run_cons run id]
    exact .block run (ihBody []) (ihRest [])

theorem joins_mergeText (nodes : List Node) : Joins nodes (mergeText (changeAll mergeNode nodes)) :=
  joins_run [] nodes

end Node

namespace Tree

open Node

/-! ## Whole trees -/

mutual

/-- All bodies of a tree: its own, those of its blocks, and those of its embedded trees. -/
def bodies : Tree → List (List Node)
  | ⟨_, _, body, embedded, _⟩ => body :: (blocksIn body).map Block.body ++ bodiesInAll embedded

/-- All bodies of some trees. -/
def bodiesInAll : List Tree → List (List Node)
  | [] => []
  | tree :: rest => tree.bodies ++ bodiesInAll rest

end

/-- A tree whose bodies are all in normal form. -/
def Normal (tree : Tree) : Prop := ∀ body ∈ tree.bodies, Node.Normal body

/-- The body of a tree, those of its blocks, and those of its embedded trees. -/
theorem normal_iff (name : String) (parent : Option Expr) (body : List Node)
    (embedded : List Tree) (index : Option Nat) :
    Normal ⟨name, parent, body, embedded, index⟩ ↔
      Node.Normal body ∧ (∀ block ∈ blocksIn body, Node.Normal block.body) ∧
        ∀ inner ∈ bodiesInAll embedded, Node.Normal inner := by
  simp [Normal, bodies, or_imp, forall_and]

theorem normalAll_cons (tree : Tree) (rest : List Tree) :
    (∀ inner ∈ bodiesInAll (tree :: rest), Node.Normal inner) ↔
      tree.Normal ∧ ∀ inner ∈ bodiesInAll rest, Node.Normal inner := by
  simp [Normal, bodiesInAll, or_imp, forall_and]

theorem merged_mk (name : String) (parent : Option Expr) (body : List Node)
    (embedded : List Tree) (index : Option Nat) :
    merged ⟨name, parent, body, embedded, index⟩ =
      ⟨name, parent, mergeText (Node.changeAll mergeNode body),
        changeAll mergeTree mergeNode embedded, index⟩ := rfl

mutual

theorem normal_merged : ∀ tree : Tree, tree.merged.Normal
  | ⟨name, parent, body, embedded, index⟩ => by
    rw [merged_mk, normal_iff, blocksIn_mergeText]
    exact ⟨normal_mergeText _, normal_blocksIn body, normal_mergedAll embedded⟩

theorem normal_mergedAll : ∀ trees : List Tree,
    ∀ body ∈ bodiesInAll (changeAll mergeTree mergeNode trees), Node.Normal body
  | [] => by simp [changeAll, bodiesInAll]
  | tree :: rest => by
    rw [changeAll, normalAll_cons]
    exact ⟨normal_merged tree, normal_mergedAll rest⟩

end

mutual

theorem merged_of_normal : ∀ tree : Tree, tree.Normal → tree.merged = tree
  | ⟨name, parent, body, embedded, index⟩, h => by
    obtain ⟨hbody, hblocks, hembedded⟩ := (normal_iff ..).1 h
    rw [merged_mk, changeAll_of_normal hblocks, mergeText_of_normal hbody,
      mergedAll_of_normal embedded hembedded]

theorem mergedAll_of_normal : ∀ trees : List Tree,
    (∀ body ∈ bodiesInAll trees, Node.Normal body) →
      changeAll mergeTree mergeNode trees = trees
  | [], _ => rfl
  | tree :: rest, h => by
    obtain ⟨htree, hrest⟩ := (normalAll_cons tree rest).1 h
    have hmerged : tree.change mergeTree mergeNode = tree := merged_of_normal tree htree
    rw [changeAll, hmerged, mergedAll_of_normal rest hrest]

end

mutual

/-- A tree and what is left of it when the texts in all its bodies are joined. Only the bodies
    differ. -/
inductive Joins : Tree → Tree → Prop
  | mk {name : String} {parent : Option Expr} {body body' : List Node}
      {embedded embedded' : List Tree} {index : Option Nat} :
      Node.Joins body body' → JoinsAll embedded embedded' →
      Joins ⟨name, parent, body, embedded, index⟩ ⟨name, parent, body', embedded', index⟩

/-- The same for some trees, one by one. -/
inductive JoinsAll : List Tree → List Tree → Prop
  | nil : JoinsAll [] []
  | cons {tree tree' : Tree} {rest rest' : List Tree} :
      Joins tree tree' → JoinsAll rest rest' → JoinsAll (tree :: rest) (tree' :: rest')

end

mutual

theorem joins_merged : ∀ tree : Tree, tree.Joins tree.merged
  | ⟨_, _, body, embedded, _⟩ => .mk (joins_mergeText body) (joinsAll_merged embedded)

theorem joinsAll_merged : ∀ trees : List Tree,
    JoinsAll trees (changeAll mergeTree mergeNode trees)
  | [] => .nil
  | tree :: rest => .cons (joins_merged tree) (joinsAll_merged rest)

end

/-! ## The pass -/

/-- The built-in pass changes any tree, without a fault, into one whose bodies are all in normal
    form and in which nothing but runs of texts has changed, and it leaves that tree as it is. -/
theorem textMerge_normalizes {n : Type → Type} [Monad n] {τ : Type} [Runs n τ] (tree : Tree)
    (s : τ) :
    ∃ tree', run ((textMerge : Pass n).onTree tree) s = some ((tree', none), s) ∧
      tree'.Normal ∧ tree.Joins tree' ∧
      ∀ t : τ, run ((textMerge : Pass n).onTree tree') t = some ((tree', none), t) := by
  have hrun (tree : Tree) (s : τ) :
      run ((textMerge : Pass n).onTree tree) s = some ((tree.merged, none), s) := by
    obtain ⟨tree', fault, hrun, hmerged, hfine⟩ := gives_merged (n := n) tree s
    obtain rfl : fault = none := hfine.2 trivial
    rw [hrun, hmerged rfl]
  have hagain : tree.merged.merged = tree.merged := merged_of_normal _ (normal_merged tree)
  refine ⟨tree.merged, hrun tree s, normal_merged tree, joins_merged tree, fun t => ?_⟩
  rw [hrun, hagain]

end Tree

end Stencil
