import Stencil.Proofs.Refusals
import Stencil.Proofs.Rounds
import Stencil.Proofs.Sessions

/-!
# An extension that is registered more than once

Functions are known by their names, so a chain whose functions are added again changes nothing.
Passes are not told apart: the routing pass of a chain that is added again comes after the earlier
ones of its priority, and routes what they have routed. The includes of an environment go over the
chain in as many rounds as there are routing passes.

The invariant is about two environments with the same registrations, the second of which has a pass
that changes nothing in the place of every routing pass. What follows the first routing pass must
not tell trees apart by what was routed.

Results:
* `Pass.Indifferent.changing`: passes that do not tell such trees apart.
* `Later.insert`, `Environment.Alike.register`: adding passes and other registrations.
* `Later.follows`, `Environment.Alike.repeats`: what the passes make of a tree.
* `Environment.serve_rounds`: renderings in rounds.
* `Environment.serve_not_once`: two rounds are not one.
-/

namespace Stencil

open Override Node

/-! ## Routing once more -/

namespace Override

/-- A node as it is, unless it cannot be routed. -/
def checkNode (node : Node) : Except MissingPart Node := (routeNode node).map fun _ => node

/-- A pass that refuses what the routing pass refuses, and changes nothing. -/
def checking : Pass Id := .changing routingPriority (fun tree => .ok tree) checkNode

theorem checkNode_changes : Pass.Changes checkNode id where
  ok node node' h := by
    unfold checkNode at h
    cases hroute : routeNode node with
    | error fault =>
      rw [hroute] at h
      cases h
    | ok routed =>
      rw [hroute] at h
      cases h
      rfl
  text span content := ⟨_, rfl⟩
  block span name body := ⟨_, rfl⟩

theorem firstRefusal?_check (nodes : List Node) :
    Pass.firstRefusal? checkNode nodes = Pass.firstRefusal? routeNode nodes := by
  have hrefusal : Pass.refusal? checkNode = Pass.refusal? routeNode := by
    funext node
    simp only [Pass.refusal?, checkNode]
    cases routeNode node <;> rfl
  rw [Pass.firstRefusal?, hrefusal, Pass.firstRefusal?]

theorem refusal?_embedded_eq_none {span : Span} {filename : String} {index : Nat}
    {clauses : Clauses} :
    Pass.refusal? routeNode (.«include» span (.embedded filename index) clauses) = none ↔
      filename ≠ "" := by
  simp [refusal?_embedded]

end Override

/-- Routing both trees once more. -/
theorem respects_routing (count : Nat) :
    Tree.Respects (routings count) (routings (count + 1)) routeTree id routedNode id where
  nodes h := by
    induction h with
    | nil => exact .nil
    | text _ ih => exact .text ih
    | print he _ ih => exact .print he ih
    | block _ _ ihBody ih => exact .block ihBody ih
    | @«include» span span' target target' clauses clauses' rest rest' hinclude _ ih =>
      obtain ⟨rfl, hinclude⟩ := hinclude
      cases hinclude with
      | named target => exact .«include» ⟨rfl, .named target _⟩ ih
      | embedded hfilename index =>
        rw [Node.changeAll, Node.change_include, routedNode_embedded _ hfilename]
        exact .«include» ⟨rfl, .embedded hfilename index _⟩ ih
  tree {name parent parent' body body' embedded embedded' index} hparent hbody hembedded := by
    refine .intro ?_ hbody hembedded
    cases hparent with
    | none => exact .none
    | some he => exact .some (congrArg routedParent he)

theorem Tree.Corresponds.routed {count : Nat} {routed plain : Tree}
    (h : routed.Corresponds (routings count) plain) :
    routed.routed.Corresponds (routings (count + 1)) plain := by
  have hchange := Tree.Corresponds.change (respects_routing count) routed h
  rwa [Tree.change_id] at hchange

/-- What was routed can be routed again. -/
theorem refusal?_of_corresponds {count : Nat} {routed plain : Node}
    (h : Node.Corresponds (routings count) [routed] [plain]) :
    Pass.refusal? routeNode routed = none ∧ Pass.refusal? routeNode plain = none := by
  cases h with
  | text => exact ⟨rfl, rfl⟩
  | print => exact ⟨rfl, rfl⟩
  | block => exact ⟨rfl, rfl⟩
  | «include» hinclude =>
    cases hinclude.2 with
    | named => exact ⟨rfl, rfl⟩
    | embedded hfilename =>
      exact ⟨refusal?_embedded_eq_none.2 hfilename, refusal?_embedded_eq_none.2 hfilename⟩

theorem Tree.Corresponds.unrefused {count : Nat} {routed plain : Tree}
    (h : routed.Corresponds (routings count) plain) :
    Pass.firstRefusal? routeNode routed.tags = none ∧
      Pass.firstRefusal? routeNode plain.tags = none := by
  have htags := Tree.Corresponds.tags routed h
  generalize routed.tags = tags at htags
  generalize plain.tags = tags' at htags
  induction htags with
  | nil => exact ⟨rfl, rfl⟩
  | cons htag _ ih =>
    obtain ⟨hrouted, hplain⟩ := refusal?_of_corresponds htag
    simpa only [Pass.firstRefusal?, List.findSome?, hrouted, hplain] using ih

/-- A tree that was routed some times, and the tree that it was made from. -/
def Tree.RoutedFrom : Nat → Tree → Tree → Prop
  | 0, routed, plain => routed = plain
  | count + 1, routed, plain => routed.Corresponds (routings (count + 1)) plain

theorem Tree.corresponds_of_unrefused {tree : Tree}
    (h : Pass.firstRefusal? routeNode tree.tags = none) :
    tree.Corresponds (routings 0) tree := by
  refine .self (fun _ => rfl) (fun _ => rfl) tree fun span target clauses htag => ⟨rfl, ?_⟩
  cases target with
  | named target => exact .named target clauses
  | embedded filename index =>
    have hnone := List.findSome?_eq_none_iff.1 h _ htag
    exact .embedded (refusal?_embedded_eq_none.1 hnone) index clauses

/-! ## Passes -/

/-- A pass that does not tell trees apart by how often they were routed, if they were at all. -/
def Pass.Indifferent (p : Pass Id) : Prop :=
  ∀ (count : Nat) (routed plain : Tree), routed.Corresponds (routings (count + 1)) plain →
    Follows (fun _ => False) (Eq (α := Unit)) (Tree.Corresponds (routings (count + 1)))
      (Engine.runPasses [p] routed) (Engine.runPasses [p] plain)

/-- A pass that refuses nothing and changes both trees alike. -/
theorem Pass.Indifferent.changing (priority : Int) {f : Tree → Tree} {g : Node → Node}
    (h : ∀ count, Tree.Respects (routings count) (routings count) f f g g) :
    (Pass.changing priority (fun tree => .ok (f tree)) fun node => .ok (g node) :
      Pass Id).Indifferent := by
  intro count routed plain htree
  have hchanges : Pass.Changes (fun node => .ok (g node)) g :=
    ⟨fun _ _ h => by cases h; rfl, fun _ _ => ⟨_, rfl⟩, fun _ _ _ => ⟨_, rfl⟩⟩
  have hnone : ∀ tags, Pass.firstRefusal? (fun node => .ok (g node)) tags = none :=
    fun tags => List.findSome?_eq_none_iff.2 fun _ _ => rfl
  have hrun : ∀ (tree : Tree) (s : Unit), outcome (Engine.runPasses
      [(Pass.changing priority (fun tree => .ok (f tree)) fun node => .ok (g node) : Pass Id)]
      tree) s = some (.ok (tree.change f g), s) := by
    intro tree s
    have hleaves : Pass.Leaves (τ := Unit) ((Pass.changing priority (fun tree => .ok (f tree))
        fun node => .ok (g node) : Pass Id).onTree tree) (tree.change f g) _ :=
      Pass.leaves_onTree hchanges tree
    rw [hnone] at hleaves
    exact Engine.outcome_runPasses_leaves hleaves [] s
  exact .of_outcome fun s t hst => ⟨_, _, s, t, hrun routed s, hrun plain t, hst,
    .ok (htree.change (h _))⟩

/-- A pass of one list and the pass in its place in the other one, and by how much more they route a
    tree. -/
inductive Beside : Nat → Pass Id → Pass Id → Prop
  | routing : Beside 1 routing checking
  | other {p : Pass Id} : routingPriority ≤ p.priority → p.Indifferent → Beside 0 p p

/-- Passes from the first routing pass on, and those in their places. -/
inductive Later : Nat → List (Pass Id) → List (Pass Id) → Prop
  | nil : Later 0 [] []
  | cons {more count : Nat} {p p' : Pass Id} {hooked plain : List (Pass Id)} :
      Beside more p p' → Later count hooked plain →
      Later (more + count) (p :: hooked) (p' :: plain)

theorem Beside.priority {more : Nat} {p p' : Pass Id} (h : Beside more p p') :
    p.priority = p'.priority ∧ routingPriority ≤ p.priority := by
  cases h with
  | routing => exact ⟨rfl, Int.le_refl _⟩
  | other h => exact ⟨rfl, h⟩

namespace Later

variable {count more : Nat} {hooked plain : List (Pass Id)}

theorem priority (h : Later count hooked plain) :
    (∀ p ∈ hooked, routingPriority ≤ p.priority) ∧ ∀ p ∈ plain, routingPriority ≤ p.priority := by
  induction h with
  | nil => exact ⟨nofun, nofun⟩
  | cons hp _ ih =>
    obtain ⟨heq, hpriority⟩ := hp.priority
    exact ⟨List.forall_mem_cons.2 ⟨hpriority, ih.1⟩,
      List.forall_mem_cons.2 ⟨heq ▸ hpriority, ih.2⟩⟩

/-- A new pass goes to the same place in both lists. -/
theorem insert {p p' : Pass Id} (hp : Beside more p p') (h : Later count hooked plain) :
    Later (more + count) (insertPass p hooked) (insertPass p' plain) := by
  induction h with
  | nil => exact .cons hp .nil
  | @cons more' count q q' hooked plain hq hrest ih =>
    simp only [insertPass, ← hq.priority.1, ← hp.priority.1]
    split
    · rw [Nat.add_left_comm]
      exact .cons hq ih
    · exact .cons hp (.cons hq hrest)

end Later

namespace Engine

variable {count : Nat} {routed plain : Tree}

theorem outcome_routing (rest : List (Pass Id)) (tree : Tree) :
    outcome (τ := Unit) (runPasses (routing :: rest) tree) =
      outcome (ExceptT.mk (pure (Pass.conclude (Pass.firstRefusal? routeNode tree.tags)
        tree.routed)) >>= runPasses rest) :=
  funext fun s => outcome_runPasses_leaves (Pass.leaves_onTree routeNode_changes tree) rest s

theorem outcome_checking (rest : List (Pass Id)) (tree : Tree) :
    outcome (τ := Unit) (runPasses (checking :: rest) tree) =
      outcome (ExceptT.mk (pure (Pass.conclude (Pass.firstRefusal? routeNode tree.tags)
        tree)) >>= runPasses rest) := by
  funext s
  have hleaves : Pass.Leaves (τ := Unit) (checking.onTree tree) (tree.change id id) _ :=
    Pass.leaves_onTree checkNode_changes tree
  rw [Tree.change_id, firstRefusal?_check] at hleaves
  exact outcome_runPasses_leaves hleaves rest s

/-- Routing a tree once more, or refusing it. -/
theorem routed_follows (h : Tree.RoutedFrom count routed plain) :
    Follows (fun _ => False) (Eq (α := Unit)) (Tree.RoutedFrom (count + 1))
      (ExceptT.mk (pure (Pass.conclude (Pass.firstRefusal? routeNode routed.tags) routed.routed)) :
        ExceptT MissingPart Id Tree)
      (ExceptT.mk (pure (Pass.conclude (Pass.firstRefusal? routeNode plain.tags) plain)) :
        ExceptT MissingPart Id Tree) := by
  cases count with
  | zero =>
    obtain rfl : routed = plain := h
    cases hfault : Pass.firstRefusal? routeNode routed.tags with
    | some fault => exact .throw fault
    | none => exact .pure (Tree.corresponds_of_unrefused hfault).routed
  | succ count =>
    obtain ⟨hrouted, hplain⟩ := Tree.Corresponds.unrefused h
    rw [hrouted, hplain]
    exact .pure (Tree.Corresponds.routed h)

/-- A pass that stands in its own place. -/
theorem other_follows {p : Pass Id} (hp : p.Indifferent)
    (h : Tree.RoutedFrom count routed plain) :
    Follows (fun _ => False) (Eq (α := Unit)) (Tree.RoutedFrom count) (runPasses [p] routed)
      (runPasses [p] plain) := by
  cases count with
  | zero =>
    obtain rfl : routed = plain := h
    exact .same _
  | succ count => exact hp count routed plain h

end Engine

/-- Every routing pass routes the tree once more. -/
theorem Later.follows {more : Nat} {hooked plain : List (Pass Id)} (h : Later more hooked plain)
    {count : Nat} {routed tree : Tree} (htree : Tree.RoutedFrom count routed tree) :
    Follows (fun _ => False) (Eq (α := Unit)) (Tree.RoutedFrom (count + more))
      (Engine.runPasses hooked routed) (Engine.runPasses plain tree) := by
  induction h generalizing count routed tree with
  | nil => exact .pure htree
  | cons hp _ ih =>
    cases hp with
    | routing =>
      rw [← Nat.add_assoc]
      exact .congr ((Engine.routed_follows htree).bind fun _ _ => ih)
        (Engine.outcome_routing ..) (Engine.outcome_checking ..)
    | other _ hp =>
      rw [Nat.zero_add]
      exact .congr ((Engine.other_follows hp htree).bind fun _ _ => ih)
        (Engine.outcome_runPasses_append [_] ..) (Engine.outcome_runPasses_append [_] ..)

/-- Passes that come before the first routing pass, and then those from there on. -/
inductive Repeated (count : Nat) : List (Pass Id) → List (Pass Id) → Prop
  | intro {before hooked plain : List (Pass Id)} :
      (∀ p ∈ before, p.priority < routingPriority) → Later count hooked plain →
      Repeated count (before ++ hooked) (before ++ plain)

/-- A pass that comes before the routing passes, or does not tell apart what they have routed. -/
def Pass.Apart (p : Pass Id) : Prop := p.priority < routingPriority ∨ p.Indifferent

namespace Repeated

variable {count : Nat} {hooked plain : List (Pass Id)}

theorem insert_beside {more : Nat} {p p' : Pass Id} (hp : Beside more p p')
    (h : Repeated count hooked plain) :
    Repeated (more + count) (insertPass p hooked) (insertPass p' plain) := by
  obtain ⟨hbefore, hlater⟩ := h
  obtain ⟨heq, hpriority⟩ := hp.priority
  rw [insertPass_append_high fun q hq => Int.le_trans (Int.le_of_lt (hbefore q hq)) hpriority,
    insertPass_append_high fun q hq => Int.le_trans (Int.le_of_lt (hbefore q hq)) (heq ▸ hpriority)]
  exact .intro hbefore (hlater.insert hp)

theorem insert_apart {p : Pass Id} (hp : p.Apart) (h : Repeated count hooked plain) :
    Repeated count (insertPass p hooked) (insertPass p plain) := by
  by_cases hlow : p.priority < routingPriority
  · obtain ⟨hbefore, hlater⟩ := h
    rw [insertPass_append_low fun q hq => Int.lt_of_lt_of_le hlow (hlater.priority.1 q hq),
      insertPass_append_low fun q hq => Int.lt_of_lt_of_le hlow (hlater.priority.2 q hq)]
    refine .intro (fun q hq => ?_) hlater
    obtain rfl | hq := (mem_insertPass ..).1 hq
    · exact hlow
    · exact hbefore q hq
  · have hbeside : Beside 0 p p := .other (Int.not_lt.1 hlow) (hp.resolve_left hlow)
    rw [← Nat.zero_add count]
    exact h.insert_beside hbeside

theorem follows (h : Repeated count hooked plain) (tree : Tree) :
    Follows (fun _ => False) (Eq (α := Unit)) (Tree.RoutedFrom count)
      (Engine.runPasses hooked tree) (Engine.runPasses plain tree) := by
  obtain ⟨-, hlater⟩ := h
  refine .congr (Follows.bind (.same _) ?_) (Engine.outcome_runPasses_append ..)
    (Engine.outcome_runPasses_append ..)
  rintro tree _ rfl
  have htree : Tree.RoutedFrom 0 tree tree := rfl
  have hfollows := hlater.follows htree
  rwa [Nat.zero_add] at hfollows

end Repeated

/-! ## Registrations -/

/-- The functions of the extension of a chain, with a pass that routes nothing. -/
def Override.checks (c : Chain Id) : Extension Id where
  functions := (extension c).functions
  passes := [checking]

/-- A registration: the extension of a chain, in part or as a whole, or another one. All chains have
    the same pass, so the extension of another chain counts as its functions and then the pass. -/
inductive Setup where
  | functions
  | passes
  | whole
  | other (registration : Registration Id)

namespace Setup

/-- The registration, with an extension in the place of that of the chain. -/
def registration (extension : Extension Id) : Setup → Registration Id
  | functions => .addFunctions extension
  | passes => .addPasses extension
  | whole => .install extension
  | other registration => registration

/-- How many rounds a registration adds. -/
def rounds : Setup → Nat
  | functions => 0
  | passes => 1
  | whole => 1
  | other _ => 0

/-- How many rounds some registrations add. -/
def allRounds : List Setup → Nat
  | [] => 0
  | setup :: rest => setup.rounds + allRounds rest

/-- Whether the passes of another registration keep apart from routing. -/
def Apart : Setup → Prop
  | other registration => ∀ p ∈ registration.passes, p.Apart
  | _ => True

end Setup

namespace Environment

/-- Two environments that nothing was asked of, the first of which routes some times what the second
    one checks. -/
structure Alike (count : Nat) (hooked plain : Environment Id) : Prop where
  loader : hooked.engine.loader = plain.engine.loader
  settings : hooked.engine.settings = plain.engine.settings
  functions : hooked.engine.functions = plain.engine.functions
  patience : hooked.engine.patience = plain.engine.patience
  passes : Repeated count hooked.engine.passes plain.engine.passes
  cache : hooked.cache = [] ∧ plain.cache = []

namespace Alike

variable {count : Nat} {hooked plain : Environment Id}

theorem ofLoader (store : Loader Id) (patience : Nat) :
    Alike 0 (ofLoader store patience) (ofLoader store patience) where
  loader := rfl
  settings := rfl
  functions := rfl
  patience := rfl
  passes := by
    have hbefore : ∀ p ∈ [(textMerge : Pass Id)], p.priority < routingPriority := by
      intro p hp
      obtain rfl := List.mem_singleton.1 hp
      exact Int.lt_succ _
    exact .intro hbefore .nil
  cache := ⟨rfl, rfl⟩

theorem configure (h : Alike count hooked plain) (settings : Settings) :
    Alike count (hooked.configure settings) (plain.configure settings) :=
  { h with settings := rfl, cache := ⟨rfl, rfl⟩ }

theorem addFunction (h : Alike count hooked plain) (name : String) (function : Function Id) :
    Alike count (hooked.addFunction name function) (plain.addFunction name function) :=
  { h with functions := congrArg (Dict.insert · name function) h.functions }

/-- Extensions with the same functions. -/
theorem addFunctions (h : Alike count hooked plain) {extension extension' : Extension Id}
    (hfunctions : extension.functions = extension'.functions) :
    Alike count (hooked.addFunctions extension) (plain.addFunctions extension') := by
  unfold Environment.addFunctions
  rw [← hfunctions]
  generalize extension.functions = functions
  induction functions generalizing hooked plain with
  | nil => exact h
  | cons f rest ih => exact ih (h.addFunction f.1 f.2)

theorem addBeside (h : Alike count hooked plain) {more : Nat} {p p' : Pass Id}
    (hp : Beside more p p') : Alike (more + count) (hooked.addPass p) (plain.addPass p') :=
  { h with passes := h.passes.insert_beside hp, cache := ⟨rfl, rfl⟩ }

theorem addApart (h : Alike count hooked plain) {p : Pass Id} (hp : p.Apart) :
    Alike count (hooked.addPass p) (plain.addPass p) :=
  { h with passes := h.passes.insert_apart hp, cache := ⟨rfl, rfl⟩ }

theorem addPasses (h : Alike count hooked plain) {extension : Extension Id}
    (hpasses : ∀ p ∈ extension.passes, p.Apart) :
    Alike count (hooked.addPasses extension) (plain.addPasses extension) := by
  unfold Environment.addPasses
  revert hpasses
  generalize extension.passes = passes
  intro hpasses
  induction passes generalizing hooked plain with
  | nil => exact h
  | cons p rest ih =>
    obtain ⟨hp, hrest⟩ := List.forall_mem_cons.1 hpasses
    exact ih (h.addApart hp) hrest

/-- What the other registrations do is the same in both environments. -/
theorem register_other (h : Alike count hooked plain) {registration : Registration Id}
    (hpasses : ∀ p ∈ registration.passes, p.Apart) :
    Alike count (hooked.register registration) (plain.register registration) := by
  cases registration with
  | configure settings => exact h.configure settings
  | addFunction name function => exact h.addFunction name function
  | addPass pass => exact h.addApart (hpasses pass List.mem_cons_self)
  | addFunctions extension => exact h.addFunctions rfl
  | addPasses extension => exact h.addPasses hpasses
  | install extension => exact (h.addFunctions rfl).addPasses hpasses

/-- A registration of the routing pass adds a round; no other one does. -/
theorem register (h : Alike count hooked plain) (c : Chain Id) {setup : Setup}
    (hsetup : setup.Apart) :
    Alike (setup.rounds + count) (hooked.register (setup.registration (extension c)))
      (plain.register (setup.registration (checks c))) := by
  cases setup with
  | functions =>
    rw [Setup.rounds, Nat.zero_add]
    exact h.addFunctions rfl
  | passes => exact h.addBeside .routing
  | whole =>
    have hfunctions : Alike count (hooked.addFunctions (extension c))
        (plain.addFunctions (checks c)) := h.addFunctions rfl
    exact hfunctions.addBeside .routing
  | other registration =>
    rw [Setup.rounds, Nat.zero_add]
    exact h.register_other hsetup

theorem registerAll (h : Alike count hooked plain) (c : Chain Id) {setups : List Setup}
    (hsetups : ∀ setup ∈ setups, setup.Apart) :
    Alike (Setup.allRounds setups + count)
      (hooked.registerAll (setups.map (Setup.registration (extension c))))
      (plain.registerAll (setups.map (Setup.registration (checks c)))) := by
  induction setups generalizing count hooked plain with
  | nil =>
    rw [List.map_nil, List.map_nil, Setup.allRounds, Nat.zero_add]
    exact h
  | cons setup rest ih =>
    obtain ⟨hsetup, hrest⟩ := List.forall_mem_cons.1 hsetups
    rw [List.map_cons, List.map_cons, Setup.allRounds, Nat.add_comm setup.rounds, Nat.add_assoc]
    exact ih (h.register c hsetup) hrest

theorem repeats {earlier : Nat} (h : Alike (earlier + 1) hooked plain) {c : Chain Id}
    (hhooks : ∀ hook : Hook,
      Dict.get? hooked.engine.functions hook.name = some (c.function hook)) :
    hooked.engine.Repeats plain.engine c (earlier + 1) where
  settings := h.settings
  functions := h.functions
  loader := h.loader
  patience := h.patience
  hooks := by
    rw [← h.functions]
    exact hhooks
  compile name source := by
    unfold Engine.compile
    cases Tree.parse name source.toList with
    | error faults => exact .throw _
    | ok tree =>
      refine ((h.passes.follows tree).mapError _).bind fun routed plain htree => ?_
      exact .pure htree

end Alike

end Environment

/-! ## Requests -/

/-- What can be rendered: a template by its name, or a source apart from the templates that are
    kept. -/
inductive Request where
  | named (name : String) (context : Context)
  | source (name source : String) (context : Context)

section Answers

variable (serve : Request → Rendering (StateT Cache Id) String)

/-- The answers to some requests, one after the other. -/
def answers : List Request → StateT Cache Id (List (Except Failure String))
  | [] => pure []
  | request :: rest => do
    let answer ← (serve request).run
    let others ← answers rest
    pure (answer :: others)

/-- The answer to a request, and what is kept after it. -/
def answered (request : Request) (kept : Cache) : Except Failure String × Cache :=
  (serve request).run.run kept

theorem answers_cons (request : Request) (rest : List Request) (kept : Cache) :
    ((answers serve (request :: rest)).run kept).1 =
      (answered serve request kept).1 ::
        ((answers serve rest).run (answered serve request kept).2).1 := rfl

end Answers

theorem answers_eq {R : Template → Template → Prop}
    {serve serve' : Request → Rendering (StateT Cache Id) String}
    (h : ∀ request, Follows (fun _ => False) (Keeping R (Eq (α := Unit))) Eq (serve request)
      (serve' request)) (requests : List Request) {kept kept' : Cache}
    (hkept : Dict.Related R kept kept') :
    ((answers serve requests).run kept).1 = ((answers serve' requests).run kept').1 := by
  induction requests generalizing kept kept' with
  | nil => rfl
  | cons request rest ih =>
    have hstates : Keeping R (Eq (α := Unit)) (kept, ()) (kept', ()) := ⟨hkept, rfl⟩
    have hserve : outcome (serve request) (kept, ()) =
        some ((answered serve request kept).1, (answered serve request kept).2, ()) := rfl
    obtain ⟨⟨kept₂, _⟩, hserve', hnext, -⟩ := (h request).eq hstates hserve
    have hanswered : answered serve' request kept' = ((answered serve request kept).1, kept₂) := by
      have htriple : ((answered serve' request kept').1, (answered serve' request kept').2, ()) =
          ((answered serve request kept).1, kept₂, ()) := Option.some.inj hserve'
      cases hanswer : answered serve' request kept'
      rw [hanswer] at htriple
      cases htriple
      rfl
    rw [answers_cons, answers_cons, hanswered]
    exact congrArg _ (ih hnext)

namespace Engine

/-- The answer to a request. -/
def serve (e : Engine Id) : Request → Rendering (StateT Cache Id) String
  | .named name context => .ofAction (e.render name context)
  | .source name source context => e.renderSource name source context

/-- The answer to a request, in one round over a chain after some earlier ones. -/
def serveInRounds (e : Engine Id) (c : Chain Id) (earlier : Nat) :
    Request → Rendering (StateT Cache Id) String
  | .named name context => do
    let template ← .ofAction (e.load name)
    (e.inRounds c earlier).render e.patience template.tree context
  | .source name source context => do
    let template ← Rendering.ofAction (StateT.lift (e.compile name source).run)
    (e.inRounds c earlier).render e.patience template.tree context

theorem Repeats.serve_follows {hooked plain : Engine Id} {c : Chain Id} {earlier : Nat}
    (h : Repeats hooked plain c (earlier + 1)) (request : Request) :
    Follows (fun _ => False) (Keeping (RoutedTimes (earlier + 1)) (Eq (α := Unit))) Eq
      (hooked.serve request) (plain.serveInRounds c earlier request) := by
  have hrender : ∀ (context : Context) (routed template : Template),
      RoutedTimes (earlier + 1) routed template →
        Follows (fun _ => False) (Keeping (RoutedTimes (earlier + 1)) (Eq (α := Unit))) Eq
          (.ofAction (hooked.renderTemplate routed context) : Rendering (StateT Cache Id) String)
          ((plain.inRounds c earlier).render plain.patience template.tree context) := by
    intro context _ _ htree
    unfold Engine.renderTemplate
    rw [h.patience]
    exact (h.corresponds.render plain.patience htree context).follows
  cases request with
  | named name context => exact (keep_follows h.loadFresh name).bind (hrender context)
  | source name source context =>
    exact (lift_follows (h.compile name source)).bind (hrender context)

end Engine

namespace Environment

/-- The answers of an environment. -/
def serveAll (env : Environment Id) (requests : List Request) : List (Except Failure String) :=
  (env.act (answers env.engine.serve requests)).1

/-- The answers of an environment, in one round over a chain after some earlier ones. -/
def serveAllInRounds (env : Environment Id) (c : Chain Id) (earlier : Nat)
    (requests : List Request) : List (Except Failure String) :=
  (env.act (answers (env.engine.serveInRounds c earlier) requests)).1

/-- An environment of which the extension of a chain was registered some times, in part or as a
    whole, goes over the chain in as many rounds as its passes were. So it is with any patience. -/
theorem serve_rounds (store : Loader Id) (patience : Nat) (c : Chain Id) {setups : List Setup}
    (hsetups : ∀ setup ∈ setups, setup.Apart) {earlier : Nat}
    (hrounds : Setup.allRounds setups = earlier + 1)
    (hhooks : ∀ hook : Hook, Dict.get? ((ofLoader store patience).registerAll
      (setups.map (Setup.registration (extension c)))).engine.functions hook.name =
        some (c.function hook)) (requests : List Request) :
    ((ofLoader store patience).registerAll
        (setups.map (Setup.registration (extension c)))).serveAll requests =
      ((ofLoader store patience).registerAll
        (setups.map (Setup.registration (checks c)))).serveAllInRounds c earlier requests := by
  have halike := (Alike.ofLoader store patience).registerAll c hsetups
  rw [Nat.add_zero, hrounds] at halike
  have hkept : Dict.Related (RoutedTimes (earlier + 1)) [] [] := .nil
  unfold serveAll serveAllInRounds act
  rw [halike.cache.1, halike.cache.2]
  exact answers_eq (halike.repeats hhooks).serve_follows requests hkept

/-- Templates of which one includes the first of three. -/
def steps : Dict String :=
  [("a", "none"), ("b", "once"), ("c", "twice"), ("page", Engine.tag "include 'a'")]

/-- A chain that goes one step further with every round. -/
def stepping : Chain Id := ⟨[.table [("a", "b"), ("b", "c")]]⟩

/-- Another pass that runs after the routing ones. -/
def lateMerge : Pass Id :=
  .changing 300 (fun tree => .ok (mergeTree tree)) fun node => .ok (mergeNode node)

/-- The extension is registered three times, twice with its pass, and another pass in between. -/
def stepped : List Setup :=
  [.functions, .whole, .other (.addPass lateMerge), .other (.configure { strictVariables := true }),
    .whole]

theorem serve_rounds_stepped :
    ((ofLoader (Loader.memory steps)).registerAll
        (stepped.map (Setup.registration (extension stepping)))).serveAll
      [.named "page" [], .source "" (Engine.tag "include ['b', 'a']") [], .named "page" []] =
        [.ok "twice", .ok "twice", .ok "twice"] := by
  have hsetups : ∀ setup ∈ stepped, setup.Apart := by
    have hmerge : lateMerge.Apart := .inr (.changing 300 fun _ => Tree.respects_merge)
    intro setup hsetup
    simp only [stepped, List.mem_cons, List.not_mem_nil, or_false] at hsetup
    obtain rfl | rfl | rfl | rfl | rfl := hsetup
    · trivial
    · trivial
    · intro p hp
      obtain rfl := List.mem_singleton.1 hp
      exact hmerge
    · exact List.forall_mem_nil _
    · trivial
  have hrounds : Setup.allRounds stepped = 1 + 1 := rfl
  rw [serve_rounds (Loader.memory steps) 0 stepping hsetups hrounds
    (fun hook => by cases hook <;> rfl)]
  decide +kernel

/-- An extension that is registered more than once is not always what it is once: every pass over
    the chain goes on from the names of the one before it. -/
theorem serve_not_once :
    ¬ ∀ (store : Loader Id) (c : Chain Id) (more : Nat) (requests : List Request),
      ((ofLoader store).registerAll (List.replicate (more + 1) (.install (extension c)))).serveAll
          requests =
        ((ofLoader store).install (extension c)).serveAll requests := by
  intro h
  have htwice := h (Loader.memory steps) stepping 1 [.named "page" []]
  revert htwice
  decide +kernel

end Environment

end Stencil
