import Mathlib.Data.List.Forall2
import Stencil.Dict

/-!
# Dictionaries that belong together

Two dictionaries belong together if they have the same keys with values that belong together.

Results:
* `Dict.Related.get?`, `Dict.Related.contains`: looking up a key.
* `Dict.Related.insert`, `Dict.Related.insertNew`: setting a key in both.
* `Dict.Related.foldl_insertNew`: adding entries one after the other.
-/

namespace Stencil.Dict

variable {α β : Type} {R : α → β → Prop}

/-- The same keys, with related values. -/
def Related (R : α → β → Prop) : Dict α → Dict β → Prop :=
  List.Forall₂ fun p q => p.1 = q.1 ∧ R p.2 q.2

namespace Related

variable {d : Dict α} {d' : Dict β}

theorem nil : Related R ([] : Dict α) ([] : Dict β) := List.Forall₂.nil

theorem length (h : Related R d d') : d.length = d'.length := List.Forall₂.length_eq h

theorem get? (h : Related R d d') (key : String) :
    Option.Rel R (Dict.get? d key) (Dict.get? d' key) := by
  induction h with
  | nil => exact .none
  | @cons p q rest rest' hpq hrest ih =>
    obtain ⟨k, v⟩ := p
    obtain ⟨k', w⟩ := q
    obtain ⟨rfl, hvw⟩ := hpq
    simp only [Dict.get?]
    split
    · exact .some hvw
    · exact ih

/-- What is under a key on one side belongs to what is under it on the other. -/
theorem get?_some (h : Related R d d') {key : String} {a : α} (ha : Dict.get? d key = some a) :
    ∃ b, Dict.get? d' key = some b ∧ R a b := by
  have hrel := h.get? key
  rw [ha] at hrel
  cases hb : Dict.get? d' key with
  | none =>
    rw [hb] at hrel
    cases hrel
  | some b =>
    rw [hb] at hrel
    cases hrel with
    | some hab => exact ⟨b, rfl, hab⟩

theorem get?_none (h : Related R d d') {key : String} (ha : Dict.get? d key = none) :
    Dict.get? d' key = none := by
  have hrel := h.get? key
  rw [ha] at hrel
  cases hb : Dict.get? d' key with
  | none => rfl
  | some b =>
    rw [hb] at hrel
    cases hrel

theorem contains (h : Related R d d') (key : String) :
    Dict.contains d key = Dict.contains d' key := by
  unfold Dict.contains
  cases ha : Dict.get? d key with
  | none =>
    rw [h.get?_none ha]
    rfl
  | some a =>
    obtain ⟨b, hb, -⟩ := h.get?_some ha
    rw [hb]
    rfl

theorem insert (h : Related R d d') (key : String) {a : α} {b : β} (hab : R a b) :
    Related R (Dict.insert d key a) (Dict.insert d' key b) := by
  induction h with
  | nil => exact .cons ⟨rfl, hab⟩ .nil
  | @cons p q rest rest' hpq hrest ih =>
    obtain ⟨k, v⟩ := p
    obtain ⟨k', w⟩ := q
    obtain ⟨rfl, hvw⟩ := hpq
    simp only [Dict.insert]
    split_ifs
    · exact .cons ⟨rfl, hab⟩ hrest
    · exact .cons ⟨rfl, hab⟩ (.cons ⟨rfl, hvw⟩ hrest)
    · exact .cons ⟨rfl, hvw⟩ ih

theorem insertNew (h : Related R d d') (key : String) {a : α} {b : β} (hab : R a b) :
    Related R (Dict.insertNew d key a) (Dict.insertNew d' key b) := by
  unfold Dict.insertNew
  rw [h.contains key]
  split
  · exact h
  · exact h.insert key hab

/-- Entries that belong together are added one after the other. -/
theorem foldl_insertNew (h : Related R d d') {γ δ : Type} {key : γ → String} {value : γ → α}
    {key' : δ → String} {value' : δ → β} {entries : List γ} {entries' : List δ}
    (hentries : List.Forall₂ (fun p q => key p = key' q ∧ R (value p) (value' q))
      entries entries') :
    Related R (entries.foldl (fun d p => Dict.insertNew d (key p) (value p)) d)
      (entries'.foldl (fun d q => Dict.insertNew d (key' q) (value' q)) d') := by
  refine List.rel_foldl (P := Related R) (fun _ _ hd p q hpq => ?_) h hentries
  rw [hpq.1]
  exact hd.insertNew (key' q) hpq.2

theorem of_all {P : α → Prop} {d : Dict α} (h : ∀ p ∈ d, P p.2) :
    Related (fun a b => a = b ∧ P a) d d :=
  List.forall₂_same.2 fun p hp => ⟨rfl, rfl, h p hp⟩

/-- Dictionaries with equal values are equal. -/
theorem eq {P : α → Prop} {d d' : Dict α} (h : Related (fun a b => a = b ∧ P a) d d') :
    d = d' ∧ ∀ p ∈ d, P p.2 := by
  induction h with
  | nil => exact ⟨rfl, by simp⟩
  | @cons p q rest rest' hpq hrest ih =>
    obtain ⟨hkey, hvalue, hP⟩ := hpq
    refine ⟨by rw [Prod.ext hkey hvalue, ih.1], fun r hr => ?_⟩
    rcases List.mem_cons.1 hr with rfl | hr
    · exact hP
    · exact ih.2 r hr

end Related

end Stencil.Dict
