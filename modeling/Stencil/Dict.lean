/-!
# Dictionaries

A dictionary is a list of keys and values, sorted by key and without repeated keys: `insert` keeps
it so. Strings are compared by code point, which is also the order of their UTF-8 bytes.

* `get?_insert_self`, `get?_insert_of_ne`, `get?_insertNew`: what an insertion changes.
-/

namespace Stencil

/-- Keys with values, sorted by key. -/
abbrev Dict (α : Type u) := List (String × α)

namespace Dict

variable {α : Type u}

/-- The value of a key. -/
def get? : Dict α → String → Option α
  | [], _ => none
  | (k, v) :: rest, key => if key = k then some v else get? rest key

/-- Whether a key has a value. -/
def contains (d : Dict α) (key : String) : Bool := (get? d key).isSome

/-- Sets the value of a key, replacing an earlier one. -/
def insert : Dict α → String → α → Dict α
  | [], key, value => [(key, value)]
  | (k, v) :: rest, key, value =>
    if key = k then (key, value) :: rest
    else if key < k then (key, value) :: (k, v) :: rest
    else (k, v) :: insert rest key value

/-- Sets the value of a key that has none yet. -/
def insertNew (d : Dict α) (key : String) (value : α) : Dict α :=
  if contains d key then d else insert d key value

/-- Removes a key. -/
def erase (d : Dict α) (key : String) : Dict α := d.filter (·.1 ≠ key)

/-- All of the second dictionary, and what only the first one holds. -/
def merge (base overlay : Dict α) : Dict α := overlay.foldl (fun d p => insert d p.1 p.2) base

/-- The dictionary of a list of pairs; a later pair replaces an earlier one. -/
def ofList (pairs : List (String × α)) : Dict α := merge [] pairs

/-- The keys in order. -/
def keys (d : Dict α) : List String := d.map (·.1)

@[simp] theorem get?_nil (key : String) : get? ([] : Dict α) key = none := rfl

theorem get?_insert_self (d : Dict α) (key : String) (value : α) :
    get? (insert d key value) key = some value := by
  induction d with
  | nil => simp [insert, get?]
  | cons p rest ih =>
    obtain ⟨k, v⟩ := p
    by_cases h : key = k
    · simp [insert, get?, h]
    · by_cases hlt : key < k <;> simp [insert, get?, h, hlt, ih]

theorem get?_insert_of_ne (d : Dict α) {key other : String} (value : α) (h : other ≠ key) :
    get? (insert d key value) other = get? d other := by
  induction d with
  | nil => simp [insert, get?, h]
  | cons p rest ih =>
    obtain ⟨k, v⟩ := p
    by_cases hk : key = k
    · subst hk; simp [insert, get?, h]
    · by_cases hlt : key < k
      · simp [insert, get?, hk, hlt, h]
      · simp [insert, get?, hk, hlt, ih]

theorem get?_insertNew (d : Dict α) (key other : String) (value : α) :
    get? (insertNew d key value) other =
      (get? d other).or (if key = other then some value else none) := by
  unfold insertNew contains
  by_cases h : key = other
  · subst h
    cases hd : get? d key <;> simp [hd, get?_insert_self]
  · rw [if_neg h, Option.or_none]
    split
    · rfl
    · exact get?_insert_of_ne d value (Ne.symm h)

theorem mem_of_get? {d : Dict α} {key : String} {value : α} (h : get? d key = some value) :
    (key, value) ∈ d := by
  induction d with
  | nil => simp at h
  | cons p rest ih =>
    obtain ⟨k, v⟩ := p
    by_cases hk : key = k
    · simp_all [get?]
    · simp only [get?, if_neg hk] at h
      exact List.mem_cons_of_mem _ (ih h)

end Dict

end Stencil
