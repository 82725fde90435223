/-!
# Tables keyed by identities

Things that are created one after the other and never again under the same identity live in a
`Table`: its entries stand in the order of their creation. `find?_add`, `find?_set` and
`find?_erase` say what is found after a change.
-/

namespace ObjectSystem

/-- Entries in order of creation. -/
structure Table (ι α : Type) where
  entries : List (ι × α) := []
  deriving Repr

namespace Table

variable {ι α : Type} [DecidableEq ι]

/-- The table with no entry. -/
def empty : Table ι α := {}

/-- The entry of an identity. -/
def find? (t : Table ι α) (key : ι) : Option α :=
  t.entries.lookup key

/-- Whether an identity has an entry. -/
def contains (t : Table ι α) (key : ι) : Bool :=
  (t.find? key).isSome

/-- Adds an entry behind all others; meant for a new identity. -/
def add (t : Table ι α) (key : ι) (value : α) : Table ι α :=
  ⟨t.entries ++ [(key, value)]⟩

/-- Replaces the entry of an identity that has one. -/
def set (t : Table ι α) (key : ι) (value : α) : Table ι α :=
  ⟨t.entries.map fun (k, old) => if k = key then (k, value) else (k, old)⟩

/-- Changes the entry of an identity that has one. -/
def modify (t : Table ι α) (key : ι) (f : α → α) : Table ι α :=
  ⟨t.entries.map fun (k, old) => if k = key then (k, f old) else (k, old)⟩

/-- Removes the entry of an identity. -/
def erase (t : Table ι α) (key : ι) : Table ι α :=
  ⟨t.entries.filter fun entry => entry.1 ≠ key⟩

/-- The identities, in order of creation. -/
def keys (t : Table ι α) : List ι :=
  t.entries.map (·.1)

/-- The entries' values, in order of creation. -/
def values (t : Table ι α) : List α :=
  t.entries.map (·.2)

/-! ### What is found after a change -/

theorem find?_add (t : Table ι α) (key other : ι) (value : α) :
    (t.add key value).find? other =
      (t.find? other).or (if other = key then some value else none) := by
  unfold add find?
  induction t.entries with
  | nil =>
    by_cases h : other = key
    · simp [h]
    · simp [List.lookup_cons, h, beq_false_of_ne h]
  | cons entry rest ih =>
    obtain ⟨k, v⟩ := entry
    by_cases h : other = k
    · subst h
      simp
    · simpa [List.lookup_cons, beq_false_of_ne h] using ih

theorem find?_modify (t : Table ι α) (key other : ι) (f : α → α) :
    (t.modify key f).find? other =
      if other = key then (t.find? other).map f else t.find? other := by
  unfold modify find?
  induction t.entries with
  | nil => simp
  | cons entry rest ih =>
    obtain ⟨k, v⟩ := entry
    by_cases h : other = k
    · subst h
      by_cases hk : other = key <;> simp [hk]
    · by_cases hk : k = key
      · subst hk
        simpa [List.lookup_cons, beq_false_of_ne h, h] using ih
      · simpa [List.lookup_cons, beq_false_of_ne h, hk] using ih

theorem find?_set (t : Table ι α) (key other : ι) (value : α) :
    (t.set key value).find? other =
      if other = key then (t.find? other).map fun _ => value else t.find? other :=
  find?_modify t key other fun _ => value

theorem find?_erase (t : Table ι α) (key other : ι) :
    (t.erase key).find? other = if other = key then none else t.find? other := by
  unfold erase find?
  induction t.entries with
  | nil => simp
  | cons entry rest ih =>
    obtain ⟨k, v⟩ := entry
    by_cases hk : k = key
    · subst hk
      by_cases h : other = k
      · simpa [h] using ih
      · simpa [List.lookup_cons, beq_false_of_ne h, h] using ih
    · by_cases h : other = k
      · subst h
        simp [hk]
      · simpa [List.filter_cons, hk, List.lookup_cons, beq_false_of_ne h] using ih

end Table

end ObjectSystem
